import MindieLLM.Program.Slices
import MindieLLM.Program.Substring
import MindieLLM.TextGenerator.SlotContext
import Mathlib.Order.Bounds.Defs

/-!
# Stop strings

After each token the text generated so far is searched for the stop strings of the request, one
after the other in the order of the list, and the search returns at the first that is found. It says
how much of the text is to be cut off, before the stop string or after it.

The first of the list that is found need not be the one that stands first in the text. Where it is
not, the text that is left contains another stop string, or depends on how the text came in tokens.

## Main definitions

* `stringsEos`, `StopRow.filterByStop`: the search after a token, and over new tokens
* `StopStrings.run`: a sequence that generates its tokens in steps
* `StopStrings.Meets`: it ends and is cut where it should be, for all tokens that make up a text
* `StopStrings.InOrder`: how the list must be ordered for that

## Main results

* `StopStrings.run_outcome`: where a sequence ends, and which stop string ends it
* `StopStrings.meets_iff`: when the text is cut where it should be
* `StopStrings.not_meets`: a text that is cut at the later of two stop strings
-/

namespace MindieLLM

open Program

abbrev Text := List Char

def stringsEos (outputText newTokenString : Text) (stopStrings : List Text) (includeStop : Bool) :
    Option Int :=
  stopStrings.findSome? fun stopString =>
    (find outputText stopString (-newTokenString.length - stopString.length)).map fun stopIdx =>
      if includeStop then (stopIdx + stopString.length - outputText.length : Int)
      else (stopIdx - outputText.length : Int)

/-- What the context has on the stopping of a sequence. -/
structure StopSettings where
  /-- `string_stopping_criteria` -/
  stopStrings : Option (List Text)
  /-- `stopping_criteria` -/
  stoppingCriterion : Option (List Int → Bool)
  includeStop : Bool
  decodeOne : List Int → Text

/-- A sequence of a batch: what it has generated before, and its row of new tokens. -/
structure StopRow where
  settings : StopSettings
  /-- `all_output_ids[:output_len_count]` -/
  outputIds : List Int
  outputText : Text
  nextTokenIds : List Int
  numNewTokens : Nat

/-- What is found out about a sequence. -/
structure StopResult where
  numNewTokens : Nat
  outputText : Text
  truncationIdx : Int := 0
  checkedString : Bool := false
  checkedIds : Bool := false
  deriving DecidableEq, Repr

namespace StopRow

/-- The loop over the new tokens. So many rounds remain after `curLen` tokens. -/
def stopLoop (r : StopRow) : Nat → Nat → Text → StopResult
  | 0, curLen, outputText =>
    { numNewTokens := curLen
      outputText := outputText }
  | rounds + 1, lenTmp, outputText =>
    let newTokenIds := r.outputIds ++ r.nextTokenIds.take (lenTmp + 1)
    let newToken := r.settings.decodeOne newTokenIds
    let cachedOutputText := outputText ++ newToken
    match r.settings.stopStrings.bind fun stopStrings =>
        stringsEos cachedOutputText newToken stopStrings r.settings.includeStop with
    | some truncationIdx =>
      { numNewTokens := lenTmp + 1
        outputText := cachedOutputText
        truncationIdx
        checkedString := true }
    | none =>
      if r.settings.stoppingCriterion.any fun stop => stop newTokenIds then
        { numNewTokens := lenTmp + 1
          outputText := cachedOutputText
          truncationIdx := if r.settings.includeStop then 0 else -newToken.length
          checkedIds := true }
      else stopLoop r rounds (lenTmp + 1) cachedOutputText

/-- One sequence of `filter_by_stop`. -/
def filterByStop (r : StopRow) : Except PyError StopResult :=
  if r.settings.stopStrings.isSome || r.settings.stoppingCriterion.isSome then
    let result := r.stopLoop r.numNewTokens 0 r.outputText
    if result.numNewTokens = 0 then .error (.runtimeError "Empty `token_ids` generated!")
    else .ok result
  else
    .ok
      { numNewTokens := r.numNewTokens
        outputText := r.outputText }

end StopRow

namespace StopStrings

/-! ## A sequence that generates its tokens in steps -/

/-- The tokens that a step gives the sequence, at the beginning of its row. -/
structure StepTokens where
  nextTokenIds : List Int
  numNewTokens : Nat
  pos : 0 < numNewTokens
  le : numNewTokens ≤ nextTokenIds.length

def StepTokens.accepted (t : StepTokens) : List Int := t.nextTokenIds.take t.numNewTokens

structure StopState where
  outputIds : List Int := []
  outputText : Text := []
  /-- The truncation index with which the sequence has ended. -/
  ended : Option Int := none
  deriving DecidableEq, Repr

/-- A step of a sequence that has stop strings and no stop tokens. -/
def step (stopStrings : List Text) (includeStop : Bool) (decodeOne : List Int → Text)
    (s : StopState) (t : StepTokens) : Except PyError StopState :=
  match s.ended with
  | some _ => .ok s
  | none => do
    let result ← StopRow.filterByStop
      { settings :=
          { stopStrings := some stopStrings
            stoppingCriterion := none
            includeStop
            decodeOne }
        outputIds := s.outputIds
        outputText := s.outputText
        nextTokenIds := t.nextTokenIds
        numNewTokens := t.numNewTokens }
    return {
      outputIds := s.outputIds ++ t.nextTokenIds.take result.numNewTokens
      outputText := result.outputText
      ended := if result.checkedString then some result.truncationIdx else none }

def run (stopStrings : List Text) (includeStop : Bool) (decodeOne : List Int → Text)
    (steps : List StepTokens) : Except PyError StopState :=
  steps.foldlM (step stopStrings includeStop decodeOne) {}

/-- The text, with the truncation index applied to it. -/
def StopState.finalText (s : StopState) : Text :=
  match s.ended with
  | none => s.outputText
  | some idx =>
    if idx = 0 then s.outputText else s.outputText.take (s.outputText.length + idx).toNat

/-! ## What is asked for -/

/-- The text of the tokens. -/
def generated (decodeOne : List Int → Text) (ids : List Int) : Text :=
  (List.range ids.length).flatMap fun n => decodeOne (ids.take (n + 1))

def Contains (stopStrings : List Text) (text : Text) : Prop :=
  ∃ s ∈ stopStrings, ∃ i, OccursAt text s i

/-- The stop string `s` at `i` starts first in the text. -/
def Earliest (stopStrings : List Text) (text s : Text) (i : Nat) : Prop :=
  s ∈ stopStrings ∧ OccursAt text s i ∧ ∀ t ∈ stopStrings, ∀ j, OccursAt text t j → i ≤ j

/-- Where the text is cut for the stop string `s` at `i`. -/
def cut (includeStop : Bool) (s : Text) (i : Nat) : Nat :=
  if includeStop then i + s.length else i

/-- The sequence has ended with the first token after which its text contains a stop string, and the
text is cut at the one that starts first. -/
structure Right (stopStrings : List Text) (includeStop : Bool) (decodeOne : List Int → Text)
    (ids : List Int) (s : StopState) : Prop where
  outputText : s.outputText = generated decodeOne s.outputIds
  goes : ¬Contains stopStrings (generated decodeOne ids) → s.ended = none ∧ s.outputIds = ids
  ends : ∀ n, IsLeast {n | Contains stopStrings (generated decodeOne (ids.take n))} n →
    s.ended.isSome ∧ s.outputIds = ids.take n
  cutsAt : s.ended.isSome → ∃ t i, Earliest stopStrings s.outputText t i ∧
    s.finalText = s.outputText.take (cut includeStop t i)

/-- However the text comes in tokens and steps, the sequence ends right, and always with the same
text. -/
def Meets (stopStrings : List Text) (includeStop : Bool) (text : Text) : Prop :=
  ∃ finalText, ∀ (decodeOne : List Int → Text) (steps : List StepTokens),
    generated decodeOne (steps.flatMap StepTokens.accepted) = text →
      ∃ s, run stopStrings includeStop decodeOne steps = .ok s ∧
        Right stopStrings includeStop decodeOne (steps.flatMap StepTokens.accepted) s ∧
        s.finalText = finalText

/-- Where a stop string first stands in the text. -/
def FirstAt (text s : Text) (i : Nat) : Prop := IsLeast {i | OccursAt text s i} i

/-- The list is in order for a text: a stop string for which the text would be cut at another place
than for the one that starts first is listed behind one for which it is cut at that place, and that
is complete no later. -/
def InOrder (stopStrings : List Text) (includeStop : Bool) (text : Text) : Prop :=
  ∃ t j, Earliest stopStrings text t j ∧
    ∀ earlier s later i, stopStrings = earlier ++ s :: later → FirstAt text s i →
      cut includeStop s i ≠ cut includeStop t j →
        ∃ u ∈ earlier, ∃ k, FirstAt text u k ∧ cut includeStop u k = cut includeStop t j ∧
          k + u.length ≤ i + s.length

variable {stopStrings : List Text} {includeStop : Bool} {decodeOne : List Int → Text}
  {ids row : List Int} {text text' s t : Text} {i j n : Nat}

/-! ## The text of the tokens -/

theorem generated_concat (x : Int) :
    generated decodeOne (ids ++ [x]) = generated decodeOne ids ++ decodeOne (ids ++ [x]) := by
  unfold generated
  rw [List.length_append, List.length_singleton, List.range_succ, List.flatMap_append,
    List.flatMap_singleton]
  congr 1
  · refine List.flatMap_congr fun n hn => ?_
    rw [List.take_append_of_le_length (List.mem_range.mp hn)]
  · rw [List.take_of_length_le (by simp)]

theorem generated_isPrefix_append (decodeOne : List Int → Text) (l r : List Int) :
    generated decodeOne l <+: generated decodeOne (l ++ r) := by
  induction r using List.reverseRecOn with
  | nil => simp
  | append_singleton r x ih =>
    rw [← List.append_assoc, generated_concat]
    exact ih.trans (List.prefix_append _ _)

theorem generated_take_isPrefix (ids : List Int) (n : Nat) :
    generated decodeOne (ids.take n) <+: generated decodeOne ids := by
  have h := generated_isPrefix_append decodeOne (ids.take n) (ids.drop n)
  rwa [List.take_append_drop] at h

/-- The text with the next token of a row. -/
theorem generated_take_succ (hn : n < row.length) :
    generated decodeOne (ids ++ row.take (n + 1)) =
      generated decodeOne (ids ++ row.take n) ++ decodeOne (ids ++ row.take (n + 1)) := by
  rw [List.take_succ_eq_append_getElem hn, ← List.append_assoc, generated_concat]

theorem Contains.mono (h : Contains stopStrings text') (htext : text' <+: text) :
    Contains stopStrings text := by
  obtain ⟨s, hs, i, hi⟩ := h
  exact ⟨s, hs, i, hi.mono htext⟩

theorem not_contains_nil (hne : ∀ s ∈ stopStrings, s ≠ []) : ¬Contains stopStrings [] := by
  rintro ⟨s, hs, i, hle, -⟩
  have := List.length_pos_iff.mpr (hne s hs)
  simp only [List.length_nil] at hle
  omega

/-! ## The search after a token -/

/-- The first stop string of the list that occurs in the text, and where it does. -/
def firstListed (stopStrings : List Text) (text : Text) : Option (Text × Nat) :=
  stopStrings.findSome? fun s => (find text s 0).map fun i => (s, i)

theorem firstListed_eq_none_iff :
    firstListed stopStrings text = none ↔ ¬Contains stopStrings text := by
  unfold firstListed Contains
  rw [List.findSome?_eq_none_iff]
  constructor
  · rintro h ⟨s, hs, i, hi⟩
    obtain ⟨k, hk⟩ := exists_find ⟨i, hi⟩
    have := h s hs
    rw [hk] at this
    cases this
  · intro h s hs
    rw [Option.map_eq_none_iff, find_eq_none_iff]
    exact fun i _ hi => h ⟨s, hs, i, hi⟩

theorem exists_firstListed (h : Contains stopStrings text) :
    ∃ s i, firstListed stopStrings text = some (s, i) := by
  cases hfirst : firstListed stopStrings text with
  | none => exact absurd h (firstListed_eq_none_iff.mp hfirst)
  | some p => exact ⟨p.1, p.2, rfl⟩

theorem FirstAt.unique (h : FirstAt text s i) (h' : FirstAt text s j) : i = j :=
  Nat.le_antisymm (h.2 h'.1) (h'.2 h.1)

theorem firstAt_iff : FirstAt text s i ↔ find text s 0 = some i := by
  rw [find_eq_some_iff]
  exact ⟨fun h => ⟨Nat.zero_le i, h.1, fun j _ hj => h.2 hj⟩, fun h => ⟨h.2.1, fun j hj =>
    h.2.2 j (Nat.zero_le j) hj⟩⟩

/-- A stop string that has come with a beginning of the text is where it is in the text. -/
theorem firstAt_take_iff {k : Nat} (hk : k ≤ text.length) :
    FirstAt (text.take k) s i ↔ FirstAt text s i ∧ i + s.length ≤ k := by
  have hoccurs : ∀ j, OccursAt (text.take k) s j ↔ OccursAt text s j ∧ j + s.length ≤ k := by
    intro j
    rw [occursAt_prefix_iff (List.take_prefix k text), List.length_take_of_le hk]
  constructor
  · rintro ⟨hat, hleast⟩
    obtain ⟨hat, hle⟩ := (hoccurs i).mp hat
    refine ⟨⟨hat, fun j hj => ?_⟩, hle⟩
    rcases Nat.le_total i j with hij | hji
    · exact hij
    · exact hleast ((hoccurs j).mpr ⟨hj, by omega⟩)
  · rintro ⟨⟨hat, hleast⟩, hle⟩
    exact ⟨(hoccurs i).mpr ⟨hat, hle⟩, fun j hj => hleast ((hoccurs j).mp hj).1⟩

/-- The first of the list is that before which none of the list occurs. -/
theorem firstListed_eq_some_iff : firstListed stopStrings text = some (s, i) ↔
    ∃ earlier later, stopStrings = earlier ++ s :: later ∧ FirstAt text s i ∧
      ∀ u ∈ earlier, ∀ k, ¬FirstAt text u k := by
  unfold firstListed
  rw [List.findSome?_eq_some_iff]
  have hnone : ∀ u, (find text u 0).map (fun k => (u, k)) = none ↔ ∀ k, ¬FirstAt text u k := by
    intro u
    rw [Option.map_eq_none_iff, Option.eq_none_iff_forall_ne_some]
    simp only [firstAt_iff, ne_eq]
  simp only [hnone]
  constructor
  · rintro ⟨earlier, u, later, rfl, hu, hearlier⟩
    obtain ⟨k, hk, heq⟩ := Option.map_eq_some_iff.mp hu
    cases heq
    exact ⟨earlier, later, rfl, firstAt_iff.mpr hk, hearlier⟩
  · rintro ⟨earlier, later, rfl, hs, hearlier⟩
    exact ⟨earlier, s, later, rfl, by rw [firstAt_iff.mp hs]; rfl, hearlier⟩

theorem firstListed_spec (h : firstListed stopStrings text = some (s, i)) :
    s ∈ stopStrings ∧ OccursAt text s i := by
  obtain ⟨earlier, later, rfl, hs, -⟩ := firstListed_eq_some_iff.mp h
  exact ⟨by simp, hs.1⟩

theorem contains_of_firstListed (h : firstListed stopStrings text = some (s, i)) :
    Contains stopStrings text :=
  ⟨s, (firstListed_spec h).1, i, (firstListed_spec h).2⟩

theorem cut_le (includeStop : Bool) (h : OccursAt text s i) :
    cut includeStop s i ≤ text.length := by
  have := h.1
  unfold cut
  split <;> omega

/-- After a text without stop strings, only the new part need be searched. -/
theorem stringsEos_eq (includeStop : Bool) (new : Text) (h : ¬Contains stopStrings text) :
    stringsEos (text ++ new) new stopStrings includeStop =
      (firstListed stopStrings (text ++ new)).map fun p =>
        (cut includeStop p.1 p.2 - (text ++ new).length : Int) := by
  unfold stringsEos firstListed
  rw [List.map_findSome?, ← List.head?_filterMap, ← List.head?_filterMap]
  refine congrArg List.head? (List.filterMap_congr fun s hs => ?_)
  rw [find_window fun i hi => h ⟨s, hs, i, hi⟩, Function.comp_apply]
  cases find (text ++ new) s 0 with
  | none => rfl
  | some i => cases includeStop <;> simp [cut]

/-- What a sequence has come to after the tokens `ids`. -/
inductive Outcome (stopStrings : List Text) (includeStop : Bool) (decodeOne : List Int → Text)
    (ids : List Int) : StopState → Prop
  | goes (hnot : ¬Contains stopStrings (generated decodeOne ids)) :
      Outcome stopStrings includeStop decodeOne ids ⟨ids, generated decodeOne ids, none⟩
  | ended {n : Nat} {s : Text} {i : Nat} (hn : n < ids.length)
      (hnot : ¬Contains stopStrings (generated decodeOne (ids.take n)))
      (hfirst : firstListed stopStrings (generated decodeOne (ids.take (n + 1))) = some (s, i)) :
      Outcome stopStrings includeStop decodeOne ids
        ⟨ids.take (n + 1), generated decodeOne (ids.take (n + 1)),
          some (cut includeStop s i - (generated decodeOne (ids.take (n + 1))).length)⟩

/-- The search over the new tokens of a sequence. -/
theorem stopLoop_spec {r : StopRow} (hstrings : r.settings.stopStrings = some stopStrings)
    (hids : r.settings.stoppingCriterion = none) (rounds : Nat) :
    ∀ n, n + rounds ≤ r.nextTokenIds.length →
      ¬Contains stopStrings
        (generated r.settings.decodeOne (r.outputIds ++ r.nextTokenIds.take n)) →
      (¬Contains stopStrings
          (generated r.settings.decodeOne (r.outputIds ++ r.nextTokenIds.take (n + rounds))) ∧
        r.stopLoop rounds n
            (generated r.settings.decodeOne (r.outputIds ++ r.nextTokenIds.take n)) =
          { numNewTokens := n + rounds
            outputText :=
              generated r.settings.decodeOne (r.outputIds ++ r.nextTokenIds.take (n + rounds)) }) ∨
      ∃ m s i, n ≤ m ∧ m < n + rounds ∧
        ¬Contains stopStrings
          (generated r.settings.decodeOne (r.outputIds ++ r.nextTokenIds.take m)) ∧
        firstListed stopStrings
          (generated r.settings.decodeOne (r.outputIds ++ r.nextTokenIds.take (m + 1))) =
            some (s, i) ∧
        r.stopLoop rounds n
            (generated r.settings.decodeOne (r.outputIds ++ r.nextTokenIds.take n)) =
          { numNewTokens := m + 1
            outputText :=
              generated r.settings.decodeOne (r.outputIds ++ r.nextTokenIds.take (m + 1))
            truncationIdx := cut r.settings.includeStop s i -
              (generated r.settings.decodeOne (r.outputIds ++ r.nextTokenIds.take (m + 1))).length
            checkedString := true } := by
  induction rounds with
  | zero => exact fun n _ hnot => .inl ⟨hnot, rfl⟩
  | succ rounds ih =>
    intro n hle hnot
    have heos := stringsEos_eq r.settings.includeStop
      (r.settings.decodeOne (r.outputIds ++ r.nextTokenIds.take (n + 1))) hnot
    rw [← generated_take_succ (by omega)] at heos
    cases hfirst : firstListed stopStrings
        (generated r.settings.decodeOne (r.outputIds ++ r.nextTokenIds.take (n + 1))) with
    | none =>
      -- not yet: the loop goes on with the next token
      have hloop : r.stopLoop (rounds + 1) n
          (generated r.settings.decodeOne (r.outputIds ++ r.nextTokenIds.take n)) =
          r.stopLoop rounds (n + 1)
            (generated r.settings.decodeOne (r.outputIds ++ r.nextTokenIds.take (n + 1))) := by
        rw [StopRow.stopLoop, ← generated_take_succ (by omega), hstrings, Option.bind_some, heos,
          hfirst, hids]
        rfl
      rw [hloop]
      have hrest := ih (n + 1) (by omega) (firstListed_eq_none_iff.mp hfirst)
      rw [Nat.add_right_comm] at hrest
      rcases hrest with hgoes | ⟨m, s, i, hm, hlt, hended⟩
      · exact .inl hgoes
      · exact .inr ⟨m, s, i, by omega, by omega, hended⟩
    | some p =>
      refine .inr ⟨n, p.1, p.2, le_rfl, by omega, hnot, hfirst, ?_⟩
      rw [StopRow.stopLoop, ← generated_take_succ (by omega), hstrings, Option.bind_some, heos,
        hfirst]
      rfl

/-- A sequence that has ended stays as it is when further tokens come. -/
theorem Outcome.ended_append {st : StopState} (ids' : List Int)
    (h : Outcome stopStrings includeStop decodeOne ids st) (hended : st.ended.isSome) :
    Outcome stopStrings includeStop decodeOne (ids ++ ids') st := by
  cases h with
  | goes hnot => cases hended
  | @ended n s i hn hnot hfirst =>
    have htake : ∀ m, m ≤ n + 1 → (ids ++ ids').take m = ids.take m := fun m hm =>
      List.take_append_of_le_length (by omega)
    rw [← htake n (by omega)] at hnot
    rw [← htake (n + 1) le_rfl] at hfirst ⊢
    exact .ended (by rw [List.length_append]; omega) hnot hfirst

theorem step_outcome {st : StopState} (t : StepTokens)
    (h : Outcome stopStrings includeStop decodeOne ids st) :
    ∃ st', step stopStrings includeStop decodeOne st t = .ok st' ∧
      Outcome stopStrings includeStop decodeOne (ids ++ t.accepted) st' := by
  have hpos := t.pos
  have hlength : t.accepted.length = t.numNewTokens := by
    rw [StepTokens.accepted, List.length_take, Nat.min_eq_left t.le]
  cases h with
  | ended hn hnot hfirst => exact ⟨_, rfl, (Outcome.ended hn hnot hfirst).ended_append _ rfl⟩
  | goes hnot =>
    have hspec := stopLoop_spec
      (r :=
        { settings :=
            { stopStrings := some stopStrings
              stoppingCriterion := none
              includeStop
              decodeOne }
          outputIds := ids
          outputText := generated decodeOne ids
          nextTokenIds := t.nextTokenIds
          numNewTokens := t.numNewTokens }) rfl rfl t.numNewTokens 0
      (by rw [Nat.zero_add]; exact t.le) (by rwa [List.take_zero, List.append_nil])
    simp only [List.take_zero, List.append_nil, Nat.zero_add] at hspec
    unfold step StopRow.filterByStop
    simp only [Option.isSome_some, Bool.true_or, if_true]
    rcases hspec with ⟨hnone, hloop⟩ | ⟨m, s, i, -, hm, hnone, hfirst, hloop⟩
    · rw [hloop, if_neg (Nat.ne_of_gt hpos)]
      exact ⟨_, rfl, .goes hnone⟩
    · rw [hloop, if_neg (Nat.succ_ne_zero m)]
      have htake : ∀ k, k ≤ t.numNewTokens →
          ids ++ t.nextTokenIds.take k = (ids ++ t.accepted).take (ids.length + k) := by
        intro k hk
        rw [List.take_length_add_append, StepTokens.accepted, List.take_take, Nat.min_eq_left hk]
      rw [htake _ (by omega)] at hnone hfirst
      refine ⟨_, rfl, ?_⟩
      simp only [if_true]
      rw [htake _ (by omega)]
      exact .ended (n := ids.length + m) (by rw [List.length_append]; omega) hnone hfirst

/-- Where a sequence ends, and which stop string ends it. -/
theorem run_outcome (includeStop : Bool) (decodeOne : List Int → Text)
    (hne : ∀ s ∈ stopStrings, s ≠ []) (steps : List StepTokens) :
    ∃ st, run stopStrings includeStop decodeOne steps = .ok st ∧
      Outcome stopStrings includeStop decodeOne (steps.flatMap StepTokens.accepted) st := by
  have hrun : ∀ ids st, Outcome stopStrings includeStop decodeOne ids st →
      ∃ st', steps.foldlM (step stopStrings includeStop decodeOne) st = .ok st' ∧
        Outcome stopStrings includeStop decodeOne
          (ids ++ steps.flatMap StepTokens.accepted) st' := by
    induction steps with
    | nil => exact fun ids st h => ⟨st, rfl, by rwa [List.flatMap_nil, List.append_nil]⟩
    | cons t steps ih =>
      intro ids st h
      obtain ⟨st₁, hstep, hout⟩ := step_outcome t h
      obtain ⟨st₂, hrest, hout⟩ := ih _ st₁ hout
      refine ⟨st₂, ?_, ?_⟩
      · rw [List.foldlM_cons, hstep]
        exact hrest
      · rwa [List.flatMap_cons, ← List.append_assoc]
  exact hrun [] {} (.goes (not_contains_nil hne))

/-! ## The cut -/

theorem finalText_eq {c : Nat} {outputIds : List Int} :
    (StopState.mk outputIds text (some (c - text.length : Int))).finalText = text.take c := by
  have hsum : ((text.length : Int) + (c - text.length)).toNat = c := by omega
  unfold StopState.finalText
  simp only [hsum]
  split_ifs with hzero
  · rw [List.take_of_length_le (by omega)]
  · rfl

/-- What the sequence has ended with, where it has. -/
theorem Outcome.finalText {st : StopState} (h : Outcome stopStrings includeStop decodeOne ids st)
    (hended : st.ended.isSome) :
    ∃ s i, firstListed stopStrings st.outputText = some (s, i) ∧
      st.finalText = st.outputText.take (cut includeStop s i) := by
  cases h with
  | goes hnot => cases hended
  | ended hn hnot hfirst =>
    exact ⟨_, _, hfirst, finalText_eq⟩

/-- A sequence always ends with the right token. -/
theorem Outcome.right {st : StopState} (h : Outcome stopStrings includeStop decodeOne ids st)
    (hcut : st.ended.isSome → ∃ t i, Earliest stopStrings st.outputText t i ∧
      st.finalText = st.outputText.take (cut includeStop t i)) :
    Right stopStrings includeStop decodeOne ids st := by
  cases h with
  | goes hnot =>
    refine ⟨rfl, fun _ => ⟨rfl, rfl⟩, fun n hn => ?_, hcut⟩
    exact absurd (hn.1.mono (generated_take_isPrefix _ n)) hnot
  | @ended m s i hm hnot hfirst =>
    have hcontains := contains_of_firstListed hfirst
    refine ⟨rfl, fun hno => ?_, fun n hn => ⟨rfl, ?_⟩, hcut⟩
    · exact absurd (hcontains.mono (generated_take_isPrefix _ _)) hno
    · have hle : n ≤ m + 1 := hn.2 hcontains
      have hgt : ¬n ≤ m := by
        intro hnm
        have htake : (ids.take m).take n = ids.take n := by
          rw [List.take_take, Nat.min_eq_left hnm]
        exact hnot (hn.1.mono (htake ▸ generated_take_isPrefix (ids.take m) n))
      have hn : n = m + 1 := by omega
      rw [hn]

theorem Earliest.of_prefixed (h : Earliest stopStrings text t j) (htext : text' <+: text)
    (hat : OccursAt text' s j) (hs : s ∈ stopStrings) : Earliest stopStrings text' s j :=
  ⟨hs, hat, fun u hu k hk => h.2.2 u hu k (hk.mono htext)⟩

/-- Where the text has come as far as the cut, so has the stop string that starts first. -/
theorem exists_earliest_prefix_text (h : Earliest stopStrings text t j) (htext : text' <+: text)
    (hfirst : firstListed stopStrings text' = some (s, i))
    (hcut : cut includeStop s i = cut includeStop t j) :
    ∃ u k, Earliest stopStrings text' u k ∧ cut includeStop u k = cut includeStop t j := by
  obtain ⟨hs, hat⟩ := firstListed_spec hfirst
  cases includeStop with
  | false =>
    have hij : i = j := hcut
    subst hij
    exact ⟨s, i, h.of_prefixed htext hat hs, rfl⟩
  | true =>
    have hend : i + s.length = j + t.length := hcut
    have hle := hat.1
    exact ⟨t, j, h.of_prefixed htext ((occursAt_prefix_iff htext).mpr ⟨h.2.1, by omega⟩) h.1, rfl⟩

/-- Two tokens, the first of which brings the text up to `k`. -/
def twoPieces (text : Text) (k : Nat) (ids : List Int) : Text :=
  if ids.length = 1 then text.take k else text.drop k

def twoTokens : List StepTokens :=
  [ { nextTokenIds := [0, 0]
      numNewTokens := 2
      pos := by decide
      le := by decide } ]

theorem generated_twoPieces (k : Nat) :
    generated (twoPieces text k) (twoTokens.flatMap StepTokens.accepted) = text := by
  change text.take k ++ (text.drop k ++ []) = text
  rw [List.append_nil, List.take_append_drop]

/-- If the first piece contains a stop string, the second does not come. -/
theorem outcome_twoPieces {st : StopState} {k : Nat}
    (h : Outcome stopStrings includeStop (twoPieces text k)
      (twoTokens.flatMap StepTokens.accepted) st)
    (hfirst : firstListed stopStrings (text.take k) = some (s, i)) :
    st.ended.isSome ∧ st.outputText = text.take k ∧
      st.finalText = (text.take k).take (cut includeStop s i) := by
  have hone : generated (twoPieces text k) [0] = text.take k := List.append_nil _
  have hcontains := contains_of_firstListed hfirst
  cases h with
  | goes hnot =>
    rw [generated_twoPieces] at hnot
    exact absurd (hcontains.mono ( List.take_prefix k text)) hnot
  | @ended n s' i' hn hnot hfirst' =>
    rcases Nat.lt_succ_iff_lt_or_eq.mp hn with hzero | hone'
    · have hzero : n = 0 := Nat.lt_one_iff.mp hzero
      subst hzero
      change firstListed stopStrings (generated (twoPieces text k) [0]) = some (s', i') at hfirst'
      rw [hone, hfirst] at hfirst'
      cases hfirst'
      exact ⟨rfl, hone, hone ▸ finalText_eq⟩
    · subst hone'
      exact absurd (hone ▸ hcontains) hnot

/-! ## When the text is cut where it should be -/

/-- The list is in order if, whatever beginning of the text has come, the first stop string of the
list that occurs in it is cut where the one that starts first is. -/
theorem inOrder_iff : InOrder stopStrings includeStop text ↔
    ∃ t j, Earliest stopStrings text t j ∧
      ∀ k s i, firstListed stopStrings (text.take k) = some (s, i) →
        cut includeStop s i = cut includeStop t j := by
  refine exists_congr fun t => exists_congr fun j => and_congr_right fun _ => ⟨fun h => ?_,
    fun h => ?_⟩
  · intro k s i hfirst
    rw [List.take_eq_take_min] at hfirst
    obtain ⟨earlier, later, hlist, hs, hearlier⟩ := firstListed_eq_some_iff.mp hfirst
    obtain ⟨hs, hle⟩ := (firstAt_take_iff (Nat.min_le_right k text.length)).mp hs
    by_contra hne
    obtain ⟨u, hu, k', hk', -, hend⟩ := h earlier s later i hlist hs hne
    exact hearlier u hu k' ((firstAt_take_iff (Nat.min_le_right k text.length)).mpr
      ⟨hk', Nat.le_trans hend hle⟩)
  · intro earlier s later i hlist hs hne
    have hle : i + s.length ≤ text.length := hs.1.1
    -- the text up to the end of this stop string
    have hs' : FirstAt (text.take (i + s.length)) s i :=
      (firstAt_take_iff hle).mpr ⟨hs, Nat.le_refl _⟩
    have hcontains : Contains stopStrings (text.take (i + s.length)) :=
      ⟨s, by rw [hlist]; simp, i, hs'.1⟩
    obtain ⟨u, k, hfirst⟩ := exists_firstListed hcontains
    have hcut := h _ u k hfirst
    obtain ⟨earlier', later', hlist', hu, hearlier'⟩ := firstListed_eq_some_iff.mp hfirst
    obtain ⟨hu', hend⟩ := (firstAt_take_iff hle).mp hu
    have hother : u ≠ s := by
      rintro rfl
      exact hne (hs.unique hu' ▸ hcut)
    have hmem : u ∈ earlier := by
      rcases List.append_eq_append_iff.mp (hlist.symm.trans hlist') with ⟨mid, hmid, hrest⟩ |
        ⟨mid, hmid, hrest⟩
      · cases mid with
        | nil => exact absurd (List.cons.inj hrest).1.symm hother
        | cons s' mid =>
          obtain rfl := (List.cons.inj hrest).1
          exact absurd hs' (hearlier' s (by rw [hmid]; simp) i)
      · cases mid with
        | nil => exact absurd (List.cons.inj hrest).1 hother
        | cons u' mid =>
          obtain rfl := (List.cons.inj hrest).1
          rw [hmid]
          simp
    exact ⟨u, hmem, k, hu', hcut, hend⟩

theorem meets_of_not_contains (hne : ∀ s ∈ stopStrings, s ≠ [])
    (hnot : ¬Contains stopStrings text) : Meets stopStrings includeStop text := by
  refine ⟨text, fun decodeOne steps htext => ?_⟩
  obtain ⟨st, hrun, hout⟩ := run_outcome includeStop decodeOne hne steps
  cases hout with
  | goes hno =>
    exact ⟨_, hrun, (Outcome.goes hno).right (fun hended => by cases hended), htext⟩
  | ended hn hno hfirst =>
    have hcontains := (contains_of_firstListed hfirst).mono (generated_take_isPrefix _ _)
    rw [htext] at hcontains
    exact absurd hcontains hnot

theorem meets_of_inOrder (hne : ∀ s ∈ stopStrings, s ≠ [])
    (h : InOrder stopStrings includeStop text) : Meets stopStrings includeStop text := by
  obtain ⟨t, j, hearliest, hcuts⟩ := inOrder_iff.mp h
  refine ⟨text.take (cut includeStop t j), fun decodeOne steps htext => ?_⟩
  obtain ⟨st, hrun, hout⟩ := run_outcome includeStop decodeOne hne steps
  have hended : st.ended.isSome := by
    cases hout with
    | ended hn hno hfirst => rfl
    | goes hno =>
      rw [htext] at hno
      exact absurd ⟨t, hearliest.1, j, hearliest.2.1⟩ hno
  -- what the sequence has generated is a beginning of the text
  have hprefix : st.outputText <+: text := by
    rw [← htext]
    cases hout with
    | goes => exact List.prefix_rfl
    | ended => exact generated_take_isPrefix _ _
  obtain ⟨s, i, hfirst, hfinal⟩ := hout.finalText hended
  have hcut : cut includeStop s i = cut includeStop t j := by
    refine hcuts st.outputText.length s i ?_
    rwa [← List.prefix_iff_eq_take.mp hprefix]
  have hle : cut includeStop t j ≤ st.outputText.length :=
    hcut ▸ cut_le _ (firstListed_spec hfirst).2
  obtain ⟨u, k, hu, huk⟩ := exists_earliest_prefix_text hearliest hprefix hfirst hcut
  refine ⟨st, hrun, hout.right fun _ => ⟨u, k, hu, by rw [hfinal, hcut, huk]⟩, ?_⟩
  rw [hfinal, hcut, List.prefix_iff_eq_take.mp hprefix, List.take_take, Nat.min_eq_left hle]

theorem inOrder_of_meets (hne : ∀ s ∈ stopStrings, s ≠ [])
    (h : Meets stopStrings includeStop text) (hcontains : Contains stopStrings text) :
    InOrder stopStrings includeStop text := by
  obtain ⟨finalText, h⟩ := h
  -- the text in two tokens, of which the first alone may end the sequence
  have htwo : ∀ k s i, firstListed stopStrings (text.take k) = some (s, i) →
      finalText = (text.take k).take (cut includeStop s i) ∧
        ∃ t j, Earliest stopStrings (text.take k) t j ∧
          finalText = (text.take k).take (cut includeStop t j) := by
    intro k s i hfirst
    obtain ⟨st, hrun, hright, hfinal⟩ := h (twoPieces text k) twoTokens (generated_twoPieces k)
    obtain ⟨st', hrun', hout⟩ := run_outcome includeStop (twoPieces text k) hne twoTokens
    have hst : st' = st := Except.ok.inj (hrun'.symm.trans hrun)
    subst hst
    obtain ⟨hended, htext, hcut⟩ := outcome_twoPieces hout hfirst
    obtain ⟨t, j, hearliest, hcutsAt⟩ := hright.cutsAt hended
    rw [htext] at hearliest hcutsAt
    exact ⟨hfinal ▸ hcut, t, j, hearliest, hfinal ▸ hcutsAt⟩
  obtain ⟨s, i, hfirst⟩ := exists_firstListed hcontains
  obtain ⟨-, t, j, hearliest, hfinal⟩ :=
    htwo text.length s i (by rwa [List.take_of_length_le le_rfl])
  rw [List.take_of_length_le le_rfl] at hearliest hfinal
  refine inOrder_iff.mpr ⟨t, j, hearliest, fun k s i hfirst => ?_⟩
  have hle := cut_le includeStop (firstListed_spec hfirst).2
  have heq := (htwo k s i hfirst).1
  rw [hfinal] at heq
  have hlength := congrArg List.length heq
  have hle' := cut_le includeStop hearliest.2.1
  simp only [List.length_take] at hlength hle
  omega

/-- When the text is cut where it should be, however it comes in tokens. -/
theorem meets_iff (hne : ∀ s ∈ stopStrings, s ≠ []) :
    Meets stopStrings includeStop text ↔
      (Contains stopStrings text → InOrder stopStrings includeStop text) := by
  constructor
  · exact inOrder_of_meets hne
  · intro h
    by_cases hcontains : Contains stopStrings text
    · exact meets_of_inOrder hne (h hcontains)
    · exact meets_of_not_contains hne hcontains

/-- Of two stop strings the second one comes in the text as soon as the first one is complete. -/
theorem meets_iff_two : Meets ["stop".toList, "end".toList] false "a stop, an end".toList := by
  have hstop : FirstAt "a stop, an end".toList "stop".toList 2 := firstAt_iff.mpr (by decide)
  have hend : FirstAt "a stop, an end".toList "end".toList 11 := firstAt_iff.mpr (by decide)
  refine (meets_iff (by decide)).mpr fun _ => ⟨"stop".toList, 2, ⟨by decide, hstop.1, ?_⟩, ?_⟩
  · intro t ht j hj
    rcases List.mem_pair.mp ht with rfl | rfl
    · exact hstop.2 hj
    · exact Nat.le_trans (by decide) (hend.2 hj)
  · intro earlier s later i hlist hs hne
    match earlier, hlist with
    | [], hlist =>
      obtain rfl := (List.cons.inj hlist).1
      exact absurd (hs.unique hstop) hne
    | [u], hlist =>
      obtain ⟨hu, hlist⟩ := List.cons.inj hlist
      obtain rfl := (List.cons.inj hlist).1
      obtain rfl := hs.unique hend
      exact ⟨u, List.mem_singleton_self u, 2, hu ▸ hstop, rfl, by rw [← hu]; decide⟩
    | _ :: _ :: _, hlist => simp at hlist

/-- A token that comes in one step. -/
def oneToken : List StepTokens :=
  [ { nextTokenIds := [7]
      numNewTokens := 1
      pos := by decide
      le := by decide } ]

/-- A text with two stop strings is cut at the later of them, when that one is listed first. -/
theorem not_meets : ¬Meets [['b'], ['a']] false ['a', 'b'] := by
  rintro ⟨finalText, h⟩
  obtain ⟨st, hrun, hright, -⟩ := h (fun _ => ['a', 'b']) oneToken rfl
  have hrun' : run [['b'], ['a']] false (fun _ => ['a', 'b']) oneToken =
      .ok ⟨[7], ['a', 'b'], some (-1)⟩ := by decide
  have hst := Except.ok.inj (hrun'.symm.trans hrun)
  subst hst
  obtain ⟨t, i, ⟨-, -, hfirst⟩, hcut⟩ := hright.cutsAt rfl
  have hzero : i = 0 := Nat.le_zero.mp (hfirst ['a'] (by decide) 0 (by decide))
  subst hzero
  have hempty : ['a'] = [] := hcut
  cases hempty

end StopStrings

end MindieLLM
