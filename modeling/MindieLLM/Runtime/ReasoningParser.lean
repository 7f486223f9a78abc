import Mathlib.Data.List.Basic
import Mathlib.Order.Nat

/-!
# Reasoning and content

The tokens of an answer are reasoning up to the first end marker, and content from there on; a
start marker in front counts for neither. The parser splits a whole answer, and in a stream it
splits what is new in each step.

In a stream the start marker is left out only when it is all there is so far. A first step with
more tokens passes it on as reasoning.

## Main definitions

* `CommonReasoningParser.singleProcessReasoning`: the split of a whole answer
* `CommonReasoningParser.streamProcessReasoning`: the split of what is new
* `CommonReasoningParser.streamSteps`: the parts of all steps, one after the other
* `CommonReasoningParser.StartsAlone`: the condition on the first step

## Main results

* `CommonReasoningParser.streamProcessReasoning_spec`: one step
* `CommonReasoningParser.streamSteps_eq_single_iff`: the stream has the split of the whole answer if
  and only if the condition holds
-/

namespace MindieLLM

/-- The markers; a marker that is `None` is no token. -/
structure CommonReasoningParser where
  startReasoningTokenId : Option ℕ
  endReasoningTokenId : Option ℕ
  deriving DecidableEq

namespace CommonReasoningParser

/-- The index of the first end marker, or the number of tokens if there is none. -/
def reasoningEndTokenIndex (p : CommonReasoningParser) (allTokenIds : List ℕ) : ℕ :=
  match p.endReasoningTokenId with
  | some endId => if endId ∈ allTokenIds then allTokenIds.idxOf endId else allTokenIds.length
  | none => allTokenIds.length

/-- What is new since `currentIndex`, reasoning and content. The first token has to exist. -/
def streamProcessReasoning (p : CommonReasoningParser) (allTokenIds : List ℕ)
    (currentIndex : ℕ) : Option (List ℕ × List ℕ) := do
  let first ← allTokenIds.head?
  let validTextStartIndex := if p.startReasoningTokenId = some first then 1 else 0
  if allTokenIds.length = 1 ∧ validTextStartIndex = 1 then some ([], [])
  else
    let reasoningEndTokenIndex := p.reasoningEndTokenIndex allTokenIds
    some
      (if currentIndex < reasoningEndTokenIndex then
        (allTokenIds.take reasoningEndTokenIndex).drop currentIndex
      else [],
      if reasoningEndTokenIndex + 1 < allTokenIds.length then
        allTokenIds.drop (max (1 + reasoningEndTokenIndex) currentIndex)
      else [])

/-- The whole answer. Without an end marker all of it is content. -/
def singleProcessReasoning (p : CommonReasoningParser) (allTokenIds : List ℕ) :
    List ℕ × List ℕ :=
  match allTokenIds.head?, p.endReasoningTokenId with
  | none, _ => ([], [])
  | some _, none => ([], allTokenIds)
  | some first, some endId =>
    let reasoningContentStartIndex := if p.startReasoningTokenId = some first then 1 else 0
    if endId ∉ allTokenIds then (allTokenIds.drop reasoningContentStartIndex, [])
    else
      let reasoningContentEndIndex := allTokenIds.idxOf endId
      ((allTokenIds.take reasoningContentEndIndex).drop reasoningContentStartIndex,
        if reasoningContentEndIndex + 1 = allTokenIds.length then []
        else allTokenIds.drop (reasoningContentEndIndex + 1))

/-- All steps of a stream, after the tokens `before`; the index of each is how many there were. -/
def streamSteps (p : CommonReasoningParser) : List ℕ → List (List ℕ) → Option (List ℕ × List ℕ)
  | _, [] => some ([], [])
  | before, step :: rest => do
    let (reasoning, content) ← p.streamProcessReasoning (before ++ step) before.length
    let (reasonings, contents) ← p.streamSteps (before ++ step) rest
    some (reasoning ++ reasonings, content ++ contents)

/-- The condition: there is an end marker, and a start marker in front, unless it is the end marker
as well, is the first step alone. -/
def StartsAlone (p : CommonReasoningParser) (steps : List (List ℕ)) : Prop :=
  p.endReasoningTokenId ≠ none ∧
    ∀ step ∈ steps.head?, step.head? = p.startReasoningTokenId →
      p.startReasoningTokenId ≠ p.endReasoningTokenId → step.length = 1

instance (p : CommonReasoningParser) (steps : List (List ℕ)) : Decidable (p.StartsAlone steps) :=
  inferInstanceAs (Decidable (_ ∧ _))

variable {p : CommonReasoningParser} {before step : List ℕ} {steps : List (List ℕ)}

/-! ## Where the reasoning ends -/

theorem reasoningEndTokenIndex_le (l : List ℕ) : p.reasoningEndTokenIndex l ≤ l.length := by
  unfold reasoningEndTokenIndex
  split
  · split_ifs
    · exact List.idxOf_le_length
    · exact le_rfl
  · exact le_rfl

theorem reasoningEndTokenIndex_some {endId : ℕ} (h : p.endReasoningTokenId = some endId)
    (l : List ℕ) : p.reasoningEndTokenIndex l = l.idxOf endId := by
  simp only [reasoningEndTokenIndex, h]
  split_ifs with hmem
  · rfl
  · exact (List.idxOf_eq_length hmem).symm

theorem reasoningEndTokenIndex_none (h : p.endReasoningTokenId = none) (l : List ℕ) :
    p.reasoningEndTokenIndex l = l.length := by
  simp only [reasoningEndTokenIndex, h]

/-- More tokens do not move an end that has been reached. -/
theorem reasoningEndTokenIndex_append (h : p.reasoningEndTokenIndex before < before.length) :
    p.reasoningEndTokenIndex (before ++ step) = p.reasoningEndTokenIndex before := by
  cases hend : p.endReasoningTokenId with
  | none =>
    rw [reasoningEndTokenIndex_none hend] at h
    exact absurd h (lt_irrefl _)
  | some endId =>
    rw [reasoningEndTokenIndex_some hend] at h ⊢
    rw [reasoningEndTokenIndex_some hend, List.idxOf_append_of_mem (List.idxOf_lt_length_iff.mp h)]

/-- An end that has not been reached is in what follows. -/
theorem le_reasoningEndTokenIndex_append (h : p.reasoningEndTokenIndex before = before.length) :
    before.length ≤ p.reasoningEndTokenIndex (before ++ step) := by
  cases hend : p.endReasoningTokenId with
  | none =>
    rw [reasoningEndTokenIndex_none hend, List.length_append]
    exact Nat.le_add_right _ _
  | some endId =>
    rw [reasoningEndTokenIndex_some hend] at h ⊢
    have hmem : endId ∉ before := fun hmem => (List.idxOf_lt_length_of_mem hmem).ne h
    rw [List.idxOf_append_of_notMem hmem]
    exact Nat.le_add_right _ _

/-! ## The parts of an answer -/

/-- What is before the end marker, with a start marker. -/
def reasoningOf (p : CommonReasoningParser) (l : List ℕ) : List ℕ :=
  l.take (p.reasoningEndTokenIndex l)

/-- What is behind the end marker. -/
def contentOf (p : CommonReasoningParser) (l : List ℕ) : List ℕ :=
  l.drop (p.reasoningEndTokenIndex l + 1)

theorem reasoningOf_append (before step : List ℕ) :
    p.reasoningOf before ++
        ((before ++ step).take (p.reasoningEndTokenIndex (before ++ step))).drop before.length =
      p.reasoningOf (before ++ step) := by
  unfold reasoningOf
  rcases Nat.lt_or_eq_of_le (reasoningEndTokenIndex_le before) with hlt | heq
  · rw [reasoningEndTokenIndex_append hlt, List.take_append_of_le_length hlt.le,
      List.drop_eq_nil_of_le ((List.length_take_le _ _).trans hlt.le), List.append_nil]
  · have hle := @le_reasoningEndTokenIndex_append p before step heq
    rw [heq, List.take_length, List.take_append, List.take_of_length_le hle, List.drop_left]

theorem contentOf_append (before step : List ℕ) :
    p.contentOf before ++ (before ++ step).drop
        (max (1 + p.reasoningEndTokenIndex (before ++ step)) before.length) =
      p.contentOf (before ++ step) := by
  unfold contentOf
  rcases Nat.lt_or_eq_of_le (reasoningEndTokenIndex_le before) with hlt | heq
  · rw [reasoningEndTokenIndex_append hlt, Nat.max_eq_right (by omega), List.drop_left,
      List.drop_append_of_le_length (by omega)]
  · have hle := @le_reasoningEndTokenIndex_append p before step heq
    rw [heq, Nat.max_eq_left (by omega), List.drop_eq_nil_of_le (Nat.le_succ _), List.nil_append,
      Nat.add_comm]

/-! ## One step -/

/-- A start marker that is all there is. -/
def LoneStart (p : CommonReasoningParser) (l : List ℕ) : Prop :=
  l.length = 1 ∧ l.head? = p.startReasoningTokenId

/-- **One step**, unless a start marker is all there is: what it adds to the parts. -/
theorem streamProcessReasoning_spec (hne : before ++ step ≠ [])
    (hlone : ¬ p.LoneStart (before ++ step)) :
    ∃ reasoning content,
      p.streamProcessReasoning (before ++ step) before.length = some (reasoning, content) ∧
      p.reasoningOf before ++ reasoning = p.reasoningOf (before ++ step) ∧
      p.contentOf before ++ content = p.contentOf (before ++ step) := by
  rw [← reasoningOf_append, ← contentOf_append]
  generalize before ++ step = l at *
  obtain ⟨first, rest, rfl⟩ := List.exists_cons_of_ne_nil hne
  have hend := @reasoningEndTokenIndex_le p (first :: rest)
  generalize hn : p.reasoningEndTokenIndex (first :: rest) = n at *
  refine ⟨((first :: rest).take n).drop before.length,
    (first :: rest).drop (max (1 + n) before.length), ?_, rfl, rfl⟩
  have hstart : ¬ ((first :: rest).length = 1 ∧
      (if p.startReasoningTokenId = some first then 1 else 0) = 1) := by
    rintro ⟨hlen, hone⟩
    refine hlone ⟨hlen, ?_⟩
    split_ifs at hone with heq
    rw [heq, List.head?_cons]
  unfold streamProcessReasoning
  rw [List.head?_cons, Option.bind_eq_bind, Option.bind_some, if_neg hstart]
  simp only [hn]
  congr 2
  · split_ifs with hlt
    · rfl
    · rw [List.drop_eq_nil_of_le]
      rw [List.length_take]
      omega
  · split_ifs with hlt
    · rfl
    · rw [List.drop_eq_nil_of_le]
      omega

theorem streamProcessReasoning_lone (h : p.LoneStart step) :
    p.streamProcessReasoning step 0 = some ([], []) := by
  obtain ⟨hlen, hhead⟩ := h
  obtain ⟨first, rfl⟩ := List.length_eq_one_iff.mp hlen
  unfold streamProcessReasoning
  rw [List.head?_cons] at hhead
  rw [List.head?_cons, Option.bind_eq_bind, Option.bind_some, if_pos hhead.symm,
    if_pos ⟨hlen, rfl⟩]

/-! ## All steps -/

/-- The steps after tokens that are more than a start marker. -/
theorem streamSteps_spec (hsteps : ∀ step ∈ steps, step ≠ [])
    (hbefore : ∀ step ∈ steps.head?, ¬ p.LoneStart (before ++ step)) :
    ∃ reasoning content, p.streamSteps before steps = some (reasoning, content) ∧
      p.reasoningOf before ++ reasoning = p.reasoningOf (before ++ steps.flatten) ∧
      p.contentOf before ++ content = p.contentOf (before ++ steps.flatten) := by
  induction steps generalizing before with
  | nil => exact ⟨[], [], rfl, by simp, by simp⟩
  | cons step rest ih =>
    obtain ⟨hstep, hrest⟩ := List.forall_mem_cons.mp hsteps
    have hne : before ++ step ≠ [] := fun h => hstep (List.append_eq_nil_iff.mp h).2
    obtain ⟨reasoning, content, hone, hr, hc⟩ :=
      streamProcessReasoning_spec hne (hbefore step rfl)
    -- two tokens at least, from the second step on
    have hmore : ∀ next ∈ rest.head?, ¬ p.LoneStart (before ++ step ++ next) := by
      rintro next hnext ⟨hlen, -⟩
      have hnext' := List.length_pos_iff.mpr (hrest next (List.mem_of_mem_head? hnext))
      have hstep' := List.length_pos_iff.mpr hstep
      rw [List.length_append, List.length_append] at hlen
      omega
    obtain ⟨reasonings, contents, hall, hrs, hcs⟩ := ih hrest hmore
    refine ⟨reasoning ++ reasonings, content ++ contents, ?_, ?_, ?_⟩
    · rw [streamSteps, hone, Option.bind_eq_bind, Option.bind_some]
      dsimp only
      rw [hall]
      rfl
    · rw [← List.append_assoc, hr, hrs, List.flatten_cons, List.append_assoc]
    · rw [← List.append_assoc, hc, hcs, List.flatten_cons, List.append_assoc]

/-- The split of a whole answer, by its parts. -/
theorem singleProcessReasoning_eq {endId first : ℕ} {rest : List ℕ}
    (hend : p.endReasoningTokenId = some endId) :
    p.singleProcessReasoning (first :: rest) =
      ((p.reasoningOf (first :: rest)).drop (if p.startReasoningTokenId = some first then 1 else 0),
        p.contentOf (first :: rest)) := by
  unfold singleProcessReasoning reasoningOf contentOf
  rw [reasoningEndTokenIndex_some hend]
  simp only [List.head?_cons, hend]
  generalize (if p.startReasoningTokenId = some first then 1 else 0) = start
  by_cases hmem : endId ∈ first :: rest
  · rw [if_neg (not_not.mpr hmem)]
    split_ifs with hlast
    · rw [hlast, List.drop_length]
    · rfl
  · rw [if_pos hmem, List.idxOf_eq_length hmem, List.take_length,
      List.drop_eq_nil_of_le (Nat.le_succ _)]

theorem reasoningOf_cons {endId first : ℕ} (rest : List ℕ)
    (hend : p.endReasoningTokenId = some endId) (hne : endId ≠ first) :
    p.reasoningOf (first :: rest) = first :: (rest.take (rest.idxOf endId)) := by
  rw [reasoningOf, reasoningEndTokenIndex_some hend, List.idxOf_cons_ne _ hne.symm,
    List.take_succ_cons]

theorem reasoningOf_cons_self {first : ℕ} (rest : List ℕ)
    (hend : p.endReasoningTokenId = some first) : p.reasoningOf (first :: rest) = [] := by
  rw [reasoningOf, reasoningEndTokenIndex_some hend, List.idxOf_cons_self, List.take_zero]

/-- A stream that does not begin with a lone start marker. -/
theorem streamSteps_of_not_lone (hsteps : ∀ step ∈ steps, step ≠ [])
    (hfirst : ∀ step ∈ steps.head?, ¬ p.LoneStart step) :
    p.streamSteps [] steps = some (p.reasoningOf steps.flatten, p.contentOf steps.flatten) := by
  obtain ⟨reasoning, content, hall, hr, hc⟩ := @streamSteps_spec p [] steps hsteps hfirst
  have hnil : p.reasoningOf [] = [] := List.take_nil
  have hnil' : p.contentOf [] = [] := List.drop_nil
  rw [hnil, List.nil_append, List.nil_append] at hr
  rw [hnil', List.nil_append, List.nil_append] at hc
  rw [hall, hr, hc]

/-- A stream that begins with a lone start marker. -/
theorem streamSteps_of_lone {first : ℕ} {rest : List (List ℕ)}
    (hrest : ∀ step ∈ rest, step ≠ []) (hstart : p.startReasoningTokenId = some first) :
    ∃ reasoning content, p.streamSteps [] ([first] :: rest) = some (reasoning, content) ∧
      p.reasoningOf [first] ++ reasoning = p.reasoningOf (first :: rest.flatten) ∧
      p.contentOf [first] ++ content = p.contentOf (first :: rest.flatten) := by
  have hlone : p.streamProcessReasoning [first] 0 = some ([], []) :=
    streamProcessReasoning_lone ⟨rfl, hstart.symm⟩
  have hmore : ∀ next ∈ rest.head?, ¬ p.LoneStart ([first] ++ next) := by
    rintro next hnext ⟨hlen, -⟩
    have hnext' := List.length_pos_iff.mpr (hrest next (List.mem_of_mem_head? hnext))
    rw [List.length_append, List.length_singleton] at hlen
    omega
  obtain ⟨reasoning, content, hall, hr, hc⟩ := streamSteps_spec hrest hmore
  refine ⟨reasoning, content, ?_, hr, hc⟩
  show (p.streamProcessReasoning [first] 0).bind _ = _
  rw [hlone, Option.bind_some]
  dsimp only
  rw [List.nil_append, hall]
  rfl

/-- Without an end marker a stream has no content. -/
theorem contentOf_none (hend : p.endReasoningTokenId = none) (l : List ℕ) : p.contentOf l = [] := by
  rw [contentOf, reasoningEndTokenIndex_none hend, List.drop_eq_nil_of_le (Nat.le_succ _)]

/-- **The stream and the whole answer.** For all tokens and all ways to cut them in steps that are
not empty, the steps add up to the split of the whole answer if and only if there is an end marker
and a start marker in front comes alone. -/
theorem streamSteps_eq_single_iff (hne : steps ≠ []) (hsteps : ∀ step ∈ steps, step ≠ []) :
    p.streamSteps [] steps = some (p.singleProcessReasoning steps.flatten) ↔
      p.StartsAlone steps := by
  obtain ⟨step, rest, rfl⟩ := List.exists_cons_of_ne_nil hne
  obtain ⟨hstep, hrest⟩ := List.forall_mem_cons.mp hsteps
  obtain ⟨first, more, rfl⟩ := List.exists_cons_of_ne_nil hstep
  have hflatten : ((first :: more) :: rest).flatten = first :: (more ++ rest.flatten) := rfl
  by_cases hlone : p.LoneStart (first :: more)
  · obtain ⟨hlen, hhead⟩ := hlone
    obtain rfl : more = [] := List.eq_nil_of_length_eq_zero (Nat.succ.inj hlen)
    obtain ⟨reasoning, content, hall, hr, hc⟩ := streamSteps_of_lone hrest hhead.symm
    rw [hall, hflatten, List.nil_append]
    cases hend : p.endReasoningTokenId with
    | none =>
      rw [contentOf_none hend, contentOf_none hend, List.nil_append] at hc
      refine iff_of_false (fun heq => ?_) fun h => h.1 hend
      rw [hc] at heq
      have hsingle : p.singleProcessReasoning (first :: rest.flatten) =
          ([], first :: rest.flatten) := by
        simp only [singleProcessReasoning, List.head?_cons, hend]
      rw [hsingle] at heq
      exact absurd (congrArg Prod.snd (Option.some.inj heq)) (List.cons_ne_nil _ _).symm
    | some endId =>
      have hcontent : p.contentOf [first] = [] := List.drop_eq_nil_of_le (by simp)
      rw [hcontent, List.nil_append] at hc
      refine iff_of_true ?_ ⟨by rw [hend]; exact Option.some_ne_none _, ?_⟩
      · have hstart : p.startReasoningTokenId = some first := hhead.symm
        rw [singleProcessReasoning_eq hend, if_pos hstart, ← hc]
        by_cases heq : endId = first
        · subst heq
          rw [reasoningOf_cons_self _ hend, reasoningOf_cons_self _ hend, List.nil_append] at hr
          rw [hr, reasoningOf_cons_self _ hend, List.drop_nil]
        · rw [reasoningOf_cons _ hend heq, reasoningOf_cons _ hend heq, List.take_nil,
            List.singleton_append] at hr
          rw [(List.cons.inj hr).2, reasoningOf_cons _ hend heq, List.drop_one, List.tail_cons]
      · rintro step hstep - -
        obtain rfl := Option.some.inj hstep
        rfl
  · have hall := @streamSteps_of_not_lone p _ hsteps fun step hstep => by
      obtain rfl := Option.some.inj hstep
      exact hlone
    rw [hall, hflatten]
    cases hend : p.endReasoningTokenId with
    | none =>
      refine iff_of_false (fun heq => ?_) fun h => h.1 hend
      have hsingle : p.singleProcessReasoning (first :: (more ++ rest.flatten)) =
          ([], first :: (more ++ rest.flatten)) := by
        simp only [singleProcessReasoning, List.head?_cons, hend]
      rw [contentOf_none hend, hsingle] at heq
      exact absurd (congrArg Prod.snd (Option.some.inj heq)) (List.cons_ne_nil _ _).symm
    | some endId =>
      have hsome : p.endReasoningTokenId ≠ none := by
        rw [hend]
        exact Option.some_ne_none _
      rw [singleProcessReasoning_eq hend]
      by_cases hstart : p.startReasoningTokenId = some first
      · rw [if_pos hstart]
        by_cases heq : endId = first
        · subst heq
          rw [reasoningOf_cons_self _ hend, List.drop_nil]
          refine iff_of_true rfl ⟨hsome, ?_⟩
          rintro step - - hdiff
          exact absurd (hstart.trans hend.symm) hdiff
        · -- the start marker is passed on with the other tokens of the step
          rw [reasoningOf_cons _ hend heq]
          refine iff_of_false (fun hsame => ?_) fun h => hlone ⟨h.2 _ rfl hstart.symm ?_, ?_⟩
          · have hlength := congrArg (fun x => x.1.length) (Option.some.inj hsame)
            simp only [List.length_drop, List.length_cons] at hlength
            omega
          · rw [hstart, hend]
            exact fun h => heq (Option.some.inj h).symm
          · exact hstart.symm
      · rw [if_neg hstart, List.drop_zero]
        refine iff_of_true rfl ⟨hsome, ?_⟩
        rintro step hstep hhead -
        obtain rfl := Option.some.inj hstep
        exact absurd hhead.symm hstart

/-! ## Two streams -/

/-- The start marker is 1, the end marker 2. -/
def thinkParser : CommonReasoningParser := ⟨some 1, some 2⟩

theorem streamSteps_startAlone : thinkParser.streamSteps [] [[1], [7, 2], [8]] =
    some (thinkParser.singleProcessReasoning [[1], [7, 2], [8]].flatten) :=
  (streamSteps_eq_single_iff (by decide) (by decide)).mpr (by decide)

/-- The first step has a token behind the start marker, and both are passed on as reasoning. -/
theorem not_streamSteps_startWithMore :
    ¬ ∀ (p : CommonReasoningParser) (steps : List (List ℕ)), steps ≠ [] →
      (∀ step ∈ steps, step ≠ []) →
      p.streamSteps [] steps = some (p.singleProcessReasoning steps.flatten) := by
  intro h
  exact absurd (h thinkParser [[1, 7], [2, 8]] (by decide) (by decide)) (by decide)

end CommonReasoningParser

end MindieLLM
