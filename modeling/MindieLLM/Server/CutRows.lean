import MindieLLM.Server.StreamCache

/-!
# The rounds of a sequence under a cut

The cut of a sequence takes a number of units off the end of its text. What is left of a kept round
depends on how much text comes after it: the round is untouched if that is enough, it loses the end
of its text, or it loses all of it and can no longer be output. This does not change when rounds at
the front have gone out and the cut is made again.

The rounds are listed from the latest one back, as the loops go through them.

## Main definitions

* `texts`, `visible`: the text of some rounds, and what is to be output of it
* `CutRow`, `CutFrom`: what a cut leaves
* `AllReady`: no round waits for more text
* `Waiting`: each round that is ready has enough text behind it
* `Streamed`: a sequence while it is streamed

## Main results

* `CutFrom.visible_eq`: what is to be output is the text up to the cut
* `truncationRows_spec`: the loop of the cut leaves this
* `markRows_ready`: the window marks all rounds of a sequence that has ended
* `Waiting.markRows`: of one that goes on it only marks rounds with enough text behind them
* `Streamed.push`, `Streamed.cut`, `Streamed.recut`, `Streamed.mark`, `Streamed.pop`: what is done
  to the rounds of a sequence keeps to its text up to the cut
-/

namespace MindieLLM.StreamCache

open Program

variable {Rest : Type} {k later windowSize : ℕ} {rows older : View Rest}
  {row latest : CacheRow Rest}

/-! ## Texts -/

def rowText : Option (CacheRow Rest) → List Char
  | none => []
  | some row => row.u16TokenText

def rowVisible : Option (CacheRow Rest) → List Char
  | none => []
  | some row => if row.canOutput.isSome then row.postSingleText else []

/-- The text of the rounds. -/
def texts : View Rest → List Char
  | [] => []
  | row :: older => texts older ++ rowText row

/-- What is to be output of the rounds. -/
def visible : View Rest → List Char
  | [] => []
  | row :: older => visible older ++ rowVisible row

theorem texts_append (rows older : View Rest) :
    texts (rows ++ older) = texts older ++ texts rows := by
  induction rows with
  | nil => exact (List.append_nil _).symm
  | cons row rows ih => rw [List.cons_append, texts, ih, texts, List.append_assoc]

theorem visible_append (rows older : View Rest) :
    visible (rows ++ older) = visible older ++ visible rows := by
  induction rows with
  | nil => exact (List.append_nil _).symm
  | cons row rows ih => rw [List.cons_append, visible, ih, visible, List.append_assoc]

/-- Which rounds there are, with the texts that they have come with. -/
def tokenTexts (rows : View Rest) : List (Option (List Char)) :=
  rows.map (Option.map CacheRow.u16TokenText)

theorem tokenTexts_append (rows older : View Rest) :
    tokenTexts (rows ++ older) = tokenTexts rows ++ tokenTexts older :=
  List.map_append

theorem texts_congr {rows' : View Rest} (h : tokenTexts rows = tokenTexts rows') :
    texts rows = texts rows' := by
  induction rows generalizing rows' with
  | nil =>
    obtain rfl := List.map_eq_nil_iff.mp h.symm
    rfl
  | cons row rows ih =>
    obtain ⟨row', rest, rfl, hrow, hrest⟩ := List.map_eq_cons_iff.mp h.symm
    have htext : rowText row' = rowText row := by
      cases row <;> cases row' <;> simp_all [rowText]
    rw [texts, texts, ih hrest.symm, htext]

/-! ## What a cut leaves -/

/-- The row is as it was kept. -/
def CacheRow.Intact (row : CacheRow Rest) : Prop :=
  row.canOutput.isSome ∧ row.postSingleText = row.u16TokenText

/-- A row when `k` units are taken off the end of the text, `later` of which come after the row. -/
structure CutRow (k later : ℕ) (row : CacheRow Rest) : Prop where
  intact : k ≤ later → row.Intact
  cut : later < k → k ≤ later + utf16Len row.u16TokenText →
    row.canOutput.isSome ∧ row.eos ≠ .iterationContinue ∧
      cutUnits (later + utf16Len row.u16TokenText - k) row.u16TokenText = some row.postSingleText
  erased : later + utf16Len row.u16TokenText < k → row.canOutput = none

def CutFrom (k : ℕ) : ℕ → View Rest → Prop
  | _, [] => True
  | later, none :: older => CutFrom k later older
  | later, some row :: older =>
    CutRow k later row ∧ CutFrom k (later + utf16Len row.u16TokenText) older

/-- The rows that a cut is to leave alone are as they were kept. -/
def IntactFrom (k : ℕ) : ℕ → View Rest → Prop
  | _, [] => True
  | later, none :: older => IntactFrom k later older
  | later, some row :: older =>
    (k ≤ later → row.Intact) ∧ IntactFrom k (later + utf16Len row.u16TokenText) older

theorem CutFrom.intactFrom (h : CutFrom k later rows) : IntactFrom k later rows := by
  induction rows generalizing later with
  | nil => trivial
  | cons row rows ih =>
    cases row with
    | none => exact ih h
    | some row => exact ⟨h.1.intact, ih h.2⟩

/-- Without a cut all rows are as they were kept. -/
theorem CutFrom.intactFrom_of_zero (h : CutFrom 0 later rows) (k later' : ℕ) :
    IntactFrom k later' rows := by
  induction rows generalizing later later' with
  | nil => trivial
  | cons row rows ih =>
    cases row with
    | none => exact ih h later'
    | some row => exact ⟨fun _ => h.1.intact (Nat.zero_le later), ih h.2 _⟩

theorem cutFrom_append (older : View Rest) :
    CutFrom k later (rows ++ older) ↔
      CutFrom k later rows ∧ CutFrom k (later + utf16Len (texts rows)) older := by
  induction rows generalizing later with
  | nil => simp [CutFrom, texts]
  | cons row rows ih =>
    cases row with
    | none => simpa [CutFrom, texts, rowText] using ih
    | some row =>
      have hlength : later + utf16Len (texts (some row :: rows)) =
          later + utf16Len row.u16TokenText + utf16Len (texts rows) := by
        rw [texts, utf16Len_append, rowText]
        omega
      rw [hlength, List.cons_append, CutFrom, ih, CutFrom, and_assoc]

/-- A cut that goes back before the rows erases them all. -/
theorem cutFrom_of_lt (hlt : later + utf16Len (texts rows) < k)
    (h : ∀ row, some row ∈ rows → row.canOutput = none) : CutFrom k later rows := by
  induction rows generalizing later with
  | nil => trivial
  | cons row rows ih =>
    rw [texts, utf16Len_append] at hlt
    cases row with
    | none =>
      rw [rowText, utf16Len_nil] at hlt
      exact ih hlt fun row hrow => h row (List.mem_cons_of_mem _ hrow)
    | some row =>
      rw [rowText] at hlt
      refine ⟨⟨?_, ?_, fun _ => h row List.mem_cons_self⟩,
        ih (by omega) fun row hrow => h row (List.mem_cons_of_mem _ hrow)⟩
      · intro hle
        omega
      · intro _ hle
        omega

/-- Rows that the cut leaves alone. -/
theorem CutFrom.visible_of_le (h : CutFrom k later rows) (hle : k ≤ later) :
    visible rows = texts rows := by
  induction rows generalizing later with
  | nil => rfl
  | cons row rows ih =>
    cases row with
    | none =>
      rw [visible, texts, ih h hle]
      rfl
    | some row =>
      obtain ⟨hsome, htext⟩ := h.1.intact hle
      rw [visible, texts, ih h.2 (by omega), rowVisible, rowText, if_pos hsome, htext]

/-- **What is to be output is the text up to the cut.** -/
theorem CutFrom.visible_eq (h : CutFrom k later rows) :
    if k - later ≤ utf16Len (texts rows) then
      cutUnits (utf16Len (texts rows) - (k - later)) (texts rows) = some (visible rows)
    else visible rows = [] := by
  induction rows generalizing later with
  | nil => split <;> rfl
  | cons row rows ih =>
    cases row with
    | none =>
      rw [texts, visible, rowText, rowVisible, List.append_nil, List.append_nil]
      exact ih h
    | some row =>
      by_cases hintact : k ≤ later
      · -- no cut
        rw [if_pos (by omega), h.visible_of_le hintact, Nat.sub_eq_zero_of_le hintact, Nat.sub_zero,
          cutUnits_self]
      · obtain ⟨hrow, hrows⟩ := h
        rw [texts, visible, rowText, rowVisible, utf16Len_append]
        by_cases hcut : k ≤ later + utf16Len row.u16TokenText
        · -- the cut is in this row
          obtain ⟨hsome, -, htext⟩ := hrow.cut (by omega) hcut
          have hindex : utf16Len (texts rows) + utf16Len row.u16TokenText - (k - later) =
              utf16Len (texts rows) + (later + utf16Len row.u16TokenText - k) := by omega
          rw [if_pos (by omega), if_pos hsome, hindex, cutUnits_append, htext, Option.map_some,
            hrows.visible_of_le hcut]
        · -- the cut is before this row
          have hrest := ih hrows
          have hnone := hrow.erased (by omega)
          have hsub : k - (later + utf16Len row.u16TokenText) =
              k - later - utf16Len row.u16TokenText := by omega
          rw [hsub] at hrest
          rw [hnone, Option.isSome_none, if_neg Bool.false_ne_true, List.append_nil]
          by_cases hle : k - later - utf16Len row.u16TokenText ≤ utf16Len (texts rows)
          · rw [if_pos hle] at hrest
            have hindex : utf16Len (texts rows) + utf16Len row.u16TokenText - (k - later) =
                utf16Len (texts rows) - (k - later - utf16Len row.u16TokenText) := by omega
            rw [if_pos (by omega), hindex, cutUnits_append_of_le (by omega), hrest]
          · rw [if_neg hle] at hrest
            rw [if_neg (by omega), hrest]

/-! ## The loop of the cut -/

/-- The rows after the cut get what the row of the cut has, but not its text nor its output. -/
theorem cutFrom_copy (visited : View Rest) (hlt : utf16Len (texts visited) < k)
    (source : CacheRow Rest) :
    CutFrom k 0 (visited.map (Option.map source.copy)) ∧
      tokenTexts (visited.map (Option.map source.copy)) = tokenTexts visited := by
  have htext : tokenTexts (visited.map (Option.map source.copy)) = tokenTexts visited := by
    rw [tokenTexts, List.map_map]
    refine List.map_congr_left fun row _ => ?_
    cases row <;> rfl
  refine ⟨cutFrom_of_lt (by rw [texts_congr htext]; omega) ?_, htext⟩
  intro row hrow
  obtain ⟨row', -, heq⟩ := List.mem_map.mp hrow
  obtain ⟨row', rfl, rfl⟩ := Option.map_eq_some_iff.mp heq
  rfl

theorem IntactFrom.cutFrom (h : IntactFrom k later rows) (hle : k ≤ later) :
    CutFrom k later rows := by
  induction rows generalizing later with
  | nil => trivial
  | cons row rows ih =>
    cases row with
    | none => exact ih h hle
    | some row =>
      refine ⟨⟨h.1, ?_, ?_⟩, ih h.2 (by omega)⟩
      · intro hlt
        omega
      · intro hlt
        omega

/-- The loop at the row of the cut: this ends the cut. -/
theorem truncationRows_cut (hended : latest.eos ≠ .iterationContinue) {visited : View Rest}
    (hlt : utf16Len (texts visited.reverse) < k)
    (hle : k ≤ utf16Len (texts visited.reverse) + utf16Len row.u16TokenText)
    (holder : IntactFrom k (utf16Len (texts visited.reverse) + utf16Len row.u16TokenText) older)
    (hcut : (cutUnits (utf16Len (texts (visited.reverse ++ some row :: older)) - k)
      (texts (visited.reverse ++ some row :: older))).isSome) :
    ∃ result, truncationRows (-k) latest (utf16Len (texts visited.reverse) - k) visited
        (some row :: older) = some result ∧
      CutFrom k 0 result.reverse ∧
      tokenTexts result.reverse = tokenTexts (visited.reverse ++ some row :: older) := by
  have hlen : utf16Len (texts (visited.reverse ++ some row :: older)) - k =
      utf16Len (texts older) +
        (utf16Len (texts visited.reverse) + utf16Len row.u16TokenText - k) := by
    rw [texts_append, texts, rowText, utf16Len_append, utf16Len_append]
    omega
  have htoNat : (utf16Len row.u16TokenText + ((utf16Len (texts visited.reverse) : ℤ) - k)).toNat =
      utf16Len (texts visited.reverse) + utf16Len row.u16TokenText - k := by omega
  rw [hlen, texts_append, texts, rowText, List.append_assoc, cutUnits_append,
    cutUnits_append_of_le (by omega), Option.isSome_map] at hcut
  obtain ⟨text, htext⟩ := Option.isSome_iff_exists.mp hcut
  obtain ⟨hcopy, hcopyText⟩ :=
    cutFrom_copy visited.reverse hlt (row.cut latest text)
  rw [truncationRows, if_neg (by omega), if_neg (by omega), htoNat, htext]
  simp only [Option.bind_eq_bind, Option.bind_some]
  refine ⟨_, truncationRows_of_nonneg (.inr (by omega)) latest _ older, ?_, ?_⟩
  · rw [List.reverse_append, List.reverse_reverse, List.reverse_cons, List.append_assoc,
      ← List.map_reverse, cutFrom_append, Nat.zero_add, texts_congr hcopyText]
    refine ⟨hcopy, ⟨?_, ?_, ?_⟩, holder.cutFrom hle⟩
    · intro hge
      exact absurd hlt (Nat.not_lt.mpr hge)
    · intro _ _
      exact ⟨rfl, hended, htext⟩
    · intro hgt
      exact absurd hle (Nat.not_le.mpr hgt)
  · rw [List.reverse_append, List.reverse_reverse, List.reverse_cons, List.append_assoc,
      ← List.map_reverse, tokenTexts_append, hcopyText, tokenTexts_append,
      tokenTexts_append]
    rfl

/-- **The loop of the cut.** It has gone through `visited`, which holds the rows in order. -/
theorem truncationRows_spec (hk : 0 < k) (hended : latest.eos ≠ .iterationContinue)
    (visited : View Rest) (hvisited : CutFrom k 0 visited.reverse)
    (holder : IntactFrom k (utf16Len (texts visited.reverse)) older)
    (hcut : k ≤ utf16Len (texts (visited.reverse ++ older)) →
      (cutUnits (utf16Len (texts (visited.reverse ++ older)) - k)
        (texts (visited.reverse ++ older))).isSome) :
    ∃ result, truncationRows (-k) latest (utf16Len (texts visited.reverse) - k) visited older =
        some result ∧
      CutFrom k 0 result.reverse ∧
      tokenTexts result.reverse = tokenTexts (visited.reverse ++ older) := by
  induction older generalizing visited with
  | nil => exact ⟨visited, rfl, hvisited, by rw [List.append_nil]⟩
  | cons row older ih =>
    have hsplit : ∀ row : Option (CacheRow Rest),
        (row :: visited).reverse ++ older = visited.reverse ++ row :: older := by
      intro row
      rw [List.reverse_cons, List.append_assoc, List.singleton_append]
    cases row with
    | none =>
      rw [truncationRows]
      have htext : texts (none :: visited).reverse = texts visited.reverse := by
        rw [List.reverse_cons, texts_append]
        rfl
      have h := ih (none :: visited)
        (by rw [List.reverse_cons, cutFrom_append]; exact ⟨hvisited, trivial⟩)
        (by rw [htext]; exact holder) (by rw [hsplit]; exact hcut)
      rwa [htext, hsplit] at h
    | some row =>
      by_cases hdone : k ≤ utf16Len (texts visited.reverse)
      · -- the rows from here back are left alone
        refine ⟨_, truncationRows_of_nonneg (.inr (by omega)) latest visited _, ?_, ?_⟩
        · rw [List.reverse_append, List.reverse_reverse, cutFrom_append, Nat.zero_add]
          exact ⟨hvisited, holder.cutFrom hdone⟩
        · rw [List.reverse_append, List.reverse_reverse]
      by_cases herase : utf16Len (texts visited.reverse) + utf16Len row.u16TokenText < k
      · -- the cut is before this row
        have hlength : utf16Len (texts (some row.erase :: visited).reverse) =
            utf16Len (texts visited.reverse) + utf16Len row.u16TokenText := by
          rw [List.reverse_cons, texts_append, utf16Len_append, Nat.add_comm]
          rfl
        have htexts : texts ((some row.erase :: visited).reverse ++ older) =
            texts (visited.reverse ++ some row :: older) := by
          rw [hsplit, texts_append, texts_append]
          rfl
        have herased : CutFrom k (0 + utf16Len (texts visited.reverse)) [some row.erase] := by
          refine cutFrom_of_lt ?_ ?_
          · rw [texts, texts, List.nil_append, rowText]
            show 0 + _ + utf16Len row.u16TokenText < k
            omega
          · intro row' hrow'
            obtain rfl := Option.some.inj (List.mem_singleton.mp hrow')
            rfl
        have h := ih (some row.erase :: visited)
          (by rw [List.reverse_cons, cutFrom_append]; exact ⟨hvisited, herased⟩)
          (by rw [hlength]; exact holder.2) (by rw [htexts]; exact hcut)
        have hrest : ((utf16Len (texts visited.reverse) + utf16Len row.u16TokenText : ℕ) : ℤ) - k =
            utf16Len (texts visited.reverse) - k + utf16Len row.u16TokenText := by omega
        rw [hlength, hsplit, hrest] at h
        obtain ⟨result, hrun, hcutFrom, htext⟩ := h
        refine ⟨result, ?_, hcutFrom, ?_⟩
        · rw [truncationRows, if_neg (by omega), if_pos (by omega), hrun]
        · rw [htext, tokenTexts_append, tokenTexts_append]
          rfl
      · exact truncationRows_cut hended (Nat.not_le.mp hdone) (Nat.not_lt.mp herase) holder.2
          (hcut (by
            rw [texts_append, texts, rowText, utf16Len_append, utf16Len_append]
            omega))

theorem truncateRows_spec (hk : 0 < k) (hended : latest.eos ≠ .iterationContinue)
    (hrows : IntactFrom k 0 rows)
    (hcut : k ≤ utf16Len (texts rows) →
      (cutUnits (utf16Len (texts rows) - k) (texts rows)).isSome) :
    ∃ result, truncateRows (-k) latest rows.reverse = some result.reverse ∧ CutFrom k 0 result ∧
      tokenTexts result = tokenTexts rows := by
  obtain ⟨result, hrun, hcutFrom, htexts⟩ :=
    truncationRows_spec hk hended [] trivial hrows hcut
  have hzero : ((utf16Len (texts ([] : View Rest).reverse) : ℕ) : ℤ) - k = -k := by
    show (0 : ℤ) - k = -k
    omega
  rw [hzero] at hrun
  refine ⟨result.reverse, ?_, hcutFrom, htexts⟩
  rw [truncateRows, List.reverse_reverse, List.reverse_reverse, hrun]

/-! ## The marks of the window -/

/-- A mark changes nothing else. -/
theorem markRow_snd (windowSize : ℕ) (mark : Mark) (row : CacheRow Rest) :
    ∃ canOutput, (markRow windowSize mark row).2 = { row with canOutput := canOutput } ∧
      canOutput.isSome = row.canOutput.isSome := by
  rcases row with
    ⟨seqId, eos, postSingleText, u16TokenText, fullText, finishReason, rest, canOutput⟩
  rw [markRow]
  cases canOutput with
  | none => exact ⟨none, rfl, rfl⟩
  | some canOut =>
    dsimp only
    split_ifs
    · exact ⟨some true, rfl, rfl⟩
    · exact ⟨some true, rfl, rfl⟩
    · exact ⟨some canOut, rfl, rfl⟩

theorem CutRow.mark (h : CutRow k later row) {canOutput : Option Bool}
    (hsome : canOutput.isSome = row.canOutput.isSome) :
    CutRow k later { row with canOutput := canOutput } where
  intact hle := ⟨hsome.trans (h.intact hle).1, (h.intact hle).2⟩
  cut hlt hle := ⟨hsome.trans (h.cut hlt hle).1, (h.cut hlt hle).2⟩
  erased hlt := by
    have hnone := h.erased hlt
    rw [hnone] at hsome
    exact Option.isNone_iff_eq_none.mp (Option.isSome_eq_false_iff.mp hsome)

theorem tokenTexts_markRows (windowSize : ℕ) (mark : Mark) (rows : View Rest) :
    tokenTexts (markRows windowSize mark rows) = tokenTexts rows := by
  induction rows generalizing mark with
  | nil => rfl
  | cons row rows ih =>
    cases row with
    | none => exact congrArg (none :: ·) (ih mark)
    | some row =>
      obtain ⟨canOutput, hrow, -⟩ := markRow_snd windowSize mark row
      rw [markRows, hrow]
      exact congrArg (some row.u16TokenText :: ·) (ih _)

theorem visible_markRows (windowSize : ℕ) (mark : Mark) (rows : View Rest) :
    visible (markRows windowSize mark rows) = visible rows := by
  induction rows generalizing mark with
  | nil => rfl
  | cons row rows ih =>
    cases row with
    | none => rw [markRows, visible, visible, ih]
    | some row =>
      obtain ⟨canOutput, hrow, hsome⟩ := markRow_snd windowSize mark row
      rw [markRows, visible, visible, ih, hrow, rowVisible, rowVisible, hsome]

theorem CutFrom.markRows (h : CutFrom k later rows) (windowSize : ℕ) (mark : Mark) :
    CutFrom k later (markRows windowSize mark rows) := by
  induction rows generalizing later mark with
  | nil => trivial
  | cons row rows ih =>
    cases row with
    | none => exact ih h mark
    | some row =>
      obtain ⟨canOutput, hrow, hsome⟩ := markRow_snd windowSize mark row
      rw [StreamCache.markRows, hrow]
      exact ⟨h.1.mark hsome, ih h.2 _⟩

/-- The latest round to be output has the end of the sequence. -/
def EndedFirst : View Rest → Prop
  | [] => True
  | none :: older => EndedFirst older
  | some row :: older =>
    if row.canOutput.isSome then row.eos ≠ .iterationContinue else EndedFirst older

/-- The end of a sequence is moved to the round of its cut. -/
theorem CutFrom.endedFirst (h : CutFrom k later rows) (hlt : later < k) : EndedFirst rows := by
  induction rows generalizing later with
  | nil => trivial
  | cons row rows ih =>
    cases row with
    | none => exact ih h hlt
    | some row =>
      rw [EndedFirst]
      by_cases hcut : k ≤ later + utf16Len row.u16TokenText
      · obtain ⟨hsome, hended, -⟩ := h.1.cut hlt hcut
        rwa [if_pos hsome]
      · rw [h.1.erased (by omega), Option.isSome_none, if_neg Bool.false_ne_true]
        exact ih h.2 (by omega)

/-- No round that is to be output waits for more text. -/
def AllReady (rows : View Rest) : Prop := ∀ row, some row ∈ rows → row.canOutput ≠ some false

theorem markRows_ready_of_ignore {mark : Mark} (hmark : mark.ignoreAndMarkTrue = true) :
    AllReady (markRows windowSize mark rows) := by
  induction rows with
  | nil => exact fun _ hrow => absurd hrow List.not_mem_nil
  | cons first rows ih =>
    intro row hrow
    cases first with
    | none => exact ih row ((List.mem_cons.mp hrow).resolve_left (by simp))
    | some first =>
      have hfirst : (markRow windowSize mark first).1 = mark ∧
          (markRow windowSize mark first).2.canOutput ≠ some false := by
        rw [markRow]
        cases hcan : first.canOutput with
        | none => simp [hcan]
        | some canOut => simp [hmark]
      rw [markRows, hfirst.1] at hrow
      rcases List.mem_cons.mp hrow with heq | hrow
      · rw [Option.some.inj heq]
        exact hfirst.2
      · exact ih row hrow

/-- **All rounds of a sequence that has ended are ready.** -/
theorem markRows_ready (h : EndedFirst rows) {mark : Mark}
    (hmark : mark.ignoreAndMarkTrue = false) : AllReady (markRows windowSize mark rows) := by
  induction rows with
  | nil => exact fun _ hrow => absurd hrow List.not_mem_nil
  | cons first rows ih =>
    cases first with
    | none =>
      intro row hrow
      exact ih h row ((List.mem_cons.mp hrow).resolve_left (by simp))
    | some first =>
      rw [EndedFirst] at h
      rw [markRows, markRow]
      cases hcan : first.canOutput with
      | none =>
        rw [hcan, Option.isSome_none, if_neg Bool.false_ne_true] at h
        intro row hrow
        rcases List.mem_cons.mp hrow with heq | hrow
        · rw [Option.some.inj heq, hcan]
          exact (Option.some_ne_none false).symm
        · exact ih h row hrow
      | some canOut =>
        rw [hcan, Option.isSome_some, if_pos rfl] at h
        dsimp only
        rw [hmark, if_neg Bool.false_ne_true, if_pos h]
        intro row hrow
        rcases List.mem_cons.mp hrow with heq | hrow
        · rw [Option.some.inj heq]
          simp
        · exact markRows_ready_of_ignore rfl row hrow

/-- A sequence that goes on, with `later` units of text behind the rows: those that are ready have
as much text behind them as the window. -/
def Waiting (windowSize : ℕ) : ℕ → View Rest → Prop
  | _, [] => True
  | later, none :: older => Waiting windowSize later older
  | later, some row :: older =>
    (row.eos = .iterationContinue ∧ row.canOutput.isSome ∧
      (row.canOutput = some true → windowSize ≤ later)) ∧
      Waiting windowSize (later + utf16Len row.u16TokenText) older

namespace Waiting

theorem mono (h : Waiting windowSize later rows) {later' : ℕ} (hle : later ≤ later') :
    Waiting windowSize later' rows := by
  induction rows generalizing later later' with
  | nil => trivial
  | cons row rows ih =>
    cases row with
    | none => exact ih h hle
    | some row =>
      obtain ⟨⟨heos, hsome, hready⟩, hrows⟩ := h
      exact ⟨⟨heos, hsome, fun htrue => Nat.le_trans (hready htrue) hle⟩,
        ih hrows (Nat.add_le_add_right hle _)⟩

/-- The text that has come after a row is that of the rows before it. -/
theorem of_append {newer : View Rest} (h : Waiting windowSize later (newer ++ rows)) :
    Waiting windowSize later newer ∧
      Waiting windowSize (later + utf16Len (texts newer)) rows := by
  induction newer generalizing later with
  | nil => exact ⟨trivial, h⟩
  | cons row newer ih =>
    rw [texts, utf16Len_append]
    cases row with
    | none =>
      rw [rowText, utf16Len_nil, Nat.add_zero]
      exact ih h
    | some row =>
      obtain ⟨hnewer, hrows⟩ := ih h.2
      rw [rowText, Nat.add_comm (utf16Len _), ← Nat.add_assoc]
      exact ⟨⟨h.1, hnewer⟩, hrows⟩

/-- The window marks a row when that much text has come after it. -/
theorem markRows (h : Waiting windowSize later rows) {mark : Mark}
    (hmark : mark.ignoreAndMarkTrue = true → windowSize ≤ later)
    (hleft : mark.windowSize.getD windowSize + later = windowSize ∨ windowSize ≤ later) :
    Waiting windowSize later (markRows windowSize mark rows) := by
  induction rows generalizing later mark with
  | nil => trivial
  | cons row rows ih =>
    cases row with
    | none => exact ih h hmark hleft
    | some row =>
      obtain ⟨⟨heos, hsome, hready⟩, hrows⟩ := h
      obtain ⟨canOut, hcan⟩ := Option.isSome_iff_exists.mp hsome
      rw [StreamCache.markRows, markRow, hcan]
      dsimp only
      by_cases hignore : mark.ignoreAndMarkTrue = true
      · have hle := hmark hignore
        rw [if_pos hignore]
        exact ⟨⟨heos, rfl, fun _ => hle⟩, ih hrows (fun _ => by omega) (.inr (by omega))⟩
      · rw [if_neg hignore, if_neg (not_not.mpr heos)]
        refine ⟨⟨heos, hsome, hready⟩, ih hrows (fun hzero => ?_) ?_⟩
        · have hleft' := of_decide_eq_true hzero
          omega
        · rw [Option.getD_some]
          omega

end Waiting

/-! ## A sequence while it is streamed -/

/-- A sequence with the text `whole` so far, cut by `k` units: the text that has gone out goes on
with what is to be output of the rounds that are kept. -/
structure Streamed (k : ℕ) (whole gone : List Char) (rows : View Rest) : Prop where
  cutFrom : CutFrom k 0 rows
  short : k ≤ utf16Len whole
  text : cutUnits (utf16Len whole - k) whole = some (gone ++ visible rows)

namespace Streamed

variable {whole gone : List Char}

theorem nil : Streamed 0 [] [] ([] : View Rest) where
  cutFrom := trivial
  short := Nat.le_refl _
  text := rfl

/-- A sequence that has not been cut. -/
theorem eq_append (h : Streamed 0 whole gone rows) : whole = gone ++ texts rows := by
  have htext := h.text
  rwa [Nat.sub_zero, cutUnits_self, h.cutFrom.visible_of_le (Nat.le_refl _),
    Option.some_inj] at htext

theorem push (h : Streamed 0 whole gone rows) (hrow : row.Intact) :
    Streamed 0 (whole ++ row.u16TokenText) gone (some row :: rows) := by
  have hrows : CutFrom 0 (0 + utf16Len row.u16TokenText) rows :=
    (h.cutFrom.intactFrom_of_zero 0 _).cutFrom (Nat.zero_le _)
  have hfirst : CutRow 0 0 row := by
    refine ⟨fun _ => hrow, ?_, ?_⟩
    · intro hlt
      exact absurd hlt (Nat.lt_irrefl 0)
    · intro hlt
      exact absurd hlt (Nat.not_lt_zero _)
  refine ⟨⟨hfirst, hrows⟩, Nat.zero_le _, ?_⟩
  rw [Nat.sub_zero, cutUnits_self, h.eq_append, visible, hrows.visible_of_le (Nat.zero_le _),
    rowVisible, if_pos hrow.1, hrow.2, List.append_assoc]

/-- **The end of a sequence cuts its text**, if that much has been kept. -/
theorem cut (h : Streamed 0 whole gone rows) (hk : 0 < k)
    (hended : latest.eos ≠ .iterationContinue) (hkept : k ≤ utf16Len (texts rows))
    (hcut : (cutUnits (utf16Len (texts rows) - k) (texts rows)).isSome) :
    ∃ result, truncateRows (-k) latest rows.reverse = some result.reverse ∧
      Streamed k whole gone result ∧ tokenTexts result = tokenTexts rows := by
  obtain ⟨result, hrun, hcutFrom, htexts⟩ :=
    truncateRows_spec hk hended (h.cutFrom.intactFrom_of_zero k 0) fun _ => hcut
  have hvisible := hcutFrom.visible_eq
  rw [texts_congr htexts, Nat.sub_zero, if_pos hkept] at hvisible
  have hlength : utf16Len whole = utf16Len gone + utf16Len (texts rows) := by
    rw [h.eq_append, utf16Len_append]
  have hindex : utf16Len whole - k = utf16Len gone + (utf16Len (texts rows) - k) := by omega
  refine ⟨result, hrun, ⟨hcutFrom, by omega, ?_⟩, htexts⟩
  rw [hindex, h.eq_append, cutUnits_append, hvisible, Option.map_some]

/-- A later round of the request repeats the cut. -/
theorem recut (h : Streamed k whole gone rows) (hk : 0 < k)
    (hended : latest.eos ≠ .iterationContinue) (hrow : row.Intact)
    (hempty : row.u16TokenText = []) :
    ∃ result, truncateRows (-k) latest (some row :: rows).reverse = some result.reverse ∧
      Streamed k whole gone result ∧ tokenTexts result = tokenTexts (some row :: rows) := by
  have hlater : 0 + utf16Len row.u16TokenText = 0 := by rw [hempty, utf16Len_nil]
  have htext : texts (some row :: rows) = texts rows := by
    rw [texts, rowText, hempty, List.append_nil]
  have hvisible := h.cutFrom.visible_eq
  rw [Nat.sub_zero] at hvisible
  have hintact : IntactFrom k 0 (some row :: rows) := by
    rw [IntactFrom, hlater]
    exact ⟨fun _ => hrow, h.cutFrom.intactFrom⟩
  obtain ⟨result, hrun, hcutFrom, htexts⟩ := truncateRows_spec hk hended hintact (by
    intro hle
    rw [htext] at hle ⊢
    rw [if_pos hle] at hvisible
    rw [hvisible, Option.isSome_some])
  have hagain := hcutFrom.visible_eq
  rw [texts_congr htexts, htext, Nat.sub_zero] at hagain
  have hsame : visible result = visible rows := by
    split_ifs at hvisible hagain
    · exact Option.some.inj (hagain.symm.trans hvisible)
    · exact hagain.trans hvisible.symm
  exact ⟨result, hrun, ⟨hcutFrom, h.short, by rw [hsame, h.text]⟩, htexts⟩

theorem mark (h : Streamed k whole gone rows) (windowSize : ℕ) (mark : Mark) :
    Streamed k whole gone (markRows windowSize mark rows) where
  cutFrom := h.cutFrom.markRows windowSize mark
  short := h.short
  text := by rw [visible_markRows, h.text]

/-- Rounds that go out. -/
theorem pop (h : Streamed k whole gone (rows ++ older)) :
    Streamed k whole (gone ++ visible older) rows where
  cutFrom := ((cutFrom_append older).mp h.cutFrom).1
  short := h.short
  text := by rw [h.text, visible_append, List.append_assoc]

end Streamed

end MindieLLM.StreamCache
