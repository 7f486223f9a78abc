import MindieLLM.Server.CutRows
import Mathlib.Data.List.Nodup

/-!
# The responses of a stream with stop words

A request with stop words gets one response after the other. What goes out for a sequence is its
text, cut as its last response says, as long as what is cut off has not gone out before: the window
holds rounds back for each sequence, but a round goes out as soon as one sequence lets it go.

## Main definitions

* `wholeText`, `cutLength`: the text of a sequence in the responses, and the cut at its end
* `released`, `keptText`: what has gone out for a sequence, and what is held back of it
* `Fits`: a response that can come next
* `WithinKept`: the cuts of a response are within what is held back
* `Inv`: what holds between two responses

## Main results

* `Inv.afterWindow`: what the passes over the cache leave of a sequence
* `Inv.step`: a response keeps the invariant
-/

namespace MindieLLM.StreamCache

open Program

variable {Rest : Type} {windowSize seqId : ℕ} {item : BestNTokens Rest}
  {decodeResult : List (BestNTokens Rest)} {done : List (List (BestNTokens Rest))}
  {sequences : List (SequenceState Rest)} {c : SequenceState Rest} {out : List (Cache Rest)}
  {i : InferInterface Rest}

/-! ## What has come and what goes out -/

/-- What the responses have for a sequence. -/
def itemsOf (seqId : ℕ) (responses : List (List (BestNTokens Rest))) : List (BestNTokens Rest) :=
  responses.flatten.filter fun item => item.seqId = seqId

/-- The whole text of a sequence. -/
def wholeText (seqId : ℕ) (responses : List (List (BestNTokens Rest))) : List Char :=
  (itemsOf seqId responses).flatMap BestNTokens.text

/-- The units that a negative truncation index takes off the end. -/
def BestNTokens.cutLength (item : BestNTokens Rest) : ℕ := (-item.truncationIndex).toNat

/-- The units that are taken off the text of a sequence. -/
def cutLength (seqId : ℕ) (responses : List (List (BestNTokens Rest))) : ℕ :=
  ((itemsOf seqId responses).getLast?.map BestNTokens.cutLength).getD 0

/-- What the rounds that go out have for a sequence. -/
def released (seqId : ℕ) (out : List (Cache Rest)) : List Char :=
  out.flatMap fun cache => rowVisible (row? seqId cache)

/-- The text of a sequence in the rounds that are held back. -/
def keptText (seqId : ℕ) (i : InferInterface Rest) : List Char :=
  i.streamCache.flatMap fun cache => rowText (row? seqId cache)

theorem released_append (seqId : ℕ) (out out' : List (Cache Rest)) :
    released seqId (out ++ out') = released seqId out ++ released seqId out' :=
  List.flatMap_append

theorem released_eq_visible (seqId : ℕ) (out : List (Cache Rest)) :
    released seqId out = visible (view seqId out).reverse := by
  induction out with
  | nil => rfl
  | cons cache out ih =>
    rw [view_cons, List.reverse_cons, visible_append, ← ih]
    rfl

theorem keptText_eq_texts (seqId : ℕ) (i : InferInterface Rest) :
    keptText seqId i = texts (view seqId i.streamCache).reverse := by
  unfold keptText
  induction i.streamCache with
  | nil => rfl
  | cons cache streamCache ih =>
    rw [List.flatMap_cons, ih, view_cons, List.reverse_cons, texts_append]
    rfl

/-- Rounds without output are left out. -/
theorem released_filter (seqId : ℕ) (out : List (Cache Rest)) :
    released seqId (out.filter fun cache => !canOutputEmpty cache) = released seqId out := by
  induction out with
  | nil => rfl
  | cons cache out ih =>
    rw [List.filter_cons]
    cases hempty : canOutputEmpty cache with
    | false =>
      rw [Bool.not_false, if_pos rfl, released, List.flatMap_cons]
      exact congrArg _ ih
    | true =>
      have hrow : rowVisible (row? seqId cache) = [] := by
        cases hrow : row? seqId cache with
        | none => rfl
        | some row =>
          have hnone := List.all_eq_true.mp hempty row (List.mem_of_find?_eq_some hrow)
          rw [rowVisible, Option.isNone_iff_eq_none.mp hnone]
          rfl
      rw [Bool.not_true, if_neg Bool.false_ne_true, ih, released, released, List.flatMap_cons, hrow,
        List.nil_append]

theorem itemsOf_concat (seqId : ℕ) (done : List (List (BestNTokens Rest)))
    (decodeResult : List (BestNTokens Rest)) :
    itemsOf seqId (done ++ [decodeResult]) =
      itemsOf seqId done ++ decodeResult.filter fun item => item.seqId = seqId := by
  rw [itemsOf, List.flatten_append, List.filter_append, List.flatten_singleton]
  rfl

theorem itemsOf_concat_of_notMem (h : seqId ∉ decodeResult.map BestNTokens.seqId) :
    itemsOf seqId (done ++ [decodeResult]) = itemsOf seqId done := by
  have hnone : (decodeResult.filter fun item => item.seqId = seqId) = [] := by
    refine List.filter_eq_nil_iff.mpr fun item hitem => ?_
    rw [decide_eq_true_eq]
    intro heq
    exact h (heq ▸ List.mem_map_of_mem hitem)
  rw [itemsOf_concat, hnone, List.append_nil]

theorem itemsOf_concat_of_mem (hnodup : (decodeResult.map BestNTokens.seqId).Nodup)
    (h : item ∈ decodeResult) :
    itemsOf item.seqId (done ++ [decodeResult]) = itemsOf item.seqId done ++ [item] := by
  have hone : (decodeResult.filter fun item' => item'.seqId = item.seqId) = [item] := by
    induction decodeResult with
    | nil => exact absurd h List.not_mem_nil
    | cons first decodeResult ih =>
      rw [List.map_cons, List.nodup_cons] at hnodup
      rcases List.mem_cons.mp h with rfl | h
      · have hrest : (decodeResult.filter fun item' => item'.seqId = item.seqId) = [] := by
          refine List.filter_eq_nil_iff.mpr fun item' hitem' => ?_
          rw [decide_eq_true_eq]
          intro heq
          exact hnodup.1 (heq ▸ List.mem_map_of_mem hitem')
        rw [List.filter_cons, if_pos (by simp), hrest]
      · have hne : first.seqId ≠ item.seqId := fun heq =>
          hnodup.1 (heq ▸ List.mem_map_of_mem h)
        rw [List.filter_cons, if_neg (by simp [hne]), ih hnodup.2 h]
  rw [itemsOf_concat, hone]

/-! ## The maps of a round -/

/-- What is known of a sequence comes from the item. -/
structure SequenceState.From (item : BestNTokens Rest) (c : SequenceState Rest) : Prop where
  seqId : c.seqId = item.seqId
  eos : c.eos = item.finishReason
  truncationId : c.truncationId = item.truncationIndex

theorem mem_convertTokenToMap (h : c ∈ convertTokenToMap decodeResult sequences) :
    (∃ item ∈ decodeResult, c.From item ∧ c.postSingleText = item.text) ∨
      c.seqId ∉ decodeResult.map BestNTokens.seqId ∧ c.postSingleText = [] ∧
        ∃ c' ∈ sequences, c'.eos ≠ .iterationContinue ∧ c = { c' with postSingleText := [] } := by
  rcases List.mem_append.mp h with hknown | hnew
  · obtain ⟨c', hc', rfl⟩ := List.mem_map.mp hknown
    obtain ⟨hmem, hkeep⟩ := List.mem_filter.mp hc'
    rw [SequenceState.next]
    cases hfind : decodeResult.find? fun item => item.seqId = c'.seqId with
    | some item =>
      exact .inl ⟨item, List.mem_of_find?_eq_some hfind, ⟨rfl, rfl, rfl⟩, rfl⟩
    | none =>
      have habsent : c'.seqId ∉ decodeResult.map BestNTokens.seqId := by
        intro hin
        obtain ⟨item, hitem, heq⟩ := List.mem_map.mp hin
        exact List.find?_eq_none.mp hfind item hitem (decide_eq_true heq)
      refine .inr ⟨habsent, rfl, c', hmem, ?_, rfl⟩
      exact (of_decide_eq_true hkeep).resolve_right habsent
  · obtain ⟨item, hitem, rfl⟩ := List.mem_map.mp hnew
    exact .inl ⟨item, (List.mem_filter.mp hitem).1, ⟨rfl, rfl, rfl⟩, rfl⟩

theorem SequenceState.next_seqId (decodeResult : List (BestNTokens Rest)) (c : SequenceState Rest) :
    (c.next decodeResult).seqId = c.seqId := by
  rw [SequenceState.next]
  cases hfind : decodeResult.find? fun item => item.seqId = c.seqId with
  | none => rfl
  | some item =>
    have heq := List.find?_some hfind
    exact of_decide_eq_true heq

theorem map_seqId_convertTokenToMap_nil (decodeResult : List (BestNTokens Rest)) :
    (convertTokenToMap decodeResult []).map SequenceState.seqId =
      decodeResult.map BestNTokens.seqId := by
  have hall : (decodeResult.filter fun item =>
      item.seqId ∉ ([] : List (SequenceState Rest)).map SequenceState.seqId) = decodeResult :=
    List.filter_eq_self.mpr fun item _ => by simp
  rw [convertTokenToMap, hall, List.filter_nil, List.map_nil, List.nil_append, List.map_map]
  rfl

/-- The sequences stay the same where none is new and none is forgotten. -/
theorem map_seqId_convertTokenToMap
    (hknown : ∀ item ∈ decodeResult, item.seqId ∈ sequences.map SequenceState.seqId)
    (hlive : ∀ c ∈ sequences, c.eos = .iterationContinue →
      c.seqId ∈ decodeResult.map BestNTokens.seqId) :
    (convertTokenToMap decodeResult sequences).map SequenceState.seqId =
      sequences.map SequenceState.seqId := by
  have hnew : (decodeResult.filter fun item =>
      item.seqId ∉ sequences.map SequenceState.seqId) = [] := by
    refine List.filter_eq_nil_iff.mpr fun item hitem => ?_
    rw [decide_eq_true_eq, not_not]
    exact hknown item hitem
  have hkept : (sequences.filter fun c => c.eos ≠ .iterationContinue ∨
      c.seqId ∈ decodeResult.map BestNTokens.seqId) = sequences := by
    refine List.filter_eq_self.mpr fun c hc => ?_
    rw [decide_eq_true_eq]
    by_cases heos : c.eos = .iterationContinue
    · exact .inr (hlive c hc heos)
    · exact .inl heos
  rw [convertTokenToMap, hnew, hkept, List.map_nil, List.append_nil, List.map_map]
  exact List.map_congr_left fun c _ => c.next_seqId decodeResult

theorem row?_map_ofSequence (hnodup : (sequences.map SequenceState.seqId).Nodup)
    (h : c ∈ sequences) : row? c.seqId (sequences.map .ofSequence) = some (.ofSequence c) := by
  induction sequences with
  | nil => exact absurd h List.not_mem_nil
  | cons first sequences ih =>
    rw [List.map_cons, List.nodup_cons] at hnodup
    rw [List.map_cons, row?, List.find?_cons]
    rcases List.mem_cons.mp h with rfl | h
    · rw [show decide ((CacheRow.ofSequence c).seqId = c.seqId) = true from decide_eq_true rfl]
    · have hne : first.seqId ≠ c.seqId := fun heq =>
        hnodup.1 (heq ▸ List.mem_map_of_mem h)
      rw [show decide ((CacheRow.ofSequence first).seqId = c.seqId) = false from
        decide_eq_false hne]
      exact ih hnodup.2 h

theorem row?_map_ofSequence_eq_none (h : seqId ∉ sequences.map SequenceState.seqId) :
    row? seqId (sequences.map .ofSequence) = none := by
  refine List.find?_eq_none.mpr fun row hrow => ?_
  obtain ⟨c, hc, rfl⟩ := List.mem_map.mp hrow
  rw [decide_eq_true_eq]
  intro heq
  exact h (List.mem_map.mpr ⟨c, hc, heq⟩)

/-! ## A response -/

/-- A response that can come next. -/
structure Fits (decodeResult : List (BestNTokens Rest)) (i : InferInterface Rest) : Prop where
  nodup : (decodeResult.map BestNTokens.seqId).Nodup
  /-- The first response has all sequences of the request. -/
  known : i = .new ∨ ∀ item ∈ decodeResult, item.seqId ∈ i.sequences.map SequenceState.seqId
  /-- A response has the sequences that have not ended. -/
  live : ∀ c ∈ i.sequences,
    c.seqId ∈ decodeResult.map BestNTokens.seqId ↔ c.eos = .iterationContinue
  /-- A negative truncation index comes at the end of a sequence. -/
  continuing : ∀ item ∈ decodeResult,
    item.finishReason = .iterationContinue → 0 ≤ item.truncationIndex

/-- What is cut off is held back, and the cut is between characters. -/
def WithinKept (decodeResult : List (BestNTokens Rest)) (i : InferInterface Rest) : Prop :=
  ∀ item ∈ decodeResult,
    item.cutLength ≤ utf16Len (keptText item.seqId i ++ item.text) ∧
      (cutUnits (utf16Len (keptText item.seqId i ++ item.text) - item.cutLength)
        (keptText item.seqId i ++ item.text)).isSome

/-- What holds between two responses. -/
structure Inv (windowSize : ℕ) (done : List (List (BestNTokens Rest))) (out : List (Cache Rest))
    (i : InferInterface Rest) : Prop where
  nodup : (i.sequences.map SequenceState.seqId).Nodup
  last : ∀ c ∈ i.sequences, ∃ item, (itemsOf c.seqId done).getLast? = some item ∧ c.From item
  continuing : ∀ c ∈ i.sequences, c.eos = .iterationContinue → 0 ≤ c.truncationId
  known : ∀ seqId ∉ i.sequences.map SequenceState.seqId, itemsOf seqId done = []
  rows : ∀ c ∈ i.sequences, none ∉ view c.seqId i.streamCache
  streamed : ∀ seqId, Streamed (cutLength seqId done) (wholeText seqId done) (released seqId out)
    (view seqId i.streamCache).reverse
  /-- Of a sequence that goes on, a round is ready only when enough text has come after it. -/
  waiting : ∀ c ∈ i.sequences, c.eos = .iterationContinue →
    Waiting windowSize 0 (view c.seqId i.streamCache).reverse
  /-- When all sequences have ended, nothing is held back. -/
  settled : (∀ c ∈ i.sequences, c.eos ≠ .iterationContinue) →
    ∀ c ∈ i.sequences, visible (view c.seqId i.streamCache).reverse = []

theorem Inv.new : Inv windowSize ([] : List (List (BestNTokens Rest))) [] .new where
  nodup := List.nodup_nil
  last _ hc := absurd hc List.not_mem_nil
  continuing _ hc := absurd hc List.not_mem_nil
  known _ _ := rfl
  rows _ hc := absurd hc List.not_mem_nil
  streamed _ := .nil
  waiting _ hc := absurd hc List.not_mem_nil
  settled _ _ hc := absurd hc List.not_mem_nil

theorem cutLength_eq {done : List (List (BestNTokens Rest))}
    (hlast : (itemsOf seqId done).getLast? = some item) (hfrom : c.From item) :
    cutLength seqId done = (-c.truncationId).toNat := by
  rw [cutLength, hlast, hfrom.truncationId]
  rfl

theorem Fits.nodup_convertTokenToMap (h : Fits decodeResult i) (hinv : Inv windowSize done out i) :
    ((convertTokenToMap decodeResult i.sequences).map SequenceState.seqId).Nodup := by
  rcases h.known with rfl | hknown
  · rw [show (InferInterface.new : InferInterface Rest).sequences = [] from rfl,
      map_seqId_convertTokenToMap_nil]
    exact h.nodup
  · rw [map_seqId_convertTokenToMap hknown fun c hc heos => (h.live c hc).mpr heos]
    exact hinv.nodup

theorem Fits.mem_convertTokenToMap (h : Fits decodeResult i) :
    seqId ∈ (convertTokenToMap decodeResult i.sequences).map SequenceState.seqId ↔
      seqId ∈ i.sequences.map SequenceState.seqId ∨ seqId ∈ decodeResult.map BestNTokens.seqId := by
  rcases h.known with rfl | hknown
  · rw [show (InferInterface.new : InferInterface Rest).sequences = [] from rfl,
      map_seqId_convertTokenToMap_nil]
    simp
  · rw [map_seqId_convertTokenToMap hknown fun c hc heos => (h.live c hc).mpr heos]
    refine ⟨.inl, ?_⟩
    rintro (hmem | hmem)
    · exact hmem
    · obtain ⟨item, hitem, rfl⟩ := List.mem_map.mp hmem
      exact hknown item hitem

/-- A sequence that a response has was not cut before. -/
theorem Inv.cutLength_of_mem (hinv : Inv windowSize done out i) (h : Fits decodeResult i)
    (hitem : item ∈ decodeResult) : cutLength item.seqId done = 0 := by
  by_cases hknown : item.seqId ∈ i.sequences.map SequenceState.seqId
  · obtain ⟨c, hc, heq⟩ := List.mem_map.mp hknown
    obtain ⟨last, hlast, hfrom⟩ := hinv.last c hc
    have hlive := (h.live c hc).mp (heq ▸ List.mem_map_of_mem hitem)
    have hnonneg := hinv.continuing c hc hlive
    rw [← heq, cutLength_eq hlast hfrom]
    omega
  · rw [cutLength, hinv.known _ hknown]
    rfl

theorem Inv.waiting_of_item (hinv : Inv windowSize done out i) (h : Fits decodeResult i)
    (hitem : item ∈ decodeResult) :
    Waiting windowSize 0 (view item.seqId i.streamCache).reverse := by
  rcases h.known with rfl | hknown
  · trivial
  · obtain ⟨c, hc, heq⟩ := List.mem_map.mp (hknown item hitem)
    rw [← heq]
    exact hinv.waiting c hc ((h.live c hc).mp (heq ▸ List.mem_map_of_mem hitem))

/-- What the pass for one sequence leaves. -/
structure AfterCut (windowSize : ℕ) (done : List (List (BestNTokens Rest)))
    (out : List (Cache Rest)) (sequences : List (SequenceState Rest)) (before : View Rest)
    (seqId : ℕ) (rows : View Rest) : Prop where
  run : ∀ c ∈ sequences, c.seqId = seqId →
    truncateRows c.truncationId ((row? seqId (sequences.map .ofSequence)).getD (.ofSequence c))
      before = some rows.reverse
  other : seqId ∉ sequences.map SequenceState.seqId → rows.reverse = before
  streamed : Streamed (cutLength seqId done) (wholeText seqId done) (released seqId out) rows
  tokenTexts : tokenTexts rows = tokenTexts before.reverse
  ended : ∀ c ∈ sequences, c.seqId = seqId → c.eos ≠ .iterationContinue → EndedFirst rows
  waiting : ∀ c ∈ sequences, c.seqId = seqId → c.eos = .iterationContinue →
    Waiting windowSize 0 rows

/-- The sequence is there, so it is all that the pass asks for. -/
theorem afterCut_of_mem {before rows : View Rest}
    (hnodup : (sequences.map SequenceState.seqId).Nodup) (hc : c ∈ sequences)
    (hsame : c.seqId = seqId)
    (hrun : truncateRows c.truncationId (.ofSequence c) before = some rows.reverse)
    (hstreamed : Streamed (cutLength seqId done) (wholeText seqId done) (released seqId out) rows)
    (htokens : tokenTexts rows = tokenTexts before.reverse)
    (hended : c.eos ≠ .iterationContinue → EndedFirst rows)
    (hwaiting : c.eos = .iterationContinue → Waiting windowSize 0 rows) :
    AfterCut windowSize done out sequences before seqId rows := by
  subst hsame
  have honly : ∀ c' ∈ sequences, c'.seqId = c.seqId → c' = c :=
    fun c' hc' heq => List.inj_on_of_nodup_map hnodup hc' hc heq
  refine ⟨fun c' hc' heq => ?_, fun hnotMem => absurd (List.mem_map_of_mem hc) hnotMem, hstreamed,
    htokens, fun c' hc' heq => honly c' hc' heq ▸ hended,
    fun c' hc' heq => honly c' hc' heq ▸ hwaiting⟩
  rw [honly c' hc' heq, row?_map_ofSequence hnodup hc]
  exact hrun

theorem Streamed.push_none {k : ℕ} {whole gone : List Char} {rows : View Rest}
    (h : Streamed k whole gone rows) : Streamed k whole gone (none :: rows) where
  cutFrom := h.cutFrom
  short := h.short
  text := by
    rw [visible, rowVisible, List.append_nil, h.text]

theorem wholeText_concat_of_mem (hnodup : (decodeResult.map BestNTokens.seqId).Nodup)
    (h : item ∈ decodeResult) :
    wholeText item.seqId (done ++ [decodeResult]) = wholeText item.seqId done ++ item.text := by
  rw [wholeText, itemsOf_concat_of_mem hnodup h, List.flatMap_append, List.flatMap_singleton]
  rfl

theorem cutLength_concat_of_mem (hnodup : (decodeResult.map BestNTokens.seqId).Nodup)
    (h : item ∈ decodeResult) :
    cutLength item.seqId (done ++ [decodeResult]) = item.cutLength := by
  rw [cutLength, itemsOf_concat_of_mem hnodup h, List.getLast?_concat]
  rfl

/-- The rounds with the round of the response. -/
theorem view_pushLatestCache (seqId : ℕ) (sequences : List (SequenceState Rest))
    (streamCache : List (Cache Rest)) :
    (view seqId (pushLatestCache sequences streamCache)).reverse =
      row? seqId (sequences.map .ofSequence) :: (view seqId streamCache).reverse := by
  rw [pushLatestCache, view_append, view_cons, view_nil, List.reverse_append]
  rfl

theorem intact_ofSequence (c : SequenceState Rest) : (CacheRow.ofSequence c).Intact := ⟨rfl, rfl⟩

/-- A response for a sequence that has not ended. -/
theorem Inv.afterCut_of_item (hinv : Inv windowSize done out i) (h : Fits decodeResult i)
    (hkept : WithinKept decodeResult i) (hc : c ∈ convertTokenToMap decodeResult i.sequences)
    (hitem : item ∈ decodeResult) (hfrom : c.From item) (htext : c.postSingleText = item.text) :
    ∃ rows, AfterCut windowSize (done ++ [decodeResult]) out
      (convertTokenToMap decodeResult i.sequences)
      (view c.seqId (pushLatestCache (convertTokenToMap decodeResult i.sequences) i.streamCache))
      c.seqId rows := by
  have hnodup := h.nodup_convertTokenToMap hinv
  have hbefore := view_pushLatestCache c.seqId (convertTokenToMap decodeResult i.sequences)
    i.streamCache
  rw [row?_map_ofSequence hnodup hc] at hbefore
  have hsame : c.seqId = item.seqId := hfrom.seqId
  have hzero := hinv.cutLength_of_mem h hitem
  have hstreamed := hinv.streamed c.seqId
  rw [hsame, hzero, ← hsame] at hstreamed
  have hpushed := hstreamed.push (intact_ofSequence c)
  have hwhole : wholeText c.seqId done ++ (CacheRow.ofSequence c).u16TokenText =
      wholeText c.seqId (done ++ [decodeResult]) := by
    show wholeText c.seqId done ++ c.postSingleText = _
    rw [htext, hsame, wholeText_concat_of_mem h.nodup hitem]
  have hcutLength : cutLength c.seqId (done ++ [decodeResult]) = item.cutLength := by
    rw [hsame, cutLength_concat_of_mem h.nodup hitem]
  rw [hwhole] at hpushed
  by_cases hnonneg : 0 ≤ item.truncationIndex
  · refine ⟨some (.ofSequence c) :: (view c.seqId i.streamCache).reverse,
      afterCut_of_mem hnodup hc rfl ?_ ?_ ?_ (fun hended => hended) fun heos => ?_⟩
    · rw [truncateRows_nonneg (by rw [hfrom.truncationId]; exact hnonneg), ← hbefore,
        List.reverse_reverse]
    · rw [hcutLength, BestNTokens.cutLength, Int.toNat_of_nonpos (by omega)]
      exact hpushed
    · rw [hbefore]
    · have hwaiting := (hinv.waiting_of_item h hitem).mono (Nat.zero_le
        (0 + utf16Len (CacheRow.ofSequence c).u16TokenText))
      rw [← hsame] at hwaiting
      exact ⟨⟨heos, rfl, fun htrue => absurd htrue (by simp [CacheRow.ofSequence])⟩, hwaiting⟩
  · have hended : (CacheRow.ofSequence c).eos ≠ .iterationContinue := by
      intro heos
      exact hnonneg (h.continuing item hitem (hfrom.eos ▸ heos))
    have hpos : 0 < item.cutLength := by
      rw [BestNTokens.cutLength]
      omega
    have htexts : texts (some (.ofSequence c) :: (view c.seqId i.streamCache).reverse) =
        keptText item.seqId i ++ item.text := by
      rw [texts, ← keptText_eq_texts, hsame, ← htext]
      rfl
    obtain ⟨hlen, hsome⟩ := hkept item hitem
    rw [← htexts] at hlen hsome
    obtain ⟨rows, hrun, hrows, htokens⟩ := hpushed.cut hpos hended hlen hsome
    have hindex : c.truncationId = -(item.cutLength : ℤ) := by
      rw [hfrom.truncationId, BestNTokens.cutLength]
      omega
    refine ⟨rows, afterCut_of_mem hnodup hc rfl ?_ ?_ ?_ (fun _ => hrows.cutFrom.endedFirst hpos)
      fun heos => absurd heos hended⟩
    · rw [hindex, ← hrun, ← hbefore, List.reverse_reverse]
    · rw [hcutLength]
      exact hrows
    · rw [htokens, hbefore]

/-- A response for a sequence that has ended: it has nothing, and the cut is repeated. -/
theorem Inv.afterCut_of_ended (hinv : Inv windowSize done out i) (h : Fits decodeResult i)
    (hc : { c with postSingleText := [] } ∈ convertTokenToMap decodeResult i.sequences)
    (hmem : c ∈ i.sequences) (hended : c.eos ≠ .iterationContinue)
    (habsent : c.seqId ∉ decodeResult.map BestNTokens.seqId) :
    ∃ rows, AfterCut windowSize (done ++ [decodeResult]) out
      (convertTokenToMap decodeResult i.sequences)
      (view c.seqId (pushLatestCache (convertTokenToMap decodeResult i.sequences) i.streamCache))
      c.seqId rows := by
  have hnodup := h.nodup_convertTokenToMap hinv
  have hrow : row? c.seqId _ = some (.ofSequence { c with postSingleText := [] }) :=
    row?_map_ofSequence hnodup hc
  have hbefore := view_pushLatestCache c.seqId (convertTokenToMap decodeResult i.sequences)
    i.streamCache
  rw [hrow] at hbefore
  have hitems : itemsOf c.seqId (done ++ [decodeResult]) = itemsOf c.seqId done :=
    itemsOf_concat_of_notMem habsent
  have hwhole : wholeText c.seqId (done ++ [decodeResult]) = wholeText c.seqId done := by
    rw [wholeText, hitems]
    rfl
  have hcutLength : cutLength c.seqId (done ++ [decodeResult]) = (-c.truncationId).toNat := by
    obtain ⟨item, hlast, hfrom⟩ := hinv.last c hmem
    rw [← cutLength_eq hlast hfrom, cutLength, hitems]
    rfl
  have hstreamed := hinv.streamed c.seqId
  rw [← hwhole] at hstreamed
  rw [show cutLength c.seqId done = (-c.truncationId).toNat by
    rw [← hcutLength, cutLength, cutLength, hitems]] at hstreamed
  by_cases hnonneg : 0 ≤ c.truncationId
  · rw [Int.toNat_of_nonpos (by omega)] at hstreamed hcutLength
    have hpushed := hstreamed.push (intact_ofSequence { c with postSingleText := [] })
    refine ⟨some (.ofSequence { c with postSingleText := [] }) ::
      (view c.seqId i.streamCache).reverse, afterCut_of_mem hnodup hc rfl ?_ ?_ ?_ (fun _ => hended)
        fun heos => absurd heos hended⟩
    · rw [truncateRows_nonneg hnonneg, ← hbefore, List.reverse_reverse]
    · rw [hcutLength]
      rwa [show (CacheRow.ofSequence { c with postSingleText := [] }).u16TokenText = [] from rfl,
        List.append_nil] at hpushed
    · rw [hbefore]
  · have hlatest : (CacheRow.ofSequence { c with postSingleText := [] }).eos ≠
        .iterationContinue := hended
    obtain ⟨rows, hrun, hrows, htokens⟩ := hstreamed.recut (by omega) hlatest
      (intact_ofSequence { c with postSingleText := [] }) rfl
    have hindex : c.truncationId = -(((-c.truncationId).toNat : ℕ) : ℤ) := by omega
    refine ⟨rows, afterCut_of_mem hnodup hc rfl ?_ ?_ ?_
      (fun _ => hrows.cutFrom.endedFirst (by omega)) fun heos => absurd heos hended⟩
    · rw [← hrun, ← hbefore, List.reverse_reverse, ← hindex]
    · rw [hcutLength]
      exact hrows
    · rw [htokens, hbefore]

theorem Inv.afterCut (hinv : Inv windowSize done out i) (h : Fits decodeResult i)
    (hkept : WithinKept decodeResult i) (seqId : ℕ) :
    ∃ rows, AfterCut windowSize (done ++ [decodeResult]) out
      (convertTokenToMap decodeResult i.sequences)
      (view seqId (pushLatestCache (convertTokenToMap decodeResult i.sequences) i.streamCache))
      seqId rows := by
  by_cases hknown :
      seqId ∈ (convertTokenToMap decodeResult i.sequences).map SequenceState.seqId
  · obtain ⟨c, hc, rfl⟩ := List.mem_map.mp hknown
    rcases mem_convertTokenToMap hc with ⟨item, hitem, hfrom, htext⟩ |
      ⟨habsent, -, c', hc', hended, rfl⟩
    · exact hinv.afterCut_of_item h hkept hc hitem hfrom htext
    · exact hinv.afterCut_of_ended (c := c') h hc hc' hended habsent
  · -- the response does not have the sequence
    have habsent : seqId ∉ decodeResult.map BestNTokens.seqId := fun hmem =>
      hknown (h.mem_convertTokenToMap.mpr (.inr hmem))
    have hitems : itemsOf seqId (done ++ [decodeResult]) = itemsOf seqId done :=
      itemsOf_concat_of_notMem habsent
    have hrow := row?_map_ofSequence_eq_none hknown
    have hbefore := view_pushLatestCache seqId (convertTokenToMap decodeResult i.sequences)
      i.streamCache
    rw [hrow] at hbefore
    refine ⟨none :: (view seqId i.streamCache).reverse, ?_, ?_, ?_, ?_, ?_, ?_⟩
    · intro c hc heq
      exact absurd (List.mem_map.mpr ⟨c, hc, heq⟩) hknown
    · intro _
      rw [← hbefore, List.reverse_reverse]
    · rw [cutLength, wholeText, hitems]
      exact (hinv.streamed seqId).push_none
    · rw [hbefore]
    · intro c hc heq
      exact absurd (List.mem_map.mpr ⟨c, hc, heq⟩) hknown
    · intro c hc heq
      exact absurd (List.mem_map.mpr ⟨c, hc, heq⟩) hknown

/-! ## The sequences of the rounds -/

/-- The sequences of a round. -/
def seqIds (cache : Cache Rest) : List ℕ := cache.map CacheRow.seqId

theorem seqIds_mapRow {f : CacheRow Rest → CacheRow Rest} {cache : Cache Rest}
    (hf : ∀ row, row.seqId = seqId → (f row).seqId = seqId) :
    seqIds (mapRow seqId f cache) = seqIds cache := by
  rw [seqIds, seqIds, mapRow, List.map_map]
  refine List.map_congr_left fun row _ => ?_
  rw [Function.comp_apply]
  split_ifs with h
  · exact (hf row h).trans h.symm
  · rfl

theorem seqIds_truncationLoop {truncationIndex restTruncation : ℤ} {latest : CacheRow Rest}
    {visited older result : List (Cache Rest)}
    (h : truncationLoop seqId truncationIndex latest restTruncation visited older = some result) :
    result.map seqIds = (older.reverse ++ visited).map seqIds := by
  induction older generalizing restTruncation visited with
  | nil =>
    cases h
    rfl
  | cons cache older ih =>
    rw [truncationLoop] at h
    rw [List.reverse_cons, List.append_assoc, List.singleton_append]
    cases hrow : row? seqId cache with
    | none =>
      rw [hrow] at h
      exact ih h
    | some row =>
      rw [hrow] at h
      dsimp only at h
      split_ifs at h
      · exact ih h
      · rw [ih h, List.map_append, List.map_append, List.map_cons, List.map_cons,
          seqIds_mapRow (f := CacheRow.erase) fun _ h => h]
      · obtain ⟨text, -, h⟩ := Option.bind_eq_some_iff.mp h
        have hid : (row.cut latest text).seqId = seqId := (seqId_of_row? hrow : row.seqId = seqId)
        have hvisited : (visited.map (mapRow seqId (CacheRow.copy (row.cut latest text)))).map
            seqIds = visited.map seqIds := by
          rw [List.map_map]
          exact List.map_congr_left fun cache _ =>
            seqIds_mapRow (f := CacheRow.copy _) fun _ h => h
        rw [ih h, List.map_append, List.map_append, List.map_cons, List.map_cons, hvisited,
          seqIds_mapRow (f := fun _ => row.cut latest text) fun _ _ => hid]

theorem seqIds_foldlM_truncateSequence {latestData : Cache Rest}
    {sequences : List (SequenceState Rest)} {streamCache result : List (Cache Rest)}
    (h : sequences.foldlM (fun streamCache c => truncateSequence latestData c streamCache)
      streamCache = some result) : result.map seqIds = streamCache.map seqIds := by
  induction sequences generalizing streamCache with
  | nil =>
    cases h
    rfl
  | cons c sequences ih =>
    rw [List.foldlM_cons] at h
    obtain ⟨first, hfirst, hrest⟩ := Option.bind_eq_some_iff.mp h
    rw [ih hrest, seqIds_truncationLoop hfirst, List.reverse_reverse, List.append_nil]

theorem seqIds_markCaches (marks : ℕ → Mark) (streamCache : List (Cache Rest)) :
    (markCaches windowSize marks streamCache).map seqIds = streamCache.map seqIds := by
  induction streamCache generalizing marks with
  | nil => rfl
  | cons cache older ih =>
    rw [markCaches, List.map_cons, List.map_cons, ih]
    refine congrArg (· :: _) ?_
    rw [seqIds, seqIds, List.map_map]
    exact List.map_congr_left fun row _ => markRow_seqId windowSize (marks row.seqId) row

/-! ## The rounds that go out -/

theorem takeWhile_append_drop {α : Type} (p : α → Bool) (l : List α) :
    l.takeWhile p ++ l.drop (l.takeWhile p).length = l :=
  List.prefix_iff_eq_append.mp (List.takeWhile_prefix p)

/-- The first round that is held back. -/
theorem not_of_drop_takeWhile {α : Type} {p : α → Bool} {l rest : List α} {a : α}
    (h : l.drop (l.takeWhile p).length = a :: rest) : p a = false := by
  have hdrop : l.drop (l.takeWhile p).length = l.dropWhile p :=
    List.append_cancel_left ((takeWhile_append_drop p l).trans List.takeWhile_append_dropWhile.symm)
  have hhead := List.head?_dropWhile_not p l
  rw [← hdrop, h] at hhead
  exact hhead

/-- The cut and the window, and then the rounds that go out. -/
theorem processResponseStream_eq {cut : List (Cache Rest)}
    (hcut : (convertTokenToMap decodeResult i.sequences).foldlM
      (fun streamCache c => truncateSequence
        ((convertTokenToMap decodeResult i.sequences).map .ofSequence) c streamCache)
      (pushLatestCache (convertTokenToMap decodeResult i.sequences) i.streamCache) = some cut) :
    processResponseStream windowSize decodeResult i = some
      (((processStreamCacheWindowSize windowSize cut).takeWhile hasOutputReadyOrFinished).filter
          fun cache => !canOutputEmpty cache,
        ⟨convertTokenToMap decodeResult i.sequences,
          (processStreamCacheWindowSize windowSize cut).drop
            ((processStreamCacheWindowSize windowSize cut).takeWhile
              hasOutputReadyOrFinished).length⟩) := by
  have hlast : (pushLatestCache (convertTokenToMap decodeResult i.sequences)
      i.streamCache).getLast? =
        some ((convertTokenToMap decodeResult i.sequences).map .ofSequence) :=
    List.getLast?_concat
  have hrun : processStreamCacheTruncationId (convertTokenToMap decodeResult i.sequences)
      (pushLatestCache (convertTokenToMap decodeResult i.sequences) i.streamCache) = some cut := by
    rw [processStreamCacheTruncationId, hlast]
    exact hcut
  rw [processResponseStream, getAvailableOutputCache]
  simp only [hrun, Option.bind_eq_bind, Option.bind_some, if_pos]
  rfl

/-- The first round that is held back has nothing of a sequence whose rounds are all ready. -/
theorem visible_eq_nil {k : ℕ} {cache : Cache Rest} {streamCache : List (Cache Rest)}
    (hready : AllReady (view seqId (cache :: streamCache)).reverse)
    (hcut : CutFrom k 0 (view seqId (cache :: streamCache)).reverse)
    (hrow : none ∉ view seqId (cache :: streamCache))
    (hheld : hasOutputReadyOrFinished cache = false) :
    visible (view seqId (cache :: streamCache)).reverse = [] := by
  rw [view_cons] at hready hcut hrow ⊢
  cases hfirst : row? seqId cache with
  | none => exact absurd (hfirst ▸ List.mem_cons_self) hrow
  | some row =>
    rw [hfirst] at hready hcut
    have hnone : row.canOutput = none := by
      have hany := List.any_eq_false.mp hheld row (List.mem_of_find?_eq_some hfirst)
      have hfalse := hready row (List.mem_reverse.mpr List.mem_cons_self)
      cases hcan : row.canOutput with
      | none => rfl
      | some canOut =>
        rw [hcan] at hany hfalse
        cases canOut with
        | false => exact absurd rfl hfalse
        | true => exact absurd rfl hany
    rw [List.reverse_cons, cutFrom_append] at hcut
    obtain ⟨hlater, hcutRow, -⟩ := hcut
    -- the cut is before this round, so the later rounds have been erased too
    have hbefore : 0 + utf16Len (texts (view seqId streamCache).reverse) +
        utf16Len row.u16TokenText < k := by
      by_contra hge
      by_cases hintact : k ≤ 0 + utf16Len (texts (view seqId streamCache).reverse)
      · have hsome := (hcutRow.intact hintact).1
        rw [hnone] at hsome
        exact Bool.false_ne_true hsome
      · have hsome := (hcutRow.cut (by omega) (by omega)).1
        rw [hnone] at hsome
        exact Bool.false_ne_true hsome
    have hvisible := hlater.visible_eq
    rw [if_neg (by omega)] at hvisible
    rw [List.reverse_cons, visible_append, hvisible, visible, visible, rowVisible, hnone]
    rfl

/-- The rounds of a sequence after the cut and the window. -/
structure AfterWindow (windowSize : ℕ) (done : List (List (BestNTokens Rest)))
    (out : List (Cache Rest)) (sequences : List (SequenceState Rest)) (before : View Rest)
    (seqId : ℕ) (rows : View Rest) : Prop where
  streamed : Streamed (cutLength seqId done) (wholeText seqId done) (released seqId out) rows
  tokenTexts : tokenTexts rows = tokenTexts before.reverse
  ready : ∀ c ∈ sequences, c.seqId = seqId → c.eos ≠ .iterationContinue → AllReady rows
  waiting : ∀ c ∈ sequences, c.seqId = seqId → c.eos = .iterationContinue →
    Waiting windowSize 0 rows

theorem Inv.afterWindow (hinv : Inv windowSize done out i) (h : Fits decodeResult i)
    (hkept : WithinKept decodeResult i) :
    ∃ popped kept, processResponseStream windowSize decodeResult i = some
        (popped.filter fun cache => !canOutputEmpty cache,
          ⟨convertTokenToMap decodeResult i.sequences, kept⟩) ∧
      (∀ cache ∈ popped, hasOutputReadyOrFinished cache = true) ∧
      (∀ cache later, kept = cache :: later → hasOutputReadyOrFinished cache = false) ∧
      (popped ++ kept).map seqIds =
        (pushLatestCache (convertTokenToMap decodeResult i.sequences) i.streamCache).map seqIds ∧
      ∀ seqId, AfterWindow windowSize (done ++ [decodeResult]) out
        (convertTokenToMap decodeResult i.sequences)
        (view seqId (pushLatestCache (convertTokenToMap decodeResult i.sequences) i.streamCache))
        seqId (view seqId (popped ++ kept)).reverse := by
  have hnodup := h.nodup_convertTokenToMap hinv
  choose rows hrows using hinv.afterCut h hkept
  obtain ⟨cut, hcut, hviews, hothers⟩ := @foldlM_truncateSequence Rest _ _ _ hnodup
    (fun seqId => (rows seqId).reverse) fun c hc => (hrows c.seqId).run c hc rfl
  refine ⟨_, _, processResponseStream_eq hcut, List.all_eq_true.mp List.all_takeWhile,
    fun _ _ => not_of_drop_takeWhile, ?_, ?_⟩
  · rw [takeWhile_append_drop, processStreamCacheWindowSize, List.map_reverse, seqIds_markCaches,
      List.map_reverse, List.reverse_reverse, seqIds_foldlM_truncateSequence hcut]
  intro seqId
  have hview : (view seqId cut).reverse = rows seqId := by
    by_cases hknown :
        seqId ∈ (convertTokenToMap decodeResult i.sequences).map SequenceState.seqId
    · obtain ⟨c, hc, rfl⟩ := List.mem_map.mp hknown
      rw [hviews c hc, List.reverse_reverse]
    · rw [hothers seqId hknown, ← (hrows seqId).other hknown, List.reverse_reverse]
  rw [takeWhile_append_drop, view_processStreamCacheWindowSize, List.reverse_reverse, hview]
  refine ⟨(hrows seqId).streamed.mark windowSize .new, ?_, ?_, ?_⟩
  · rw [tokenTexts_markRows, (hrows seqId).tokenTexts]
  · intro c hc heq hended
    exact markRows_ready ((hrows seqId).ended c hc heq hended) rfl
  · intro c hc heq heos
    exact ((hrows seqId).waiting c hc heq heos).markRows
      (fun htrue => absurd htrue Bool.false_ne_true) (.inl rfl)

/-- The sequences of a request are in all its rounds. -/
theorem Inv.none_notMem (hinv : Inv windowSize done out i) (h : Fits decodeResult i)
    (hc : c ∈ convertTokenToMap decodeResult i.sequences) : none ∉ view c.seqId i.streamCache := by
  rcases h.known with rfl | hknown
  · exact List.not_mem_nil
  · have hmem := List.mem_map_of_mem (f := SequenceState.seqId) hc
    rw [map_seqId_convertTokenToMap hknown fun c hc heos => (h.live c hc).mpr heos] at hmem
    obtain ⟨c', hc', heq⟩ := List.mem_map.mp hmem
    rw [← heq]
    exact hinv.rows c' hc'

theorem none_mem_iff_of_tokenTexts {rows rows' : View Rest}
    (h : tokenTexts rows = tokenTexts rows') :
    none ∈ rows ↔ none ∈ rows' := by
  have hmem : ∀ rows : View Rest, none ∈ tokenTexts rows ↔ none ∈ rows := by
    intro rows
    simp [tokenTexts]
  rw [← hmem rows, h, hmem]

/-- **A response keeps the invariant.** -/
theorem Inv.step (hinv : Inv windowSize done out i) (h : Fits decodeResult i)
    (hkept : WithinKept decodeResult i) :
    ∃ out' i', processResponseStream windowSize decodeResult i = some (out', i') ∧
      Inv windowSize (done ++ [decodeResult]) (out ++ out') i' := by
  have hnodup := h.nodup_convertTokenToMap hinv
  obtain ⟨popped, kept, hrun, -, hheld, -, hafter⟩ := hinv.afterWindow h hkept
  have hview : ∀ seqId, (view seqId (popped ++ kept)).reverse =
      (view seqId kept).reverse ++ (view seqId popped).reverse := by
    intro seqId
    rw [view_append, List.reverse_append]
  have hrows : ∀ c ∈ convertTokenToMap decodeResult i.sequences, none ∉ view c.seqId kept := by
    intro c hc hmem
    have hin : none ∈ (view c.seqId (popped ++ kept)).reverse := by
      rw [hview]
      exact List.mem_append_left _ (List.mem_reverse.mpr hmem)
    rw [none_mem_iff_of_tokenTexts (hafter c.seqId).tokenTexts, view_pushLatestCache,
      row?_map_ofSequence hnodup hc] at hin
    have hold := (List.mem_cons.mp hin).resolve_left (by simp)
    exact hinv.none_notMem h hc (List.mem_reverse.mp hold)
  refine ⟨_, _, hrun, hnodup, ?_, ?_, ?_, hrows, ?_, ?_, ?_⟩
  · intro c hc
    rcases mem_convertTokenToMap hc with ⟨item, hitem, hfrom, -⟩ | ⟨habsent, -, c', hc', -, rfl⟩
    · refine ⟨item, ?_, hfrom⟩
      rw [hfrom.seqId, itemsOf_concat_of_mem h.nodup hitem, List.getLast?_concat]
    · obtain ⟨item, hlast, hfrom⟩ := hinv.last c' hc'
      exact ⟨item, by rw [itemsOf_concat_of_notMem habsent]; exact hlast,
        ⟨hfrom.seqId, hfrom.eos, hfrom.truncationId⟩⟩
  · intro c hc heos
    rcases mem_convertTokenToMap hc with ⟨item, hitem, hfrom, -⟩ | ⟨-, -, c', -, hended, rfl⟩
    · rw [hfrom.truncationId]
      exact h.continuing item hitem (hfrom.eos ▸ heos)
    · exact absurd heos hended
  · intro seqId hnotMem
    rw [h.mem_convertTokenToMap, not_or] at hnotMem
    rw [itemsOf_concat_of_notMem hnotMem.2]
    exact hinv.known seqId hnotMem.1
  · intro seqId
    have hstreamed := (hafter seqId).streamed
    rw [hview] at hstreamed
    rw [released_append, released_filter, released_eq_visible seqId popped]
    exact hstreamed.pop
  · intro c hc heos
    have hwaiting := (hafter c.seqId).waiting c hc rfl heos
    rw [hview] at hwaiting
    exact hwaiting.of_append.1
  · intro hended c hc
    cases kept with
    | nil => rfl
    | cons cache kept =>
      have hready := (hafter c.seqId).ready c hc rfl (hended c hc)
      have hcutFrom := (hafter c.seqId).streamed.cutFrom
      rw [hview] at hready hcutFrom
      exact visible_eq_nil (fun row hrow => hready row (List.mem_append_left _ hrow))
        ((cutFrom_append _).mp hcutFrom).1 (hrows c hc) (hheld cache kept rfl)

end MindieLLM.StreamCache
