import MindieLLM.Program.Utf16
import Mathlib.Data.Int.Notation

/-!
# Streaming with stop words

A stop string may begin in text of earlier rounds, so a request with stop words holds the texts of
its rounds back in a cache. A round is ready for a sequence when enough text has come after it, or
when the sequence has ended; the end may cut the text in one of the rounds held. A round goes out as
a whole, with the texts of all its sequences, as soon as it is ready for one of them.

## Main definitions

* `SequenceState`, `BestNTokens`, `CacheRow`, `InferInterface`: what is kept of a sequence, the
  input of a round, and the entries of a cache for one sequence
* `convertTokenToMap`: what a round changes before the cache is looked at
* `truncationLoop`, `processStreamCacheTruncationId`: the cut
* `markRow`, `processStreamCacheWindowSize`: the window
* `getAvailableOutputCache`: the rounds that go out

## Main results

* `truncationLoop_view`: the cut of a sequence sees and changes only what is its own
* `view_markCaches`: the passes over the cache, for one sequence
-/

namespace MindieLLM

open Program

namespace StreamCache

/-! ## The data -/

inductive InferStatusType
  | iterationContinue
  | endOfSentence
  | abort
  | executeError
  | illegalInput
  | reachMaxSeqLen
  | reachMaxOutputLen
  | pullKvError
  | releaseKvComplete
  deriving DecidableEq, Repr

/-- `GetFinishReasonStr` -/
def getFinishReasonStr : InferStatusType → String
  | .endOfSentence => "eos_token"
  | .abort | .executeError | .illegalInput => "stop_sequence"
  | .reachMaxSeqLen | .reachMaxOutputLen => "length"
  | _ => "invalid finishReason"

variable {Rest : Type}

/-- The entries of the maps of the interface for one sequence. The maps that are only copied are the
`rest`. -/
structure SequenceState (Rest : Type) where
  seqId : ℕ
  eos : InferStatusType
  truncationId : ℤ
  postSingleText : List Char
  fullText : List Char
  finishReason : String
  rest : Rest

/-- What a response has for one sequence, with the text that the tokenizer makes of its tokens. -/
structure BestNTokens (Rest : Type) where
  seqId : ℕ
  text : List Char
  finishReason : InferStatusType
  truncationIndex : ℤ
  fullText : List Char
  rest : Rest

/-- The entries of the maps of a `StreamCache` for one sequence; `canOutput` may have none. -/
structure CacheRow (Rest : Type) where
  seqId : ℕ
  eos : InferStatusType
  postSingleText : List Char
  u16TokenText : List Char
  fullText : List Char
  finishReason : String
  rest : Rest
  canOutput : Option Bool

/-- A `StreamCache`: what has been kept of a round. -/
abbrev Cache (Rest : Type) := List (CacheRow Rest)

structure InferInterface (Rest : Type) where
  sequences : List (SequenceState Rest)
  streamCache : List (Cache Rest)

/-- The interface of a new request. -/
def InferInterface.new : InferInterface Rest := ⟨[], []⟩

/-! ## The maps of a round -/

def SequenceState.ofTokens (item : BestNTokens Rest) (finishReason : String) :
    SequenceState Rest where
  seqId := item.seqId
  eos := item.finishReason
  truncationId := item.truncationIndex
  postSingleText := item.text
  fullText := item.fullText
  finishReason :=
    if item.finishReason = .iterationContinue then finishReason
    else getFinishReasonStr item.finishReason
  rest := item.rest

/-- What a round changes for a sequence that is known. -/
def SequenceState.next (decodeResult : List (BestNTokens Rest)) (c : SequenceState Rest) :
    SequenceState Rest :=
  match decodeResult.find? fun item => item.seqId = c.seqId with
  | some item => .ofTokens item c.finishReason
  | none => { c with postSingleText := [] }

/-- `ConvertTokenToMap` and the texts of `ProcessResponseStream`. A sequence that has not ended and
is not in the response is forgotten. -/
def convertTokenToMap (decodeResult : List (BestNTokens Rest))
    (sequences : List (SequenceState Rest)) : List (SequenceState Rest) :=
  let known := sequences.filter fun c =>
    c.eos ≠ .iterationContinue ∨ c.seqId ∈ decodeResult.map BestNTokens.seqId
  let new := decodeResult.filter fun item => item.seqId ∉ sequences.map SequenceState.seqId
  known.map (SequenceState.next decodeResult) ++ new.map fun item => .ofTokens item ""

/-! ## The cache -/

def CacheRow.ofSequence (c : SequenceState Rest) : CacheRow Rest where
  seqId := c.seqId
  eos := c.eos
  postSingleText := c.postSingleText
  u16TokenText := c.postSingleText
  fullText := c.fullText
  finishReason := c.finishReason
  rest := c.rest
  canOutput := some false

/-- `PushLatestCache`; a text always has a form in UTF-16. -/
def pushLatestCache (sequences : List (SequenceState Rest)) (streamCache : List (Cache Rest)) :
    List (Cache Rest) :=
  streamCache ++ [sequences.map .ofSequence]

/-- The entries for a sequence. -/
def row? (seqId : ℕ) (cache : Cache Rest) : Option (CacheRow Rest) :=
  cache.find? fun row => row.seqId = seqId

/-- Change the entries of a sequence. -/
def mapRow (seqId : ℕ) (f : CacheRow Rest → CacheRow Rest) (cache : Cache Rest) : Cache Rest :=
  cache.map fun row => if row.seqId = seqId then f row else row

/-- The sequence has ended before this round. -/
def CacheRow.erase (row : CacheRow Rest) : CacheRow Rest := { row with canOutput := none }

/-- A round after the cut gets what the round of the cut has. -/
def CacheRow.copy (source row : CacheRow Rest) : CacheRow Rest :=
  { source with
    seqId := row.seqId
    u16TokenText := row.u16TokenText
    canOutput := none }

/-- The round of the cut: the text is cut, and the end of the sequence is moved here. -/
def CacheRow.cut (row latest : CacheRow Rest) (text : List Char) : CacheRow Rest :=
  { row with
    postSingleText := text
    eos := latest.eos
    fullText := latest.fullText
    finishReason := latest.finishReason
    canOutput := some true }

/-- The loop of `ProcessStreamCacheTruncationId` for one sequence, from the latest round back. The
rounds that it has visited are in order. -/
def truncationLoop (seqId : ℕ) (truncationIndex : ℤ) (latest : CacheRow Rest) :
    ℤ → List (Cache Rest) → List (Cache Rest) → Option (List (Cache Rest))
  | _, visited, [] => some visited
  | restTruncation, visited, cache :: older =>
    match row? seqId cache with
    | none => truncationLoop seqId truncationIndex latest restTruncation (cache :: visited) older
    | some row =>
      if truncationIndex ≥ 0 ∨ restTruncation ≥ 0 then
        truncationLoop seqId truncationIndex latest restTruncation (cache :: visited) older
      else if restTruncation.natAbs > utf16Len row.u16TokenText then
        truncationLoop seqId truncationIndex latest (restTruncation + utf16Len row.u16TokenText)
          (mapRow seqId CacheRow.erase cache :: visited) older
      else do
        let text ← cutUnits (utf16Len row.u16TokenText + restTruncation).toNat row.u16TokenText
        let source := row.cut latest text
        truncationLoop seqId truncationIndex latest (restTruncation + utf16Len row.u16TokenText)
          (mapRow seqId (fun _ => source) cache ::
            visited.map (mapRow seqId (CacheRow.copy source))) older

def truncateSequence (latestData : Cache Rest) (c : SequenceState Rest)
    (streamCache : List (Cache Rest)) : Option (List (Cache Rest)) :=
  let latest := (row? c.seqId latestData).getD (.ofSequence c)
  truncationLoop c.seqId c.truncationId latest c.truncationId [] streamCache.reverse

def processStreamCacheTruncationId (sequences : List (SequenceState Rest))
    (streamCache : List (Cache Rest)) : Option (List (Cache Rest)) :=
  match streamCache.getLast? with
  | none => some streamCache
  | some latestData =>
    sequences.foldlM (fun streamCache c => truncateSequence latestData c streamCache) streamCache

/-- What `ProcessStreamCacheWindowSize` keeps for a sequence while it goes back. -/
structure Mark where
  windowSize : Option ℤ
  ignoreAndMarkTrue : Bool

def Mark.new : Mark := ⟨none, false⟩

/-- One round for one sequence. -/
def markRow (windowSize : ℕ) (mark : Mark) (row : CacheRow Rest) : Mark × CacheRow Rest :=
  match row.canOutput with
  | none => (mark, row)
  | some _ =>
    if mark.ignoreAndMarkTrue then (mark, { row with canOutput := some true })
    else
      let left := mark.windowSize.getD windowSize - utf16Len row.u16TokenText
      if row.eos ≠ .iterationContinue then
        (⟨some left, true⟩, { row with canOutput := some true })
      else (⟨some left, left ≤ 0⟩, row)

/-- The loop over the rounds, from the latest one back. A round has a sequence at most once. -/
def markCaches (windowSize : ℕ) : (ℕ → Mark) → List (Cache Rest) → List (Cache Rest)
  | _, [] => []
  | marks, cache :: older =>
    let marks' := fun seqId => match row? seqId cache with
      | none => marks seqId
      | some row => (markRow windowSize (marks seqId) row).1
    (cache.map fun row => (markRow windowSize (marks row.seqId) row).2) ::
      markCaches windowSize marks' older

def processStreamCacheWindowSize (windowSize : ℕ) (streamCache : List (Cache Rest)) :
    List (Cache Rest) :=
  (markCaches windowSize (fun _ => .new) streamCache.reverse).reverse

/-- Some sequence can be returned in this round, or has ended. -/
def hasOutputReadyOrFinished (cache : Cache Rest) : Bool :=
  cache.any fun row =>
    match row.canOutput with
    | none => false
    | some canOut => canOut || row.eos ≠ .iterationContinue

def canOutputEmpty (cache : Cache Rest) : Bool := cache.all fun row => row.canOutput.isNone

/-- `GetAvailableOutputCache`: the rounds that go out, and the cache that is left. -/
def getAvailableOutputCache (hasStopWords : Bool) (windowSize : ℕ) (i : InferInterface Rest) :
    Option (List (Cache Rest) × InferInterface Rest) := do
  let streamCache ← processStreamCacheTruncationId i.sequences
    (pushLatestCache i.sequences i.streamCache)
  let streamCache := processStreamCacheWindowSize windowSize streamCache
  if hasStopWords then
    let popped := streamCache.takeWhile hasOutputReadyOrFinished
    return (popped.filter fun cache => !canOutputEmpty cache,
      { i with streamCache := streamCache.drop popped.length })
  else
    return (streamCache.take 1, { i with streamCache := streamCache.drop 1 })

/-- One response to a request with stop words. -/
def processResponseStream (windowSize : ℕ) (decodeResult : List (BestNTokens Rest))
    (i : InferInterface Rest) : Option (List (Cache Rest) × InferInterface Rest) :=
  getAvailableOutputCache true windowSize
    { i with sequences := convertTokenToMap decodeResult i.sequences }

/-- The responses of a request: all rounds that go out, and the interface after the last one. -/
def run (windowSize : ℕ) : List (List (BestNTokens Rest)) → InferInterface Rest →
    Option (List (Cache Rest) × InferInterface Rest)
  | [], i => some ([], i)
  | decodeResult :: later, i => do
    let (out, i) ← processResponseStream windowSize decodeResult i
    let (out', i) ← run windowSize later i
    return (out ++ out', i)

/-! ## One sequence of the cache -/

/-- The rounds of a sequence. -/
abbrev View (Rest : Type) := List (Option (CacheRow Rest))

def view (seqId : ℕ) (streamCache : List (Cache Rest)) : View Rest := streamCache.map (row? seqId)

@[simp] theorem view_nil (seqId : ℕ) : view seqId ([] : List (Cache Rest)) = [] := rfl

@[simp] theorem view_cons (seqId : ℕ) (cache : Cache Rest) (streamCache : List (Cache Rest)) :
    view seqId (cache :: streamCache) = row? seqId cache :: view seqId streamCache := rfl

@[simp] theorem view_append (seqId : ℕ) (l r : List (Cache Rest)) :
    view seqId (l ++ r) = view seqId l ++ view seqId r := List.map_append

@[simp] theorem view_reverse (seqId : ℕ) (l : List (Cache Rest)) :
    view seqId l.reverse = (view seqId l).reverse := List.map_reverse

theorem seqId_of_row? {seqId : ℕ} {cache : Cache Rest} {row : CacheRow Rest}
    (h : row? seqId cache = some row) : row.seqId = seqId := by
  have := List.find?_some h
  simpa using this

/-- A change of rows that keeps their sequences. -/
theorem row?_map {seqId : ℕ} {cache : Cache Rest} {f : CacheRow Rest → CacheRow Rest}
    (hf : ∀ row, (f row).seqId = row.seqId) :
    row? seqId (cache.map f) = (row? seqId cache).map f := by
  unfold row?
  rw [List.find?_map]
  congr 2
  funext row
  simp only [Function.comp_apply, hf]

theorem row?_mapRow_self {seqId : ℕ} {cache : Cache Rest} {f : CacheRow Rest → CacheRow Rest}
    (hf : ∀ row, row.seqId = seqId → (f row).seqId = seqId) :
    row? seqId (mapRow seqId f cache) = (row? seqId cache).map f := by
  rw [mapRow, row?_map fun row => by split_ifs with h; exacts [(hf row h).trans h.symm, rfl]]
  refine Option.map_congr fun row hrow => ?_
  rw [if_pos (seqId_of_row? hrow)]

theorem row?_mapRow_ne {seqId other : ℕ} {cache : Cache Rest} {f : CacheRow Rest → CacheRow Rest}
    (hne : seqId ≠ other) (hf : ∀ row, row.seqId = other → (f row).seqId = other) :
    row? seqId (mapRow other f cache) = row? seqId cache := by
  rw [mapRow, row?_map fun row => by split_ifs with h; exacts [(hf row h).trans h.symm, rfl]]
  have hid : ∀ row ∈ row? seqId cache, (if row.seqId = other then f row else row) = row :=
    fun row hrow => if_neg fun h => hne ((seqId_of_row? hrow).symm.trans h)
  rw [Option.map_congr hid]
  exact Option.map_id'

/-! ### The cut -/

/-- The loop of the cut, for the rows of the sequence. -/
def truncationRows (truncationIndex : ℤ) (latest : CacheRow Rest) :
    ℤ → View Rest → View Rest → Option (View Rest)
  | _, visited, [] => some visited
  | restTruncation, visited, none :: older =>
    truncationRows truncationIndex latest restTruncation (none :: visited) older
  | restTruncation, visited, some row :: older =>
    if truncationIndex ≥ 0 ∨ restTruncation ≥ 0 then
      truncationRows truncationIndex latest restTruncation (some row :: visited) older
    else if restTruncation.natAbs > utf16Len row.u16TokenText then
      truncationRows truncationIndex latest (restTruncation + utf16Len row.u16TokenText)
        (some row.erase :: visited) older
    else do
      let text ← cutUnits (utf16Len row.u16TokenText + restTruncation).toNat row.u16TokenText
      let source := row.cut latest text
      truncationRows truncationIndex latest (restTruncation + utf16Len row.u16TokenText)
        (some source :: visited.map (Option.map (CacheRow.copy source))) older

theorem view_map_mapRow {seqId : ℕ} {l : List (Cache Rest)} {f : CacheRow Rest → CacheRow Rest}
    (hf : ∀ row, row.seqId = seqId → (f row).seqId = seqId) :
    view seqId (l.map (mapRow seqId f)) = (view seqId l).map (Option.map f) := by
  unfold view
  rw [List.map_map, List.map_map]
  exact List.map_congr_left fun cache _ => row?_mapRow_self hf

/-- The cut of a sequence, seen from the sequence. -/
theorem truncationLoop_view (seqId : ℕ) (truncationIndex : ℤ) (latest : CacheRow Rest)
    (restTruncation : ℤ) (visited older : List (Cache Rest)) :
    (truncationLoop seqId truncationIndex latest restTruncation visited older).map (view seqId) =
      truncationRows truncationIndex latest restTruncation (view seqId visited)
        (view seqId older) := by
  induction older generalizing restTruncation visited with
  | nil => rfl
  | cons cache older ih =>
    rw [view_cons, truncationLoop]
    cases hrow : row? seqId cache with
    | none => rw [truncationRows, ih, view_cons, hrow]
    | some row =>
      dsimp only
      rw [truncationRows]
      split_ifs
      · rw [ih, view_cons, hrow]
      · rw [ih, view_cons, row?_mapRow_self (f := CacheRow.erase) fun _ h => h, hrow]
        rfl
      · cases cutUnits (utf16Len row.u16TokenText + restTruncation).toNat row.u16TokenText with
        | none => rfl
        | some text =>
          have hid : (row.cut latest text).seqId = seqId := (seqId_of_row? hrow : row.seqId = seqId)
          simp only [Option.bind_eq_bind, Option.bind_some]
          rw [ih, view_cons, view_map_mapRow (f := CacheRow.copy _) fun _ h => h,
            row?_mapRow_self (f := fun _ => row.cut latest text) fun _ _ => hid, hrow]
          rfl

/-- The cut of a sequence, seen from another one. -/
theorem truncationLoop_view_ne {seqId other : ℕ} (hne : seqId ≠ other) {truncationIndex : ℤ}
    {latest : CacheRow Rest} {restTruncation : ℤ} {visited older result : List (Cache Rest)}
    (h : truncationLoop other truncationIndex latest restTruncation visited older = some result) :
    view seqId result = view seqId (older.reverse ++ visited) := by
  induction older generalizing restTruncation visited with
  | nil =>
    cases h
    rfl
  | cons cache older ih =>
    rw [truncationLoop] at h
    rw [List.reverse_cons, List.append_assoc, List.singleton_append]
    cases hrow : row? other cache with
    | none =>
      rw [hrow] at h
      exact ih h
    | some row =>
      rw [hrow] at h
      dsimp only at h
      split_ifs at h
      · exact ih h
      · rw [ih h, view_append, view_cons, row?_mapRow_ne (f := CacheRow.erase) hne fun _ h => h]
        simp
      · obtain ⟨text, -, h⟩ := Option.bind_eq_some_iff.mp h
        have hid : (row.cut latest text).seqId = other := (seqId_of_row? hrow : row.seqId = other)
        rw [ih h, view_append, view_cons,
          row?_mapRow_ne (f := fun _ => row.cut latest text) hne fun _ _ => hid]
        have hvisited : view seqId
            (visited.map (mapRow other (CacheRow.copy (row.cut latest text)))) =
            view seqId visited := by
          unfold view
          rw [List.map_map]
          exact List.map_congr_left fun cache _ =>
            row?_mapRow_ne (f := CacheRow.copy _) hne fun _ h => h
        rw [hvisited]
        simp

/-- The cut of a sequence, from the latest row back. -/
def truncateRows (truncationIndex : ℤ) (latest : CacheRow Rest) (rows : View Rest) :
    Option (View Rest) :=
  truncationRows truncationIndex latest truncationIndex [] rows.reverse

theorem truncateSequence_view (latestData : Cache Rest) (c : SequenceState Rest)
    (streamCache : List (Cache Rest)) :
    (truncateSequence latestData c streamCache).map (view c.seqId) =
      truncateRows c.truncationId ((row? c.seqId latestData).getD (.ofSequence c))
        (view c.seqId streamCache) := by
  rw [truncateSequence, truncationLoop_view, view_reverse]
  rfl

theorem truncateSequence_view_ne {seqId : ℕ} {latestData : Cache Rest} {c : SequenceState Rest}
    {streamCache result : List (Cache Rest)} (hne : seqId ≠ c.seqId)
    (h : truncateSequence latestData c streamCache = some result) :
    view seqId result = view seqId streamCache := by
  rw [truncationLoop_view_ne hne h, List.reverse_reverse, List.append_nil]

/-- The loop does nothing where there is nothing to cut off. -/
theorem truncationRows_of_nonneg {truncationIndex restTruncation : ℤ}
    (h : 0 ≤ truncationIndex ∨ 0 ≤ restTruncation) (latest : CacheRow Rest)
    (visited older : View Rest) :
    truncationRows truncationIndex latest restTruncation visited older =
      some (older.reverse ++ visited) := by
  induction older generalizing visited with
  | nil => rfl
  | cons row older ih =>
    cases row with
    | none =>
      rw [truncationRows, ih]
      simp
    | some row =>
      rw [truncationRows, if_pos h, ih]
      simp

/-- A sequence without a cut. -/
theorem truncateRows_nonneg {truncationIndex : ℤ} (h : 0 ≤ truncationIndex)
    (latest : CacheRow Rest) (rows : View Rest) :
    truncateRows truncationIndex latest rows = some rows := by
  rw [truncateRows, truncationRows_of_nonneg (.inl h), List.reverse_reverse, List.append_nil]

/-- The cuts of all sequences: each of them is made as if it were alone. -/
theorem foldlM_truncateSequence {latestData : Cache Rest} {sequences : List (SequenceState Rest)}
    {streamCache : List (Cache Rest)} (hnodup : (sequences.map SequenceState.seqId).Nodup)
    {rows : ℕ → View Rest}
    (h : ∀ c ∈ sequences, truncateRows c.truncationId
      ((row? c.seqId latestData).getD (.ofSequence c)) (view c.seqId streamCache) =
        some (rows c.seqId)) :
    ∃ result, sequences.foldlM (fun streamCache c => truncateSequence latestData c streamCache)
        streamCache = some result ∧
      (∀ c ∈ sequences, view c.seqId result = rows c.seqId) ∧
      ∀ seqId ∉ sequences.map SequenceState.seqId, view seqId result = view seqId streamCache := by
  induction sequences generalizing streamCache with
  | nil => exact ⟨streamCache, rfl, fun _ hc => absurd hc List.not_mem_nil, fun _ _ => rfl⟩
  | cons c sequences ih =>
    rw [List.map_cons, List.nodup_cons] at hnodup
    have hfirst := h c List.mem_cons_self
    rw [← truncateSequence_view, Option.map_eq_some_iff] at hfirst
    obtain ⟨first, hrun, hview⟩ := hfirst
    have hne : ∀ c' ∈ sequences, c'.seqId ≠ c.seqId := fun c' hc' heq =>
      hnodup.1 (heq ▸ List.mem_map_of_mem hc')
    obtain ⟨result, hrest, hrows, hothers⟩ := @ih first hnodup.2 fun c' hc' => by
      rw [truncateSequence_view_ne (hne c' hc') hrun]
      exact h c' (List.mem_cons_of_mem _ hc')
    refine ⟨result, ?_, fun c' hc' => ?_, fun seqId hseqId => ?_⟩
    · rw [List.foldlM_cons, hrun]
      exact hrest
    · rcases List.mem_cons.mp hc' with rfl | hc'
      · rw [hothers _ hnodup.1, hview]
      · exact hrows c' hc'
    · rw [List.map_cons, List.mem_cons, not_or] at hseqId
      rw [hothers _ hseqId.2, truncateSequence_view_ne hseqId.1 hrun]

/-! ### The window -/

/-- The loop of the window, for the rows of a sequence. -/
def markRows (windowSize : ℕ) : Mark → View Rest → View Rest
  | _, [] => []
  | mark, none :: older => none :: markRows windowSize mark older
  | mark, some row :: older =>
    some (markRow windowSize mark row).2 ::
      markRows windowSize (markRow windowSize mark row).1 older

theorem markRow_seqId (windowSize : ℕ) (mark : Mark) (row : CacheRow Rest) :
    (markRow windowSize mark row).2.seqId = row.seqId := by
  unfold markRow
  split
  · rfl
  · split_ifs <;> rfl

theorem view_markCaches (windowSize seqId : ℕ) (marks : ℕ → Mark)
    (streamCache : List (Cache Rest)) :
    view seqId (markCaches windowSize marks streamCache) =
      markRows windowSize (marks seqId) (view seqId streamCache) := by
  induction streamCache generalizing marks with
  | nil => rfl
  | cons cache older ih =>
    rw [markCaches, view_cons, view_cons, ih,
      row?_map fun row => markRow_seqId windowSize (marks row.seqId) row]
    cases hrow : row? seqId cache with
    | none => rfl
    | some row =>
      rw [Option.map_some, markRows, seqId_of_row? hrow]

theorem view_processStreamCacheWindowSize (windowSize seqId : ℕ)
    (streamCache : List (Cache Rest)) :
    view seqId (processStreamCacheWindowSize windowSize streamCache) =
      (markRows windowSize .new (view seqId streamCache).reverse).reverse := by
  rw [processStreamCacheWindowSize, view_reverse, view_markCaches, view_reverse]

end StreamCache

end MindieLLM
