import MindieLLM.Program.ParallelCopies
import MindieLLM.Program.Reaches
import MindieLLM.Server.StreamCache
import Mathlib.Data.List.Induction

/-!
# The tables of a request in beam search

The endpoint keeps about thirty tables of a request, each with an entry for a sequence. In beam
search a round of decoding may give a sequence the history of another: each child in the response
names its parent. `ConvertTokenToMap` copies the entries of the parents to the children, clears the
sequences that were eliminated, and appends what the round has decoded.

Between two rounds the endpoint writes entries of sequences that are live, when it makes texts of
the tokens.

## Main definitions

* `Table`, `Tables`: the tables by their names in the source
* `dumpDecodeCache`, `clearUnusedDecodeCache`, `convertTokenToMap`: a round
* `DecodeRound`: the rounds that a beam search may have in a state
* `Follows`: the histories follow the parents, and nothing is left of eliminated sequences

## Main results

* `follows_convertTokenToMap`: in every run, a round that is `Covered` follows the parents
* `not_follows`: a sequence that was streamed and then eliminated leaves entries
-/

namespace MindieLLM.DecodeCache

open Program StreamCache

/-! ## The tables -/

abbrev SequenceId : Type := Int64

/-- The tables with an entry for a sequence. The two of `inputParam` windows are lists of tables. -/
inductive Table
  | respTokenMap
  | eosMap
  | probesMap
  | finishReasonMap
  | postTokenIdMap
  | logprobsTokensMap
  | logprobsMap
  | pickedLogprobMap
  | fullTextMap
  | postSingleTokenMap
  | truncationIdMap
  | reasoningContentFullTextMap
  | reasoningContentStreamMap
  | toolsCallObjectMap
  | toolsCallContentMap
  | toolsCallObjectStreamMap
  | toolsCallContentStreamMap
  | skipCurrentRoundMap
  | windowText
  | parsingContentFlag
  | windowJsonTextVec (i : ℕ)
  | windowJsonTextOut (i : ℕ)
  | prevDecodeIndex
  | currentDecodeIndex
  | postSingleText
  | respStreamStr
  | detokenizeExtraInfo
  | reasoningTokens
  | toolsCalled
  | updateIndexMap
  deriving DecidableEq

structure DetokenizeExtraInfo where
  isCurrentToolNameSent : Option Bool
  isCurrentArgumentSent : Option Bool
  currentToolId : Option ℤ
  isChatReq : Option Bool
  reqEnableReasoning : Option Bool
  toolCallsJson : Option String
  reasoningTokens : Option ℤ

/-- The entries of a table, where `Json` is what JSON values are. -/
abbrev Table.Value (Json : Type) : Table → Type
  | .respTokenMap | .postTokenIdMap | .logprobsTokensMap | .postSingleTokenMap => List ℤ
  | .eosMap => InferStatusType
  | .probesMap => Float
  | .logprobsMap | .pickedLogprobMap => List Float32
  | .truncationIdMap | .reasoningTokens => ℤ
  | .toolsCallObjectMap | .toolsCallObjectStreamMap => Json
  | .skipCurrentRoundMap | .toolsCalled | .updateIndexMap => Bool
  | .parsingContentFlag => Bool × Bool
  | .prevDecodeIndex | .currentDecodeIndex => UInt32
  | .detokenizeExtraInfo => Option DetokenizeExtraInfo
  | .finishReasonMap | .fullTextMap | .reasoningContentFullTextMap | .reasoningContentStreamMap
  | .toolsCallContentMap | .toolsCallContentStreamMap | .windowText | .windowJsonTextVec _
  | .windowJsonTextOut _ | .postSingleText | .respStreamStr => String

/-- The keys of the tables are the sequence ids without a sign. -/
abbrev Tables (Json : Type) : Type := (t : Table) → UInt64 → Option (t.Value Json)

/-- What a response has for one sequence. -/
structure BestNTokens where
  seqId : SequenceId
  parentSeqId : SequenceId
  finishReason : InferStatusType
  tokens : List ℤ
  cumLogprobs : Float
  logprob : List Float32
  logprobsTokens : List ℤ
  logprobs : List Float32
  truncationIndex : ℤ

def BestNTokens.key (item : BestNTokens) : UInt64 := item.seqId.toUInt64

def BestNTokens.parentKey (item : BestNTokens) : UInt64 := item.parentSeqId.toUInt64

variable {Json : Type}

/-! ## A round -/

/-- The tables that `DumpDecodeCache` copies. -/
def Table.dumped : Table → Bool
  | .respTokenMap | .eosMap | .probesMap | .finishReasonMap | .postTokenIdMap | .logprobsTokensMap
  | .logprobsMap | .pickedLogprobMap | .fullTextMap | .postSingleTokenMap | .truncationIdMap
  | .reasoningContentFullTextMap | .reasoningContentStreamMap | .toolsCallObjectMap
  | .toolsCallContentMap | .toolsCallObjectStreamMap | .toolsCallContentStreamMap
  | .skipCurrentRoundMap | .windowText | .parsingContentFlag | .windowJsonTextVec _
  | .windowJsonTextOut _ | .prevDecodeIndex | .currentDecodeIndex | .postSingleText
  | .respStreamStr => true
  | .detokenizeExtraInfo | .reasoningTokens | .toolsCalled | .updateIndexMap => false

/-- The tables that `ClearUnusedDecodeCache` clears. -/
def Table.cleared : Table → Bool
  | .respTokenMap | .eosMap | .probesMap | .finishReasonMap | .postTokenIdMap | .logprobsTokensMap
  | .logprobsMap | .pickedLogprobMap | .fullTextMap | .postSingleTokenMap
  | .reasoningContentFullTextMap | .reasoningContentStreamMap | .toolsCallObjectMap
  | .toolsCallContentMap | .toolsCallObjectStreamMap | .toolsCallContentStreamMap
  | .skipCurrentRoundMap | .windowText | .parsingContentFlag | .windowJsonTextVec _
  | .windowJsonTextOut _ | .truncationIdMap | .prevDecodeIndex | .currentDecodeIndex
  | .postSingleText | .respStreamStr => true
  | .detokenizeExtraInfo | .reasoningTokens | .toolsCalled | .updateIndexMap => false

/-- The copies of `DumpDecodeCache`: from the parent to its first child, from there to the others.
-/
def dumpPairs : List (UInt64 × List UInt64) → List (UInt64 × UInt64)
  | [] => []
  | (_, []) :: rest => dumpPairs rest
  | (parentSeqId, first :: siblings) :: rest =>
    (parentSeqId, first) :: siblings.map (fun seqId => (first, seqId)) ++ dumpPairs rest

def dumpDecodeCache (currentSeqIds : List (UInt64 × List UInt64)) (maps : Tables Json) :
    Tables Json :=
  fun t => if t.dumped then copyAll (dumpPairs currentSeqIds) (maps t) else maps t

/-- Do not meet eos but be eliminated. -/
def unUsed (maps : Tables Json) (usedSeqIds : List UInt64) (seqId : UInt64) : Bool :=
  (maps .respTokenMap seqId).isSome &&
    (maps .eosMap seqId).getD .iterationContinue == .iterationContinue && seqId ∉ usedSeqIds

/-- The look at `eosMap` makes an entry for each sequence that has none. -/
def clearUnusedDecodeCache (usedSeqIds : List UInt64) (maps : Tables Json) : Tables Json :=
  fun t seqId =>
    if t.cleared ∧ unUsed maps usedSeqIds seqId then none
    else
      match t with
      | .eosMap =>
        if (maps .respTokenMap seqId).isSome then
          some ((maps .eosMap seqId).getD .iterationContinue)
        else
          maps .eosMap seqId
      | t => maps t seqId

/-- `map[key].emplace_back(seqId)` in a map that is ordered by its keys. -/
def emplaceBack (key seqId : UInt64) : List (UInt64 × List UInt64) → List (UInt64 × List UInt64)
  | [] => [(key, [seqId])]
  | (k, seqIds) :: rest =>
    if key = k then (k, seqIds ++ [seqId]) :: rest
    else if key < k then (key, [seqId]) :: (k, seqIds) :: rest
    else (k, seqIds) :: emplaceBack key seqId rest

def seqIdMap (items : List BestNTokens) : List (UInt64 × List UInt64) :=
  items.foldl (fun m item => emplaceBack item.parentKey item.key m) []

/-- `emplace_back` for each of some values; without any, no entry is made. -/
def emplaceAll {α : Type} (values : List α) (entry : Option (List α)) : Option (List α) :=
  if values.isEmpty then entry else some (entry.getD [] ++ values)

@[simp] theorem getD_emplaceAll {α : Type} (values : List α) (entry : Option (List α)) :
    (emplaceAll values entry).getD [] = entry.getD [] ++ values := by
  unfold emplaceAll
  split
  · next h => simp [List.isEmpty_iff.mp h]
  · rfl

/-- What the round has decoded for a sequence, after the entry that the table has for it. -/
def appendEntry (item : BestNTokens) : (t : Table) → Option (t.Value Json) → Option (t.Value Json)
  | .respTokenMap, entry => some (entry.getD [] ++ item.tokens)
  | .logprobsMap, entry => emplaceAll item.logprobs entry
  | .logprobsTokensMap, entry => emplaceAll item.logprobsTokens entry
  | .pickedLogprobMap, entry => emplaceAll item.logprob entry
  | .eosMap, _ => some item.finishReason
  | .probesMap, _ => some item.cumLogprobs
  | .truncationIdMap, _ => some item.truncationIndex
  | _, entry => entry

def appendTokens (maps : Tables Json) (item : BestNTokens) : Tables Json :=
  fun t => Function.update (maps t) item.key (appendEntry item t (maps t item.key))

def SPECIAL_SEQ_ID_PRESET : UInt64 := 0

/-- Abort all sequences once there is an illegal input. -/
def abortAll (maps : Tables Json) : Tables Json
  | .eosMap, seqId =>
    (maps .eosMap seqId).map fun finishReason =>
      if finishReason = .iterationContinue then .abort else finishReason
  | .respTokenMap, seqId =>
    if maps .eosMap seqId = some .iterationContinue then
      some ((maps .respTokenMap seqId).getD [] ++ [-1])
    else
      maps .respTokenMap seqId
  | t, seqId => maps t seqId

/-- The copies of a round: from the preset sequence, to stopped beams, to the others. -/
def dumpHistories (maps : Tables Json) (decodeResult : List BestNTokens) : Tables Json :=
  let maps :=
    if (maps .respTokenMap SPECIAL_SEQ_ID_PRESET).isSome then
      dumpDecodeCache [(SPECIAL_SEQ_ID_PRESET, decodeResult.map BestNTokens.key)] maps
    else
      maps
  -- a comparison with a sign: no id is larger than the largest one
  let stopped := decodeResult.filter fun item => item.seqId > Int64.maxValue
  let beams := decodeResult.filter fun item => ¬item.seqId > Int64.maxValue
  dumpDecodeCache (seqIdMap beams) (dumpDecodeCache (seqIdMap stopped) maps)

def convertTokenToMap (maps : Tables Json) (decodeResult : List BestNTokens) : Tables Json :=
  if decodeResult.any fun item => item.finishReason == .illegalInput then
    abortAll maps
  else
    let usedSeqIds := decodeResult.map BestNTokens.key
    let maps := clearUnusedDecodeCache usedSeqIds (dumpHistories maps decodeResult)
    decodeResult.foldl appendTokens maps

/-! ## Rounds of a beam search -/

/-- Only the preset sequence is live. -/
def FirstRound (maps : Tables Json) : Prop :=
  ∀ seqId, seqId ≠ SPECIAL_SEQ_ID_PRESET → maps .respTokenMap seqId = none

/-- A round that a beam search may have: the children are distinct, and after the first round their
parents are live; a child that is live is its own child, or it is nobody's parent. -/
structure DecodeRound (maps : Tables Json) (decodeResult : List BestNTokens) : Prop where
  legal : ∀ item ∈ decodeResult, item.finishReason ≠ .illegalInput
  nodup : (decodeResult.map BestNTokens.key).Nodup
  key_ne : ∀ item ∈ decodeResult, item.key ≠ SPECIAL_SEQ_ID_PRESET
  parents : FirstRound maps ∨ ∀ item ∈ decodeResult,
    (maps .respTokenMap item.parentKey).isSome ∧
      ((maps .respTokenMap item.key).isSome →
        item.key = item.parentKey ∨ ∀ other ∈ decodeResult, other.parentKey ≠ item.key)

/-- The sequence whose history a child continues: in the first round the preset one, if there is
one. -/
def parentOf (maps : Tables Json) (item : BestNTokens) : UInt64 :=
  if (maps .respTokenMap SPECIAL_SEQ_ID_PRESET).isSome then SPECIAL_SEQ_ID_PRESET
  else item.parentKey

/-- A live sequence that has not ended and has no part in the round. -/
def Eliminated (maps : Tables Json) (decodeResult : List BestNTokens) (seqId : UInt64) : Prop :=
  (maps .respTokenMap seqId).isSome ∧
    (maps .eosMap seqId).getD .iterationContinue = .iterationContinue ∧
    seqId ∉ decodeResult.map BestNTokens.key

/-- The tables of the texts and what belongs to them: a round only copies them. -/
def Table.inherited : Table → Bool
  | .respTokenMap | .logprobsMap | .logprobsTokensMap | .pickedLogprobMap => false
  | .eosMap | .probesMap | .truncationIdMap => false
  | t => t.dumped

/-- **The histories follow the parents**, from the tables before a round to those after it. -/
structure Follows (maps maps' : Tables Json) (decodeResult : List BestNTokens) : Prop where
  tokens : ∀ item ∈ decodeResult, (maps' .respTokenMap item.key).getD [] =
    (maps .respTokenMap (parentOf maps item)).getD [] ++ item.tokens
  logprobs : ∀ item ∈ decodeResult, (maps' .logprobsMap item.key).getD [] =
    (maps .logprobsMap (parentOf maps item)).getD [] ++ item.logprobs
  logprobsTokens : ∀ item ∈ decodeResult, (maps' .logprobsTokensMap item.key).getD [] =
    (maps .logprobsTokensMap (parentOf maps item)).getD [] ++ item.logprobsTokens
  pickedLogprob : ∀ item ∈ decodeResult, (maps' .pickedLogprobMap item.key).getD [] =
    (maps .pickedLogprobMap (parentOf maps item)).getD [] ++ item.logprob
  texts : ∀ item ∈ decodeResult, ∀ t : Table, t.inherited → maps' t item.key =
    maps t (parentOf maps item)
  eliminated : ∀ seqId, Eliminated maps decodeResult seqId → ∀ t, maps' t seqId = none

/-- The tables whose entries a child continues. -/
def Table.history (t : Table) : Bool :=
  t.dumped && t != .eosMap && t != .probesMap && t != .truncationIdMap

/-- No child has an entry that its parent lacks, and no eliminated sequence has one in a table that
is not cleared. -/
structure Covered (maps : Tables Json) (decodeResult : List BestNTokens) : Prop where
  parents : ∀ item ∈ decodeResult, ∀ t : Table, t.history → maps t (parentOf maps item) = none →
    maps t item.key = none
  uncleared : ∀ seqId, Eliminated maps decodeResult seqId → ∀ t : Table, t.cleared = false →
    maps t seqId = none

/-! ## The parts of a round -/

theorem dumped_eq_cleared (t : Table) : t.dumped = t.cleared := by cases t <;> rfl

/-- Each group is the children of one parent, and each child is in its group. -/
structure Groups (items : List BestNTokens) (m : List (UInt64 × List UInt64)) : Prop where
  mem : ∀ group ∈ m, ∀ seqId ∈ group.2, ∃ item ∈ items, item.key = seqId ∧ item.parentKey = group.1
  exists_group : ∀ item ∈ items, ∃ group ∈ m, item.key ∈ group.2

theorem mem_emplaceBack {key seqId : UInt64} {m : List (UInt64 × List UInt64)}
    {group : UInt64 × List UInt64} (h : group ∈ emplaceBack key seqId m) {x : UInt64}
    (hx : x ∈ group.2) : (x = seqId ∧ group.1 = key) ∨ ∃ old ∈ m, x ∈ old.2 ∧ old.1 = group.1 := by
  induction m with
  | nil =>
    obtain rfl := List.mem_singleton.mp h
    exact .inl ⟨List.mem_singleton.mp hx, rfl⟩
  | cons old m ih =>
    obtain ⟨k, seqIds⟩ := old
    unfold emplaceBack at h
    split at h
    · next hkey =>
      obtain rfl | h := List.mem_cons.mp h
      · obtain hx | hx := List.mem_append.mp hx
        · exact .inr ⟨_, List.mem_cons_self, hx, rfl⟩
        · exact .inl ⟨List.mem_singleton.mp hx, hkey.symm⟩
      · exact .inr ⟨_, List.mem_cons_of_mem _ h, hx, rfl⟩
    · split at h
      · obtain rfl | h := List.mem_cons.mp h
        · exact .inl ⟨List.mem_singleton.mp hx, rfl⟩
        · exact .inr ⟨_, h, hx, rfl⟩
      · obtain rfl | h := List.mem_cons.mp h
        · exact .inr ⟨_, List.mem_cons_self, hx, rfl⟩
        · obtain hnew | ⟨old, hold, hmem⟩ := ih h
          · exact .inl hnew
          · exact .inr ⟨old, List.mem_cons_of_mem _ hold, hmem⟩

theorem exists_emplaceBack_self (key seqId : UInt64) (m : List (UInt64 × List UInt64)) :
    ∃ group ∈ emplaceBack key seqId m, seqId ∈ group.2 := by
  induction m with
  | nil => exact ⟨_, List.mem_cons_self, List.mem_cons_self⟩
  | cons old m ih =>
    unfold emplaceBack
    split
    · exact ⟨_, List.mem_cons_self, by simp⟩
    · split
      · exact ⟨_, List.mem_cons_self, List.mem_cons_self⟩
      · obtain ⟨group, hgroup, hmem⟩ := ih
        exact ⟨group, List.mem_cons_of_mem _ hgroup, hmem⟩

theorem exists_emplaceBack {key seqId x : UInt64} {m : List (UInt64 × List UInt64)}
    (h : ∃ group ∈ m, x ∈ group.2) : ∃ group ∈ emplaceBack key seqId m, x ∈ group.2 := by
  induction m with
  | nil =>
    obtain ⟨group, hgroup, -⟩ := h
    cases hgroup
  | cons old m ih =>
    obtain ⟨group, hgroup, hmem⟩ := h
    unfold emplaceBack
    obtain rfl | hgroup := List.mem_cons.mp hgroup
    · split
      · exact ⟨_, List.mem_cons_self, List.mem_append_left _ hmem⟩
      · split
        · exact ⟨_, List.mem_cons_of_mem _ List.mem_cons_self, hmem⟩
        · exact ⟨_, List.mem_cons_self, hmem⟩
    · split
      · exact ⟨_, List.mem_cons_of_mem _ hgroup, hmem⟩
      · split
        · exact ⟨_, List.mem_cons_of_mem _ (List.mem_cons_of_mem _ hgroup), hmem⟩
        · obtain ⟨group, hgroup, hmem⟩ := ih ⟨group, hgroup, hmem⟩
          exact ⟨group, List.mem_cons_of_mem _ hgroup, hmem⟩

theorem groups_seqIdMap (items : List BestNTokens) : Groups items (seqIdMap items) := by
  unfold seqIdMap
  induction items using List.reverseRecOn with
  | nil => exact ⟨nofun, nofun⟩
  | append_singleton items item ih =>
    rw [List.foldl_append, List.foldl_cons, List.foldl_nil]
    constructor
    · intro group hgroup seqId hseqId
      obtain ⟨rfl, hkey⟩ | ⟨old, hold, hmem, hkey⟩ := mem_emplaceBack hgroup hseqId
      · exact ⟨item, by simp, rfl, hkey.symm⟩
      · obtain ⟨item', hitem', hid, hparent⟩ := ih.mem old hold seqId hmem
        exact ⟨item', List.mem_append_left _ hitem', hid, hparent.trans hkey⟩
    · intro item' hitem'
      obtain hitem' | hitem' := List.mem_append.mp hitem'
      · exact exists_emplaceBack (ih.exists_group item' hitem')
      · obtain rfl := List.mem_singleton.mp hitem'
        exact exists_emplaceBack_self _ _ _

theorem mem_dumpPairs {m : List (UInt64 × List UInt64)} {x : UInt64} :
    x ∈ (dumpPairs m).map Prod.snd ↔ ∃ group ∈ m, x ∈ group.2 := by
  induction m with
  | nil => simp [dumpPairs]
  | cons group m ih =>
    obtain ⟨parentSeqId, _ | ⟨first, siblings⟩⟩ := group
    · simp [dumpPairs, ← ih]
    · have hsnd : (dumpPairs ((parentSeqId, first :: siblings) :: m)).map Prod.snd =
          (first :: siblings) ++ (dumpPairs m).map Prod.snd := by
        simp [dumpPairs, Function.comp_def]
      rw [hsnd, List.mem_append, ih]
      simp

/-- What is copied, when a group is for a parent. -/
theorem planned_dumpPairs {parent : UInt64 → UInt64} {m : List (UInt64 × List UInt64)}
    (h : ∀ group ∈ m, ∀ seqId ∈ group.2, parent seqId = group.1) (served : List UInt64) :
    Planned parent served (dumpPairs m) := by
  induction m generalizing served with
  | nil => trivial
  | cons group m ih =>
    have hrest := ih fun group hgroup => h group (List.mem_cons_of_mem _ hgroup)
    have hgroup := h group List.mem_cons_self
    obtain ⟨parentSeqId, _ | ⟨first, siblings⟩⟩ := group
    · exact hrest served
    · have hfirst := hgroup first List.mem_cons_self
      refine ⟨.inl hfirst.symm, ?_⟩
      refine planned_siblings List.mem_cons_self (fun k hk => ?_) fun served' _ => hrest served'
      rw [hfirst, hgroup k (List.mem_cons_of_mem _ hk)]

section Round

variable {maps : Tables Json} {decodeResult : List BestNTokens} {item : BestNTokens}
  {t : Table} {seqId : UInt64}

theorem targets_seqIdMap :
    seqId ∈ (dumpPairs (seqIdMap decodeResult)).map Prod.snd ↔
      seqId ∈ decodeResult.map BestNTokens.key := by
  have hgroups := groups_seqIdMap decodeResult
  rw [mem_dumpPairs, List.mem_map]
  constructor
  · rintro ⟨group, hgroup, hmem⟩
    obtain ⟨item, hitem, hkey, -⟩ := hgroups.mem group hgroup seqId hmem
    exact ⟨item, hitem, hkey⟩
  · rintro ⟨item, hitem, rfl⟩
    exact hgroups.exists_group item hitem

/-- No id is larger than the largest one. -/
theorem dumpHistories_eq (ht : t.dumped = true) :
    dumpHistories maps decodeResult t = copyAll (dumpPairs (seqIdMap decodeResult))
      (if (maps .respTokenMap SPECIAL_SEQ_ID_PRESET).isSome then
        copyAll (dumpPairs [(SPECIAL_SEQ_ID_PRESET, decodeResult.map BestNTokens.key)]) (maps t)
      else
        maps t) := by
  have hle : ∀ item : BestNTokens, ¬item.seqId > Int64.maxValue := by
    intro item hlt
    exact absurd (Int64.le_maxValue item.seqId) (Int64.not_le.mpr hlt)
  have hstopped : (decodeResult.filter fun item => item.seqId > Int64.maxValue) = [] := by
    simp [hle]
  have hbeams : (decodeResult.filter fun item => ¬item.seqId > Int64.maxValue) = decodeResult := by
    simp [hle]
  unfold dumpHistories
  have hnone : ∀ m : Tables Json, dumpDecodeCache (seqIdMap []) m t = m t := by
    intro m
    unfold dumpDecodeCache
    rw [if_pos ht]
    rfl
  simp only [hstopped, hbeams]
  rw [dumpDecodeCache, if_pos ht, hnone]
  split
  · rw [dumpDecodeCache, if_pos ht]
  · rfl

theorem dumpHistories_of_not_dumped (ht : t.dumped = false) :
    dumpHistories maps decodeResult t = maps t := by
  have hsame : ∀ (seqIds : List (UInt64 × List UInt64)) (m : Tables Json),
      dumpDecodeCache seqIds m t = m t := by
    intro seqIds m
    rw [dumpDecodeCache, ht, if_neg Bool.false_ne_true]
  unfold dumpHistories
  simp only [hsame]
  split
  · exact hsame _ _
  · rfl

theorem dumpHistories_of_not_mem (h : seqId ∉ decodeResult.map BestNTokens.key) :
    dumpHistories maps decodeResult t seqId = maps t seqId := by
  cases ht : t.dumped with
  | false => rw [dumpHistories_of_not_dumped ht]
  | true =>
    rw [dumpHistories_eq ht, copyAll_of_not_mem (fun hmem => h (targets_seqIdMap.mp hmem))]
    split
    · refine copyAll_of_not_mem fun hmem => h ?_
      obtain ⟨group, hgroup, hseqId⟩ := mem_dumpPairs.mp hmem
      obtain rfl := List.mem_singleton.mp hgroup
      exact hseqId
    · rfl

/-- What holds of the tables in every state of a run. -/
structure Inv (maps : Tables Json) : Prop where
  live : ∀ t : Table, t.cleared = true → ∀ seqId, maps .respTokenMap seqId = none →
    maps t seqId = none
  preset : (maps .respTokenMap SPECIAL_SEQ_ID_PRESET).isSome → FirstRound maps ∧
    (maps .eosMap SPECIAL_SEQ_ID_PRESET).getD .iterationContinue = .iterationContinue

/-- In the first round the preset sequence is the parent of all. -/
theorem copyAll_preset (hinv : Inv maps) (hround : DecodeRound maps decodeResult)
    (ht : t.cleared = true) (hpreset : (maps .respTokenMap SPECIAL_SEQ_ID_PRESET).isSome)
    (k : UInt64) :
    copyAll (dumpPairs [(SPECIAL_SEQ_ID_PRESET, decodeResult.map BestNTokens.key)]) (maps t) k =
      if k ∈ decodeResult.map BestNTokens.key then maps t SPECIAL_SEQ_ID_PRESET else maps t k := by
  have hkey_ne : ∀ k ∈ decodeResult.map BestNTokens.key, k ≠ SPECIAL_SEQ_ID_PRESET := by
    intro k hk
    obtain ⟨item, hitem, rfl⟩ := List.mem_map.mp hk
    exact hround.key_ne item hitem
  have htargets : ∀ x, x ∈ (dumpPairs [(SPECIAL_SEQ_ID_PRESET,
      decodeResult.map BestNTokens.key)]).map Prod.snd ↔ x ∈ decodeResult.map BestNTokens.key := by
    intro x
    simp [mem_dumpPairs]
  have hplan : Planned (fun _ => SPECIAL_SEQ_ID_PRESET) []
      (dumpPairs [(SPECIAL_SEQ_ID_PRESET, decodeResult.map BestNTokens.key)]) := by
    refine planned_dumpPairs (fun group hgroup seqId _ => ?_) []
    rw [List.mem_singleton.mp hgroup]
  rw [copyAll_of_planned (maps t) (decodeResult.map BestNTokens.key) hplan
    (fun op hop => (htargets _).mp (List.mem_map_of_mem hop)) (fun _ _ _ => rfl) ?_ nofun
    (fun _ => by simp)]
  · simp only [htargets, List.not_mem_nil, false_or]
  · intro k hk _
    exact hinv.live t ht k ((hinv.preset hpreset).1 k (hkey_ne k hk))

/-- The key of the parent of a child. -/
def parentKeyOf (decodeResult : List BestNTokens) (seqId : UInt64) : UInt64 :=
  ((decodeResult.find? fun item => item.key = seqId).map BestNTokens.parentKey).getD 0

theorem parentKeyOf_key (hnodup : (decodeResult.map BestNTokens.key).Nodup)
    (hitem : item ∈ decodeResult) : parentKeyOf decodeResult item.key = item.parentKey := by
  have hfind : decodeResult.find? (fun other => other.key = item.key) = some item := by
    induction decodeResult with
    | nil => cases hitem
    | cons first rest ih =>
      obtain ⟨hfirst, hrest⟩ := List.nodup_cons.mp hnodup
      obtain rfl | hmem := List.mem_cons.mp hitem
      · exact List.find?_cons_of_pos (by simp)
      · rw [List.find?_cons_of_neg, ih hrest hmem]
        intro hkey
        exact hfirst (List.mem_map.mpr ⟨item, hmem, (of_decide_eq_true hkey).symm⟩)
  rw [parentKeyOf, hfind]
  rfl

/-- **The copies of a round** give each child the entry of its parent. -/
theorem dumpHistories_key (hinv : Inv maps) (hround : DecodeRound maps decodeResult)
    (hitem : item ∈ decodeResult) (ht : t.dumped = true)
    (hparents : ∀ item ∈ decodeResult, maps t (parentOf maps item) = none →
      maps t item.key = none) :
    dumpHistories maps decodeResult t item.key = maps t (parentOf maps item) := by
  have hgroups := groups_seqIdMap decodeResult
  have hkey : item.key ∈ decodeResult.map BestNTokens.key := List.mem_map_of_mem hitem
  have hcleared : t.cleared = true := dumped_eq_cleared t ▸ ht
  rw [dumpHistories_eq ht]
  by_cases hpreset : (maps .respTokenMap SPECIAL_SEQ_ID_PRESET).isSome
  · -- all children have the same entry already, and no other parent has one
    have hm := copyAll_preset hinv hround hcleared hpreset
    rw [if_pos hpreset, copyAll_eq_self fun op hop => ?_, hm, if_pos hkey, parentOf, if_pos hpreset]
    have htarget := targets_seqIdMap.mp (List.mem_map_of_mem (f := Prod.snd) hop)
    rw [hm, hm, if_pos htarget]
    split
    · exact .inr rfl
    · next hsource =>
      by_cases hzero : op.1 = SPECIAL_SEQ_ID_PRESET
      · exact .inr (by rw [hzero])
      · exact .inl (hinv.live t hcleared _ ((hinv.preset hpreset).1 _ hzero))
  · rw [if_neg hpreset]
    simp only [parentOf, if_neg hpreset] at hparents ⊢
    obtain hfirst | hlive := hround.parents
    · -- nothing is live
      have hnone : ∀ k, maps t k = none := by
        intro k
        refine hinv.live t hcleared k ?_
        by_cases hk : k = SPECIAL_SEQ_ID_PRESET
        · subst hk
          simpa using hpreset
        · exact hfirst k hk
      rw [copyAll_eq_self fun op _ => .inl (hnone op.1), hnone, hnone]
    · have hparent : ∀ item ∈ decodeResult,
          parentKeyOf decodeResult item.key = item.parentKey := fun item hitem =>
        parentKeyOf_key hround.nodup hitem
      have hplan : Planned (parentKeyOf decodeResult) [] (dumpPairs (seqIdMap decodeResult)) := by
        refine planned_dumpPairs (fun group hgroup seqId hseqId => ?_) []
        obtain ⟨item', hitem', rfl, hgroup⟩ := hgroups.mem group hgroup seqId hseqId
        rw [hparent item' hitem', hgroup]
      rw [copyAll_of_planned (maps t) (decodeResult.map BestNTokens.key) hplan
        (fun op hop => targets_seqIdMap.mp (List.mem_map_of_mem hop)) ?_ ?_ (by simp)
        (fun _ => by simp), if_pos (.inr (targets_seqIdMap.mpr hkey)), hparent item hitem]
      · -- a parent that is a child is its own child
        intro k hk hmem
        obtain ⟨child, hchild, rfl⟩ := List.mem_map.mp hk
        rw [hparent child hchild] at hmem ⊢
        obtain ⟨own, hown, hownkey⟩ := List.mem_map.mp hmem
        obtain hself | hnone := (hlive own hown).2 (hownkey ▸ (hlive child hchild).1)
        · rw [← hownkey, hparent own hown, ← hself]
        · exact absurd hownkey.symm (hnone child hchild)
      · intro k hk hnone
        obtain ⟨child, hchild, rfl⟩ := List.mem_map.mp hk
        rw [hparent child hchild] at hnone
        exact hparents child hchild hnone

/-! ## What a round appends -/

theorem foldl_appendTokens_of_not_mem (m : Tables Json)
    (h : seqId ∉ decodeResult.map BestNTokens.key) :
    decodeResult.foldl appendTokens m t seqId = m t seqId := by
  induction decodeResult generalizing m with
  | nil => rfl
  | cons first rest ih =>
    rw [List.map_cons, List.mem_cons, not_or] at h
    rw [List.foldl_cons, ih _ h.2, appendTokens, Function.update_of_ne h.1]

theorem foldl_appendTokens_key (m : Tables Json)
    (hnodup : (decodeResult.map BestNTokens.key).Nodup) (hitem : item ∈ decodeResult) :
    decodeResult.foldl appendTokens m t item.key = appendEntry item t (m t item.key) := by
  induction decodeResult generalizing m with
  | nil => cases hitem
  | cons first rest ih =>
    obtain ⟨hfirst, hrest⟩ := List.nodup_cons.mp hnodup
    rw [List.foldl_cons]
    obtain rfl | hmem := List.mem_cons.mp hitem
    · rw [foldl_appendTokens_of_not_mem _ hfirst, appendTokens, Function.update_self]
    · have hne : item.key ≠ first.key := by
        intro hkey
        exact hfirst (hkey ▸ List.mem_map_of_mem hmem)
      rw [ih _ hrest hmem, appendTokens, Function.update_of_ne hne]

theorem convertTokenToMap_eq (hround : DecodeRound maps decodeResult) :
    convertTokenToMap maps decodeResult = decodeResult.foldl appendTokens
      (clearUnusedDecodeCache (decodeResult.map BestNTokens.key)
        (dumpHistories maps decodeResult)) := by
  unfold convertTokenToMap
  rw [if_neg]
  simpa using hround.legal

/-- A child has the entry that was copied to it, and what the round has decoded. -/
theorem convertTokenToMap_key (hround : DecodeRound maps decodeResult) (hitem : item ∈ decodeResult)
    (ht : t ≠ .eosMap) :
    convertTokenToMap maps decodeResult t item.key =
      appendEntry item t (dumpHistories maps decodeResult t item.key) := by
  rw [convertTokenToMap_eq hround, foldl_appendTokens_key _ hround.nodup hitem]
  have hused : unUsed (dumpHistories maps decodeResult) (decodeResult.map BestNTokens.key)
      item.key = false := by
    have hkey : item.key ∈ decodeResult.map BestNTokens.key := List.mem_map_of_mem hitem
    simp only [unUsed, hkey, not_true_eq_false, decide_false, Bool.and_false]
  have hclear : clearUnusedDecodeCache (decodeResult.map BestNTokens.key)
      (dumpHistories maps decodeResult) t item.key =
        dumpHistories maps decodeResult t item.key := by
    unfold clearUnusedDecodeCache
    rw [hused]
    cases t <;> first | rfl | exact absurd rfl ht
  rw [hclear]

theorem unUsed_dumpHistories (h : seqId ∉ decodeResult.map BestNTokens.key) :
    unUsed (dumpHistories maps decodeResult) (decodeResult.map BestNTokens.key) seqId = true ↔
      Eliminated maps decodeResult seqId := by
  unfold unUsed Eliminated
  rw [dumpHistories_of_not_mem h, dumpHistories_of_not_mem h]
  simp [h]

theorem convertTokenToMap_eliminated (hround : DecodeRound maps decodeResult)
    (h : Eliminated maps decodeResult seqId) (ht : t.cleared = true) :
    convertTokenToMap maps decodeResult t seqId = none := by
  have hkey := h.2.2
  rw [convertTokenToMap_eq hround, foldl_appendTokens_of_not_mem _ hkey]
  unfold clearUnusedDecodeCache
  rw [if_pos ⟨ht, (unUsed_dumpHistories hkey).mpr h⟩]

/-- A sequence that has no part in the round and is not cleared stays as it is. -/
theorem convertTokenToMap_of_not_mem (hround : DecodeRound maps decodeResult)
    (hkey : seqId ∉ decodeResult.map BestNTokens.key) (ht : t ≠ .eosMap)
    (h : ¬(t.cleared = true ∧ Eliminated maps decodeResult seqId)) :
    convertTokenToMap maps decodeResult t seqId = maps t seqId := by
  rw [convertTokenToMap_eq hround, foldl_appendTokens_of_not_mem _ hkey]
  unfold clearUnusedDecodeCache
  rw [if_neg (by rwa [unUsed_dumpHistories hkey])]
  cases t <;> first | exact dumpHistories_of_not_mem hkey | exact absurd rfl ht

/-- A sequence without tokens gets no entry. -/
theorem convertTokenToMap_eosMap_none (hround : DecodeRound maps decodeResult)
    (hkey : seqId ∉ decodeResult.map BestNTokens.key) (hnone : maps .respTokenMap seqId = none)
    (heos : maps .eosMap seqId = none) :
    convertTokenToMap maps decodeResult .eosMap seqId = none := by
  have hresp : dumpHistories maps decodeResult .respTokenMap seqId = maps .respTokenMap seqId :=
    dumpHistories_of_not_mem hkey
  have heos' : dumpHistories maps decodeResult .eosMap seqId = maps .eosMap seqId :=
    dumpHistories_of_not_mem hkey
  rw [convertTokenToMap_eq hround, foldl_appendTokens_of_not_mem _ hkey]
  unfold clearUnusedDecodeCache
  split
  · rfl
  · dsimp only
    rw [hresp, hnone, heos', heos]
    rfl

/-! ## Runs -/

theorem Inv.convertTokenToMap (hinv : Inv maps) (hround : DecodeRound maps decodeResult) :
    Inv (convertTokenToMap maps decodeResult) := by
  have hpreset : SPECIAL_SEQ_ID_PRESET ∉ decodeResult.map BestNTokens.key := by
    intro hmem
    obtain ⟨item, hitem, hkey⟩ := List.mem_map.mp hmem
    exact hround.key_ne item hitem hkey
  constructor
  · intro t ht seqId hnone
    by_cases hkey : seqId ∈ decodeResult.map BestNTokens.key
    · -- a child has tokens
      obtain ⟨item, hitem, rfl⟩ := List.mem_map.mp hkey
      rw [convertTokenToMap_key (t := .respTokenMap) hround hitem nofun] at hnone
      cases hnone
    · by_cases helim : Eliminated maps decodeResult seqId
      · exact convertTokenToMap_eliminated hround helim ht
      · rw [convertTokenToMap_of_not_mem (t := .respTokenMap) hround hkey nofun
          (fun h => helim h.2)] at hnone
        have hmaps := hinv.live t ht seqId hnone
        by_cases heos : t = .eosMap
        · subst heos
          exact convertTokenToMap_eosMap_none hround hkey hnone hmaps
        · rw [convertTokenToMap_of_not_mem hround hkey heos (fun h => helim h.2), hmaps]
  · intro hsome
    by_cases hlive : (maps .respTokenMap SPECIAL_SEQ_ID_PRESET).isSome
    · have helim : Eliminated maps decodeResult SPECIAL_SEQ_ID_PRESET :=
        ⟨hlive, (hinv.preset hlive).2, hpreset⟩
      rw [convertTokenToMap_eliminated hround helim rfl] at hsome
      cases hsome
    · rw [convertTokenToMap_of_not_mem (t := .respTokenMap) hround hpreset nofun
        (fun h => hlive h.2.1)] at hsome
      exact absurd hsome hlive

/-- **A round follows the parents.** -/
theorem follows_of_covered (hinv : Inv maps) (hround : DecodeRound maps decodeResult)
    (hcovered : Covered maps decodeResult) :
    Follows maps (convertTokenToMap maps decodeResult) decodeResult := by
  have hcopied : ∀ item ∈ decodeResult, ∀ t : Table, t.history = true →
      dumpHistories maps decodeResult t item.key = maps t (parentOf maps item) := by
    intro item hitem t ht
    have hdumped : t.dumped = true := by
      simp only [Table.history, Bool.and_eq_true] at ht
      exact ht.1.1.1
    exact dumpHistories_key hinv hround hitem hdumped fun item hitem =>
      hcovered.parents item hitem t ht
  constructor
  · intro item hitem
    rw [convertTokenToMap_key (t := .respTokenMap) hround hitem nofun, hcopied item hitem _ rfl]
    rfl
  · intro item hitem
    rw [convertTokenToMap_key (t := .logprobsMap) hround hitem nofun, hcopied item hitem _ rfl]
    exact getD_emplaceAll _ _
  · intro item hitem
    rw [convertTokenToMap_key (t := .logprobsTokensMap) hround hitem nofun,
      hcopied item hitem _ rfl]
    exact getD_emplaceAll _ _
  · intro item hitem
    rw [convertTokenToMap_key (t := .pickedLogprobMap) hround hitem nofun, hcopied item hitem _ rfl]
    exact getD_emplaceAll _ _
  · intro item hitem t ht
    have hhistory : t.history = true := by cases t <;> first | rfl | cases ht
    have heos : t ≠ .eosMap := by
      rintro rfl
      cases ht
    rw [convertTokenToMap_key hround hitem heos, hcopied item hitem t hhistory]
    cases t <;> first | rfl | cases ht
  · intro seqId helim t
    cases ht : t.cleared with
    | true => exact convertTokenToMap_eliminated hround helim ht
    | false =>
      have heos : t ≠ .eosMap := by
        rintro rfl
        cases ht
      rw [convertTokenToMap_of_not_mem hround helim.2.2 heos (by simp [ht])]
      exact hcovered.uncleared seqId helim t ht

end Round

/-- What happens to the tables of a request: a round, or a write to an entry of a live sequence. -/
inductive Action (Json : Type)
  | round (decodeResult : List BestNTokens)
  | write (t : Table) (seqId : UInt64) (entry : t.Value Json)

/-- Only rounds write `eosMap`. -/
def step (maps : Tables Json) : Action Json → Option (Tables Json)
  | .round decodeResult => some (convertTokenToMap maps decodeResult)
  | .write t seqId entry =>
    if (maps .respTokenMap seqId).isSome ∧ t ≠ .eosMap then
      some (Function.update maps t (Function.update (maps t) seqId (some entry)))
    else
      none

/-- The rounds of a run are rounds that a beam search may have. -/
def IsBeamSearch (maps : Tables Json) : Action Json → Prop
  | .round decodeResult => DecodeRound maps decodeResult
  | .write _ _ _ => True

/-- The tables of a request at its start: at most the preset sequence is live. -/
structure Initial (maps : Tables Json) : Prop where
  live : ∀ t seqId, maps .respTokenMap seqId = none → maps t seqId = none
  first : FirstRound maps
  eos : maps .eosMap SPECIAL_SEQ_ID_PRESET = none

theorem Inv.of_initial {maps : Tables Json} (h : Initial maps) : Inv maps :=
  ⟨fun t _ => h.live t, fun _ => ⟨h.first, by rw [h.eos]; rfl⟩⟩

theorem Inv.write {maps : Tables Json} (hinv : Inv maps) {t : Table} {seqId : UInt64}
    (entry : t.Value Json) (hlive : (maps .respTokenMap seqId).isSome) (ht : t ≠ .eosMap) :
    Inv (Function.update maps t (Function.update (maps t) seqId (some entry))) := by
  have hentry : ∀ t' x, Function.update maps t (Function.update (maps t) seqId (some entry)) t' x =
      none ↔ maps t' x = none ∧ ¬(t' = t ∧ x = seqId) := by
    intro t' x
    by_cases htable : t' = t
    · subst htable
      rw [Function.update_self]
      by_cases hx : x = seqId
      · subst hx
        simp
      · simp [hx]
    · simp [htable]
  have hnone : ∀ x, maps .respTokenMap x = none → x ≠ seqId := by
    rintro x hx rfl
    simp [hx] at hlive
  have hresp : ∀ x, Function.update maps t (Function.update (maps t) seqId (some entry))
      .respTokenMap x = none ↔ maps .respTokenMap x = none := by
    intro x
    rw [hentry]
    exact ⟨And.left, fun hx => ⟨hx, fun h => hnone x hx h.2⟩⟩
  constructor
  · intro t' ht' x hx
    rw [hresp] at hx
    rw [hentry]
    exact ⟨hinv.live t' ht' x hx, fun h => hnone x hx h.2⟩
  · intro hsome
    have hpreset : (maps .respTokenMap SPECIAL_SEQ_ID_PRESET).isSome := by
      rw [Option.isSome_iff_ne_none] at hsome ⊢
      rwa [ne_eq, hresp] at hsome
    obtain ⟨hfirst, heos⟩ := hinv.preset hpreset
    refine ⟨fun x hx => (hresp x).mpr (hfirst x hx), ?_⟩
    rwa [Function.update_of_ne ht.symm]

theorem Inv.of_reaches {maps maps' : Tables Json} (h₀ : Initial maps)
    (h : Reaches step IsBeamSearch maps maps') : Inv maps' := by
  refine h.invariant (Inv.of_initial h₀) fun s a s' hinv hgood hs => ?_
  cases a with
  | round decodeResult =>
    obtain rfl := Option.some.inj hs
    exact hinv.convertTokenToMap hgood
  | write t seqId entry =>
    rw [step] at hs
    split at hs
    · next hwrite =>
      obtain rfl := Option.some.inj hs
      exact hinv.write entry hwrite.1 hwrite.2
    · cases hs

/-- **In every run a round that is covered follows the parents.** -/
theorem follows_convertTokenToMap {maps maps' : Tables Json} (h₀ : Initial maps)
    (h : Reaches step IsBeamSearch maps maps') {decodeResult : List BestNTokens}
    (hround : DecodeRound maps' decodeResult) (hcovered : Covered maps' decodeResult) :
    Follows maps' (convertTokenToMap maps' decodeResult) decodeResult :=
  follows_of_covered (Inv.of_reaches h₀ h) hround hcovered

/-- One token for a sequence that goes on. -/
def oneToken (seqId parentSeqId : SequenceId) (token : ℤ) : BestNTokens where
  seqId := seqId
  parentSeqId := parentSeqId
  finishReason := .iterationContinue
  tokens := [token]
  cumLogprobs := 0
  logprob := []
  logprobsTokens := []
  logprobs := []
  truncationIndex := 0

theorem initial_empty : Initial (fun _ _ => none : Tables Json) :=
  ⟨fun _ _ _ => rfl, fun _ _ => rfl, rfl⟩

theorem decodeRound_empty {decodeResult : List BestNTokens}
    (hlegal : ∀ item ∈ decodeResult, item.finishReason ≠ .illegalInput)
    (hnodup : (decodeResult.map BestNTokens.key).Nodup)
    (hkey_ne : ∀ item ∈ decodeResult, item.key ≠ SPECIAL_SEQ_ID_PRESET) :
    DecodeRound (fun _ _ => none : Tables Json) decodeResult :=
  ⟨hlegal, hnodup, hkey_ne, .inl fun _ _ => rfl⟩

/-- In the round after the first, only what had part in the first is live. -/
theorem not_eliminated_second {first decodeResult : List BestNTokens}
    (hfirst : DecodeRound (fun _ _ => none : Tables Json) first)
    (hsub : ∀ x ∈ first.map BestNTokens.key, x ∈ decodeResult.map BestNTokens.key) (x : UInt64) :
    ¬Eliminated (convertTokenToMap (fun _ _ => none : Tables Json) first) decodeResult x := by
  rintro ⟨hlive, -, hx⟩
  have hnone := convertTokenToMap_of_not_mem (t := .respTokenMap) hfirst (fun h => hx (hsub x h))
    nofun (fun h => by cases h.2.1)
  rw [hnone] at hlive
  cases hlive

/-- Two beams of a second round have the history of one parent. -/
theorem follows_convertTokenToMap_branch :
    (convertTokenToMap (convertTokenToMap (fun _ _ => none : Tables Unit) [oneToken 1 1 10])
      [oneToken 1 1 11, oneToken 2 1 12] .respTokenMap 2).getD [] = [10, 12] := by
  have hfirst : DecodeRound (fun _ _ => none : Tables Unit) [oneToken 1 1 10] :=
    decodeRound_empty (by decide) (by decide) (by decide)
  have hreach : Reaches step IsBeamSearch (fun _ _ => none : Tables Unit) _ :=
    .one (a := .round [oneToken 1 1 10]) hfirst rfl
  have hround : DecodeRound (convertTokenToMap (fun _ _ => none : Tables Unit) [oneToken 1 1 10])
      [oneToken 1 1 11, oneToken 2 1 12] :=
    ⟨by decide, by decide, by decide, .inr (by decide)⟩
  have hcovered : Covered (convertTokenToMap (fun _ _ => none : Tables Unit) [oneToken 1 1 10])
      [oneToken 1 1 11, oneToken 2 1 12] := by
    constructor
    · intro item hitem t _ hnone
      obtain rfl | hitem := List.mem_cons.mp hitem
      · exact hnone
      · obtain rfl := List.mem_singleton.mp hitem
        cases t <;> rfl
    · intro x hx
      have hsub : ∀ x ∈ [oneToken 1 1 10].map BestNTokens.key,
          x ∈ [oneToken 1 1 11, oneToken 2 1 12].map BestNTokens.key := by
        intro x hx
        obtain rfl := List.mem_singleton.mp hx
        exact List.mem_cons_self
      exact absurd hx (not_eliminated_second hfirst hsub x)
  exact (follows_convertTokenToMap initial_empty hreach hround hcovered).tokens (oneToken 2 1 12)
    (by simp)

/-- A sequence that was streamed, and then eliminated, leaves its entry in `updateIndexMap`. -/
theorem not_follows :
    ∃ (maps maps' : Tables Unit) (decodeResult : List BestNTokens), Initial maps ∧
      Reaches step IsBeamSearch maps maps' ∧ DecodeRound maps' decodeResult ∧
      ¬Follows maps' (convertTokenToMap maps' decodeResult) decodeResult := by
  have hfirst : DecodeRound (fun _ _ => none : Tables Unit) [oneToken 1 1 10, oneToken 2 1 20] :=
    decodeRound_empty (by decide) (by decide) (by decide)
  have hreach : Reaches step IsBeamSearch (fun _ _ => none : Tables Unit) _ :=
    .step (.write .updateIndexMap 2 true)
      (.one (a := .round [oneToken 1 1 10, oneToken 2 1 20]) hfirst rfl) trivial rfl
  refine ⟨_, _, [oneToken 1 1 11], initial_empty, hreach,
    ⟨by decide, by decide, by decide, .inr (by decide)⟩, fun hfollows => ?_⟩
  have hnone := hfollows.eliminated 2 (by unfold Eliminated; decide) .updateIndexMap
  cases hnone

end MindieLLM.DecodeCache
