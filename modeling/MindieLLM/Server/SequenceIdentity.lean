import MindieLLM.Program.Slices
import MindieLLM.Server.SingleLLMReqHandlerBase

/-!
# Sequence ids of a request

The ids of the sequences go through the parsing of all responses of a request. What the tables of
the request are keyed with has to tell the sequences apart as the ids of the engine do, and a beam
that has ended comes without an id of its own, under the marker.

An id passes through an `int`, so only its low half is kept: it may be zero or the marker there, or
that of another sequence. The ids that are made for ended beams are negative, and are not taken for
those of stopped sequences.

## Main definitions

* `runParse`: the responses of a request, one after the other
* `WellFormed`: a response that has the tokens and log probabilities it has to have
* `Identified`: the ids tell the sequences apart as those of the engine do
* `Fits`: the condition on the ids of the engine

## Main results

* `identified_runParse`: in every run, ids that fit are kept
-/

namespace MindieLLM.ReqHandler

open Program StreamCache DecodeCache

/-- What stands for the id of a beam that has ended. -/
def endedSeqId : Int64 := -1

/-- A content with its tokens. -/
abbrev Parsed : Type := ResponseContent × BestNTokens

/-- The contents of the responses with their tokens. A response that cannot be parsed ends the
request. -/
def runParse (request : LogprobRequest) (simulatedSeqIndex : UInt64) :
    List Response → Option (List Parsed)
  | [] => some []
  | response :: responses =>
    match parseTokensFromResponse request simulatedSeqIndex response with
    | (_, none) => none
    | (index, some postToken) =>
      (runParse request index responses).map (response.responseContents.zip postToken ++ ·)

/-- Every content has tokens, and what else the parser asks for apart from the ids. -/
structure WellFormed (request : LogprobRequest) (response : Response) : Prop where
  contents_ne : response.responseContents ≠ []
  tokens_ne : ∀ content ∈ response.responseContents, content.outTokenIds ≠ []
  truncation : (∃ content ∈ response.responseContents,
      content.finishReason ≠ .iterationContinue) →
    ∀ content ∈ response.responseContents, content.truncationIndex ≤ 0
  topLogprobs : (∀ content ∈ response.responseContents, content.finishReason ≠ .illegalInput) →
    request.logprobs = some true → ∀ topLogprobs ∈ request.topLogprobs, topLogprobs ≠ 0 →
      ∀ content ∈ response.responseContents,
        content.topLogProbTokenIds.length = topLogprobs * content.speculativeTokenNum ∧
          content.topLogProbs.length = topLogprobs * content.speculativeTokenNum

/-- The ids of the tokens tell the sequences apart as those of the contents do, a parent is named by
its own id, and an ended beam has an id of its own that counts as stopped. -/
structure Identified (parsed : List Parsed) : Prop where
  same : ∀ p ∈ parsed, ∀ q ∈ parsed, p.1.seqId ≠ endedSeqId → q.1.seqId ≠ endedSeqId →
    (p.2.seqId = q.2.seqId ↔ p.1.seqId = q.1.seqId)
  parent : ∀ p ∈ parsed, ∀ q ∈ parsed, q.1.seqId ≠ endedSeqId →
    p.1.parentSeqId = q.1.seqId → p.2.parentSeqId = q.2.seqId
  fresh : parsed.Pairwise fun p q =>
    p.1.seqId = endedSeqId ∨ q.1.seqId = endedSeqId → p.2.seqId ≠ q.2.seqId
  stopped : ∀ p ∈ parsed, p.1.seqId = endedSeqId → p.2.seqId > Int64.maxValue

/-- The ids have a low half other than that of zero and of the marker, and it is theirs only. -/
structure Fits (contents : List ResponseContent) : Prop where
  seqId_ne : ∀ content ∈ contents, content.seqId.toInt32 ≠ 0 ∧ content.seqId.toInt32 ≠ -1
  parent_ne : ∀ content ∈ contents, content.parentSeqId.toInt32 ≠ 0
  inj : ∀ content ∈ contents, ∀ other ∈ contents,
    content.seqId.toInt32 = other.seqId.toInt32 → content.seqId = other.seqId

/-- Tokens with the low halves of the ids. -/
def Kept (p : Parsed) : Prop :=
  p.2.seqId = p.1.seqId.toInt32.toInt64 ∧ p.2.parentSeqId = p.1.parentSeqId.toInt32.toInt64

variable {request : LogprobRequest} {index : UInt64} {response : Response}
  {responses : List Response} {contents : List ResponseContent} {parsed : List Parsed}

/-! ## One response -/

theorem toInt64_inj {a b : Int32} (h : a.toInt64 = b.toInt64) : a = b := by
  rw [← Int32.toInt32_toInt64 a, h, Int32.toInt32_toInt64]

theorem parseSeqId_eq (h : ∀ p ∈ parsed, p.1.seqId.toInt32 ≠ 0 ∧ p.1.seqId.toInt32 ≠ -1) :
    parseSeqId index parsed = (index, some (parsed.map fun p =>
      (p.1, { p.2 with seqId := p.1.seqId.toInt32.toInt64 }))) := by
  induction parsed with
  | nil => rfl
  | cons p parsed ih =>
    obtain ⟨⟨hzero, hended⟩, hrest⟩ := List.forall_mem_cons.mp h
    have hnull : p.1.seqId.toInt32.toInt64 ≠ 0 := fun heq => hzero (toInt64_inj heq)
    have hmarker : p.1.seqId.toInt32.toInt64.toUInt64 ≠ -1 := by
      intro heq
      have hsigned : p.1.seqId.toInt32.toInt64 = -1 := congrArg UInt64.toInt64 heq
      exact hended (toInt64_inj hsigned)
    simp only [parseSeqId, if_neg hnull, if_neg hmarker, ih hrest, Option.map_some, List.map_cons]

/-- A pass that succeeds at every content keeps the contents, and leaves what it sets. -/
theorem exists_mapM {f : Parsed → Option Parsed} {P Q : Parsed → Prop}
    (hmap : parsed.map Prod.fst = contents) (hP : ∀ p ∈ parsed, P p)
    (h : ∀ p, P p → p.1 ∈ contents → ∃ q, f p = some q ∧ q.1 = p.1 ∧ Q q) :
    ∃ after, parsed.mapM f = some after ∧ after.map Prod.fst = contents ∧ ∀ q ∈ after, Q q := by
  have hpass : ∀ p ∈ parsed, ∃ q, f p = some q ∧ q.1 = p.1 ∧ Q q := by
    intro p hp
    apply h p (hP p hp)
    rw [← hmap]
    exact List.mem_map_of_mem hp
  choose! g hg hfst hq using hpass
  refine ⟨parsed.map g, mapM_eq_some_map hg, ?_, List.forall_mem_map.mpr hq⟩
  rw [← hmap, List.map_map]
  exact List.map_congr_left hfst

/-- The reason why each sequence has ended is set whether or not the truncation is read. -/
theorem exists_parseFinishReason (hmap : parsed.map Prod.fst = contents)
    (hkept : ∀ p ∈ parsed, Kept p)
    (htruncation : (∃ content ∈ contents, content.finishReason ≠ .iterationContinue) →
      ∀ content ∈ contents, content.truncationIndex ≤ 0) :
    ∃ after, parseFinishReasonAndTruncationId parsed = some after ∧
      after.map Prod.fst = contents ∧
      ∀ p ∈ after, Kept p ∧ p.2.finishReason = p.1.finishReason := by
  unfold parseFinishReasonAndTruncationId
  generalize hmarked : (parsed.map fun p : Parsed =>
    (p.1, { p.2 with finishReason := p.1.finishReason })) = marked
  have hfst : marked.map Prod.fst = contents := by
    rw [← hmarked, List.map_map, ← hmap]
    rfl
  have hreason : ∀ p ∈ marked, Kept p ∧ p.2.finishReason = p.1.finishReason := by
    rw [← hmarked, List.forall_mem_map]
    exact fun p hp => ⟨hkept p hp, rfl⟩
  dsimp only
  split
  · exact ⟨marked, rfl, hfst, hreason⟩
  · rename_i hended
    have hle : ∀ content ∈ contents, content.truncationIndex ≤ 0 := by
      apply htruncation
      by_contra hnone
      push Not at hnone
      refine hended (List.all_eq_true.mpr fun p hp => decide_eq_true ?_)
      rw [(hreason p hp).2]
      apply hnone
      rw [← hfst]
      exact List.mem_map_of_mem hp
    refine exists_mapM hfst hreason fun p hp hmem => ?_
    exact ⟨_, if_neg (Int.not_lt.mpr (hle _ hmem)), rfl, hp⟩

theorem exists_parseLogProbs (hmap : parsed.map Prod.fst = contents)
    (hkept : ∀ p ∈ parsed, Kept p)
    (htop : request.logprobs = some true → ∀ topLogprobs ∈ request.topLogprobs, topLogprobs ≠ 0 →
      ∀ content ∈ contents,
        content.topLogProbTokenIds.length = topLogprobs * content.speculativeTokenNum ∧
          content.topLogProbs.length = topLogprobs * content.speculativeTokenNum) :
    ∃ after, parseLogProbs request parsed = some after ∧ after.map Prod.fst = contents ∧
      ∀ p ∈ after, Kept p := by
  unfold parseLogProbs
  split
  · rename_i topLogprobs hlogprobs htopLogprobs
    generalize hmarked : (parsed.map fun p : Parsed =>
      (p.1, { p.2 with logprob := p.1.outLogProbs })) = marked
    have hfst : marked.map Prod.fst = contents := by
      rw [← hmarked, List.map_map, ← hmap]
      rfl
    have hids : ∀ p ∈ marked, Kept p := by
      rw [← hmarked, List.forall_mem_map]
      exact hkept
    dsimp only
    split
    · exact ⟨marked, rfl, hfst, hids⟩
    · rename_i hne
      refine exists_mapM hfst hids fun p hp hmem => ?_
      obtain ⟨htokens, hprobs⟩ := htop hlogprobs topLogprobs htopLogprobs hne _ hmem
      exact ⟨_, if_neg (not_or.mpr ⟨not_not.mpr htokens, not_not.mpr hprobs⟩), rfl, hp⟩
  · exact ⟨parsed, rfl, hmap, hkept⟩

/-- **One response.** A well-formed response whose ids fit is accepted, and the index of ended
sequences stays where it is. -/
theorem exists_parseTokensFromResponse (hwell : WellFormed request response)
    (hfits : Fits response.responseContents) :
    ∃ after : List Parsed, parseTokensFromResponse request index response =
        (index, some (after.map Prod.snd)) ∧
      after.map Prod.fst = response.responseContents ∧ ∀ p ∈ after, Kept p := by
  have hseqIds : ∀ p ∈ response.responseContents.map fun content => (content, emptyTokens),
      p.1.seqId.toInt32 ≠ 0 ∧ p.1.seqId.toInt32 ≠ -1 :=
    List.forall_mem_map.mpr hfits.seqId_ne
  obtain ⟨named, hnamed, hnamedMap, hnamedIds⟩ : ∃ named : List Parsed,
      parseSeqId index (response.responseContents.map fun content => (content, emptyTokens)) =
        (index, some named) ∧ named.map Prod.fst = response.responseContents ∧
        ∀ p ∈ named, p.2.seqId = p.1.seqId.toInt32.toInt64 := by
    refine ⟨_, parseSeqId_eq hseqIds, ?_, List.forall_mem_map.mpr fun p _ => rfl⟩
    rw [List.map_map, List.map_map]
    exact List.map_id _
  obtain ⟨parents, hparents, hparentsMap, hparentsIds⟩ :=
    @exists_mapM _ _ parseParentSeqId _ Kept hnamedMap hnamedIds fun p hp hmem => by
      have hnull : p.1.parentSeqId.toInt32.toInt64 ≠ 0 := fun heq =>
        hfits.parent_ne _ hmem (toInt64_inj heq)
      exact ⟨_, if_neg hnull, rfl, hp, rfl⟩
  obtain ⟨outTokens, houtTokens, houtMap, houtIds⟩ :=
    @exists_mapM _ _ parseOutTokenId _ Kept hparentsMap hparentsIds fun p hp hmem =>
      ⟨_, if_neg (hwell.tokens_ne _ hmem), rfl, hp⟩
  have hcumMap : (outTokens.map parseCumLogProbs).map Prod.fst = response.responseContents := by
    rw [List.map_map, ← houtMap]
    rfl
  obtain ⟨finished, hfinished, hfinishedMap, hfinishedIds⟩ :=
    exists_parseFinishReason hcumMap (List.forall_mem_map.mpr houtIds) hwell.truncation
  obtain ⟨after, hafter, hafterMap, hafterIds⟩ : ∃ after : List Parsed,
      (if finished.any fun p => p.2.finishReason = .illegalInput then
          some (finished.map Prod.snd)
        else (parseLogProbs request finished).bind fun postToken =>
          some (postToken.map Prod.snd)) = some (after.map Prod.snd) ∧
      after.map Prod.fst = response.responseContents ∧ ∀ p ∈ after, Kept p := by
    split
    · exact ⟨finished, rfl, hfinishedMap, fun p hp => (hfinishedIds p hp).1⟩
    · rename_i hlegal
      have hnone : ∀ content ∈ response.responseContents,
          content.finishReason ≠ .illegalInput := by
        rw [← hfinishedMap, List.forall_mem_map]
        intro p hp hillegal
        refine hlegal (List.any_eq_true.mpr ⟨p, hp, decide_eq_true ?_⟩)
        rw [(hfinishedIds p hp).2, hillegal]
      obtain ⟨after, hafter, hmap, hids⟩ := exists_parseLogProbs hfinishedMap
        (fun p hp => (hfinishedIds p hp).1) (hwell.topLogprobs hnone)
      exact ⟨after, by rw [hafter, Option.bind_some], hmap, hids⟩
  refine ⟨after, ?_, hafterMap, hafterIds⟩
  unfold parseTokensFromResponse
  rw [if_neg hwell.contents_ne]
  simp only [hnamed, hparents, houtTokens, hfinished, hafter, Option.bind_eq_bind,
    Option.bind_some]

/-! ## All responses -/

theorem Fits.of_subset {all : List ResponseContent} (h : Fits all) (hsub : contents ⊆ all) :
    Fits contents where
  seqId_ne content hmem := h.seqId_ne content (hsub hmem)
  parent_ne content hmem := h.parent_ne content (hsub hmem)
  inj content hmem other hother := h.inj content (hsub hmem) other (hsub hother)

theorem exists_runParse (hwell : ∀ response ∈ responses, WellFormed request response)
    (hfits : Fits (responses.flatMap Response.responseContents)) :
    ∃ parsed, runParse request index responses = some parsed ∧
      parsed.map Prod.fst = responses.flatMap Response.responseContents ∧
      ∀ p ∈ parsed, Kept p := by
  induction responses with
  | nil => exact ⟨[], rfl, rfl, fun p hp => absurd hp List.not_mem_nil⟩
  | cons response responses ih =>
    obtain ⟨hfirst, hrest⟩ := List.forall_mem_cons.mp hwell
    rw [List.flatMap_cons] at hfits
    obtain ⟨after, hafter, hafterMap, hafterIds⟩ := @exists_parseTokensFromResponse request index
      response hfirst (hfits.of_subset (List.subset_append_left _ _))
    obtain ⟨parsed, hparsed, hmap, hids⟩ :=
      ih hrest (hfits.of_subset (List.subset_append_right _ _))
    refine ⟨after ++ parsed, ?_, ?_, ?_⟩
    · have hzip : response.responseContents.zip (after.map Prod.snd) = after :=
        (List.zip_of_prod hafterMap rfl).symm
      simp only [runParse, hafter, hparsed, Option.map_some, hzip]
    · rw [List.map_append, hafterMap, hmap, List.flatMap_cons]
    · exact List.forall_mem_append.mpr ⟨hafterIds, hids⟩

/-- The comparison has a sign, and no id is larger than the largest one. -/
theorem not_stopped (seqId : Int64) : ¬ seqId > Int64.maxValue :=
  Int64.not_lt.mpr (Int64.le_maxValue seqId)

/-- No run with an ended beam tells it from the others. -/
theorem not_identified_of_ended {p : Parsed} (hp : p ∈ parsed) (hended : p.1.seqId = endedSeqId) :
    ¬ Identified parsed := by
  intro h
  exact not_stopped _ (h.stopped p hp hended)

/-- **Ids that fit are kept.** In every run of well-formed responses whose ids fit, all responses
are accepted, and the ids tell the sequences apart as those of the engine do. -/
theorem identified_runParse (hwell : ∀ response ∈ responses, WellFormed request response)
    (hfits : Fits (responses.flatMap Response.responseContents)) :
    ∃ parsed, runParse request 1 responses = some parsed ∧
      parsed.map Prod.fst = responses.flatMap Response.responseContents ∧ Identified parsed := by
  obtain ⟨parsed, hparsed, hmap, hkept⟩ := @exists_runParse request 1 responses hwell hfits
  have hmem : ∀ p ∈ parsed, p.1 ∈ responses.flatMap Response.responseContents := by
    intro p hp
    rw [← hmap]
    exact List.mem_map_of_mem hp
  -- the marker itself does not fit
  have hnever : ∀ p ∈ parsed, p.1.seqId ≠ endedSeqId := by
    intro p hp hended
    apply (hfits.seqId_ne _ (hmem p hp)).2
    rw [hended]
    rfl
  refine ⟨parsed, hparsed, hmap, ?_, ?_, ?_, ?_⟩
  · intro p hp q hq _ _
    rw [(hkept p hp).1, (hkept q hq).1]
    constructor
    · exact fun heq => hfits.inj _ (hmem p hp) _ (hmem q hq) (toInt64_inj heq)
    · exact fun heq => by rw [heq]
  · intro p hp q hq _ heq
    rw [(hkept p hp).2, (hkept q hq).1, heq]
  · refine List.pairwise_of_forall_mem_list fun p hp q hq hended => ?_
    rcases hended with h | h
    · exact absurd h (hnever p hp)
    · exact absurd h (hnever q hq)
  · exact fun p hp hended => absurd hended (hnever p hp)

/-! ## Two requests -/

/-- A content with one token. -/
def oneToken (seqId parentSeqId : Int64) : ResponseContent where
  seqId := seqId
  parentSeqId := parentSeqId
  finishReason := .iterationContinue
  speculativeTokenNum := 1
  outTokenIds := [7]
  outLogProbs := []
  cumLogProb := 0
  truncationIndex := 0
  topLogProbTokenIds := []
  topLogProbs := []
  srcBlockTable := []
  singleLLMPrefillReqHandlerId := 0
  pdErrorCode := 0
  isThinking := false

def withContents (contents : List ResponseContent) : Response where
  reqId := "r"
  responseContents := contents
  isEos := false
  inferStatusFlag := .iterationContinue
  transferStatusFlag := .notTransfer

/-- No log probabilities. -/
def plainRequest : LogprobRequest := ⟨none, none⟩

theorem wellFormed_withContents (hne : contents ≠ [])
    (h : ∀ content ∈ contents, ∃ seqId parentSeqId, content = oneToken seqId parentSeqId) :
    WellFormed plainRequest (withContents contents) where
  contents_ne := hne
  tokens_ne content hmem := by
    obtain ⟨seqId, parentSeqId, rfl⟩ := h content hmem
    exact List.cons_ne_nil _ _
  truncation _ content hmem := by
    obtain ⟨seqId, parentSeqId, rfl⟩ := h content hmem
    exact Int.le_refl 0
  topLogprobs _ hlogprobs := nomatch hlogprobs

/-- A prefill and then two beams. -/
def twoBeams : List Response :=
  [withContents [oneToken 5 5], withContents [oneToken 5 5, oneToken 6 5]]

theorem wellFormed_twoBeams : ∀ response ∈ twoBeams, WellFormed plainRequest response := by
  intro response hmem
  rcases List.mem_pair.mp hmem with rfl | rfl
  · apply wellFormed_withContents (List.cons_ne_nil _ _)
    simp
  · apply wellFormed_withContents (List.cons_ne_nil _ _)
    simp

theorem identified_twoBeams : ∃ parsed, runParse plainRequest 1 twoBeams = some parsed ∧
    parsed.map Prod.fst = twoBeams.flatMap Response.responseContents ∧ Identified parsed :=
  identified_runParse wellFormed_twoBeams ⟨by decide, by decide, by decide⟩

/-- The id that is made for an ended beam is negative, so the beam does not count as stopped. -/
theorem not_identified_endedBeam :
    ¬ ∀ (request : LogprobRequest) (responses : List Response),
      (∀ response ∈ responses, WellFormed request response) →
      (∀ content ∈ responses.flatMap Response.responseContents,
        content.seqId ≠ 0 ∧ content.parentSeqId ≠ 0) →
      ∃ parsed, runParse request 1 responses = some parsed ∧
        parsed.map Prod.fst = responses.flatMap Response.responseContents ∧ Identified parsed := by
  intro h
  have hwell : ∀ response ∈ [withContents [oneToken 5 5, oneToken endedSeqId 5]],
      WellFormed plainRequest response := by
    rw [List.forall_mem_singleton]
    apply wellFormed_withContents (List.cons_ne_nil _ _)
    simp
  obtain ⟨parsed, hrun, -, hids⟩ := h plainRequest _ hwell (by decide)
  obtain rfl := Option.some.inj hrun
  have hended : (oneToken endedSeqId 5).seqId = endedSeqId := rfl
  exact not_identified_of_ended (List.mem_cons_of_mem _ List.mem_cons_self) hended hids

end MindieLLM.ReqHandler
