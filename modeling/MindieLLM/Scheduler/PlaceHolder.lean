import MindieLLM.Dataclass.SchedulingBudget

/-!
# Placeholders for tokens that are still being computed

Once a batch has been handed to the executor the scheduler gives each of its sequences the
placeholders of the tokens to come, and replaces them when the tokens have been fetched.

## Main definitions

* `trailingPlaceholderTokenCount`: the placeholders at the end of a list of tokens
* `Scheduler.addNextTokenPlaceHolder`: placeholders for the next tokens of a group
* `Scheduler.replacePlaceHolderOfSeq`: fetched tokens take the place of placeholders

## Main results

* `append_replicate_count`, `append_replicate_drop`: a list that ends in placeholders
* `Scheduler.replacePlaceHolderOfSeq_of_prefill`, `Scheduler.replacePlaceHolderOfSeq_of_decode`:
  when the replacement does not throw
-/

namespace MindieLLM

variable {HashValue : Type}

def trailingPlaceholderTokenCount (outputTokenIds : List TokenId) : Nat :=
  (outputTokenIds.rtakeWhile (· = placeholderToken)).length

namespace SchedulerConfig

/-- How many batches the scheduling thread may leave unanswered: `MAX_ASYNC_SCHEDULE_TIMES`, or
what the layer-wise disaggregation allows. -/
def asyncScheduleRound (cfg : SchedulerConfig) : Nat :=
  if cfg.layerwiseDisaggregated then cfg.maxDispatchBatchNum else 1

/-- `maxScheduledBatch_`, as the constructor of the scheduler sets it. -/
def maxScheduledBatch (cfg : SchedulerConfig) : Nat :=
  if cfg.activateAsyncInference then cfg.asyncScheduleRound + 1 else 1

def tokenNumPerIter (cfg : SchedulerConfig) : Nat := 1 + cfg.speculationGamma

/-- The placeholders a sequence may have. -/
def maxPlaceHolderNum (cfg : SchedulerConfig) : Nat :=
  cfg.maxScheduledBatch * cfg.tokenNumPerIter + cfg.tokenNumPerIter

end SchedulerConfig

namespace Scheduler

/-- `CalculatePlaceHolderNum`. The unsigned difference wraps around when there are more
placeholders than allowed, and the loop over it does not end. -/
def calculatePlaceHolderNum (cfg : SchedulerConfig) (seqGroup : SequenceGroup HashValue) :
    Except Exn Nat :=
  let placeholderCount := trailingPlaceholderTokenCount seqGroup.firstSeq.outputTokenIds
  if cfg.speculationGamma = 0 then .ok 1
  else if cfg.maxPlaceHolderNum < placeholderCount then
    .error (.diverges "maxPlaceHolderNum - placeholderCount wraps around")
  else if cfg.maxPlaceHolderNum ≤ placeholderCount + cfg.tokenNumPerIter then
    .ok (cfg.maxPlaceHolderNum - placeholderCount)
  else .ok cfg.tokenNumPerIter

def pushPlaceHolders (n : Nat) (seq : Sequence HashValue) : Sequence HashValue :=
  { seq with outputTokenIds := seq.outputTokenIds ++ List.replicate n placeholderToken }

/-- `AddNextTokenPlaceHolder`, for one group. Chunks of a prompt before the last get none. -/
def addNextTokenPlaceHolder (cfg : SchedulerConfig) (seqGroup : SequenceGroup HashValue) :
    Except Exn (SequenceGroup HashValue) :=
  if cfg.enableChunkedPrefill ∧ !seqGroup.isLastChunk then .ok seqGroup
  else do
    let placeHolderNum ← calculatePlaceHolderNum cfg seqGroup
    if seqGroup.enableParallelSampling then
      return { seqGroup with
        parallelSeqs := seqGroup.parallelSeqs.map (pushPlaceHolders placeHolderNum) }
    else
      return { seqGroup with firstSeq := pushPlaceHolders placeHolderNum seqGroup.firstSeq }

/-- `PrepareNextSchedule`, for one group. -/
def prepareNextSchedule (cfg : SchedulerConfig) (seqGroup : SequenceGroup HashValue)
    (tokenChunkSize : Nat) : Except Exn (SequenceGroup HashValue) :=
  addNextTokenPlaceHolder cfg (seqGroup.updateNumComputedTokens tokenChunkSize)

@[simp]
theorem pushPlaceHolders_zero (seq : Sequence HashValue) : pushPlaceHolders 0 seq = seq := by
  simp [pushPlaceHolders]

/-- `UpdatePromptAndOutputTokenIds`: with chunked prefill a recomputed sequence takes its outputs
into the prompt. -/
def updatePromptAndOutputTokenIds (cfg : SchedulerConfig) (seq : Sequence HashValue) :
    Sequence HashValue :=
  if cfg.enableChunkedPrefill ∧ seq.isPrefill ∧ seq.outputTokenIds ≠ [] then
    { seq with promptTokenIds := seq.promptTokenIds ++ seq.outputTokenIds, outputTokenIds := [] }
  else seq

/-- `ReplacePlaceHolderWithToken`, for one sequence of a group, with the tokens that
`predictedTokensBySeqId_` holds for it. The tokens that are left are returned too. -/
def replacePlaceHolderOfSeq (cfg : SchedulerConfig) (isLastChunk : Bool)
    (generatedTokens : List TokenId) (seq : Sequence HashValue) :
    Except Exn (Sequence HashValue × List TokenId) :=
  if cfg.enableChunkedPrefill ∧ !isLastChunk then .ok (seq, generatedTokens)
  else if seq.isPrefill ∧ generatedTokens ≠ [] then
    .ok (updatePromptAndOutputTokenIds cfg
      { seq with outputTokenIds := seq.outputTokenIds ++ generatedTokens }, [])
  else
    let seq := updatePromptAndOutputTokenIds cfg seq
    -- no placeholder has been added yet, or its token has not come back yet
    if seq.outputTokenIds = [] ∨ generatedTokens = [] then .ok (seq, generatedTokens)
    else
      let placeholderCount := trailingPlaceholderTokenCount seq.outputTokenIds
      if placeholderCount < generatedTokens.length ∨
          cfg.maxPlaceHolderNum ≤ placeholderCount - generatedTokens.length then
        .error (.runtimeError "The num of place holder is wrong. Check logs.")
      else
        let placeholderStartIdx := seq.outputTokenIds.length - placeholderCount
        .ok ({ seq with
          outputTokenIds := seq.outputTokenIds.take placeholderStartIdx ++ generatedTokens ++
            seq.outputTokenIds.drop (placeholderStartIdx + generatedTokens.length) }, [])

end Scheduler

/-! ## Lists that end in placeholders -/

/-- A list whose last element, if there is one, is no placeholder. -/
def NoTrailing (tokenIds : List TokenId) : Prop :=
  ∀ h : tokenIds ≠ [], tokenIds.getLast h ≠ placeholderToken

theorem noTrailing_of_forall {tokenIds : List TokenId} (h : ∀ t ∈ tokenIds, t ≠ placeholderToken) :
    NoTrailing tokenIds := fun hne => h _ (List.getLast_mem hne)

variable {tokenIds : List TokenId} {c : Nat}

theorem append_replicate_drop (h : NoTrailing tokenIds) :
    (tokenIds ++ List.replicate c placeholderToken).rdropWhile (· = placeholderToken) =
      tokenIds := by
  induction c with
  | zero =>
    have hself : tokenIds.rdropWhile (· = placeholderToken) = tokenIds :=
      List.rdropWhile_eq_self_iff.mpr fun hne => by simpa using h hne
    simpa using hself
  | succ c ih =>
    rw [List.replicate_succ', ← List.append_assoc, List.rdropWhile_concat_pos _ _ _ (by simp)]
    exact ih

theorem append_replicate_count (h : NoTrailing tokenIds) :
    trailingPlaceholderTokenCount (tokenIds ++ List.replicate c placeholderToken) = c := by
  unfold trailingPlaceholderTokenCount
  induction c with
  | zero =>
    have hnil : tokenIds.rtakeWhile (· = placeholderToken) = [] :=
      List.rtakeWhile_eq_nil_iff.mpr fun hne => by simpa using h hne
    simp [hnil]
  | succ c ih =>
    rw [List.replicate_succ', ← List.append_assoc, List.rtakeWhile_concat_pos _ _ _ (by simp),
      List.length_append, ih]
    rfl

theorem NoTrailing.append {newTokens : List TokenId} (h : NoTrailing tokenIds)
    (hnew : ∀ t ∈ newTokens, t ≠ placeholderToken) : NoTrailing (tokenIds ++ newTokens) := by
  rcases newTokens.eq_nil_or_concat with rfl | ⟨front, t, rfl⟩
  · simpa using h
  · rw [List.concat_eq_append] at hnew ⊢
    intro hne
    have ht : t ≠ placeholderToken := hnew t (by simp)
    simpa [← List.append_assoc] using ht

/-! ## Replacing placeholders -/

namespace Scheduler

variable {cfg : SchedulerConfig} {isLastChunk : Bool} {seq : Sequence HashValue}
  {real tokens : List TokenId}

/-- Up to the limit, the next placeholders are as many as a round needs and the limit allows. -/
theorem calculatePlaceHolderNum_of_le {g : SequenceGroup HashValue}
    (houtputs : g.firstSeq.outputTokenIds = real ++ List.replicate c placeholderToken)
    (hreal : NoTrailing real) (hmax : c ≤ cfg.maxPlaceHolderNum) :
    calculatePlaceHolderNum cfg g =
      .ok (if cfg.speculationGamma = 0 then 1
        else min cfg.tokenNumPerIter (cfg.maxPlaceHolderNum - c)) := by
  unfold calculatePlaceHolderNum
  simp only [houtputs, append_replicate_count hreal]
  by_cases hgamma : cfg.speculationGamma = 0
  · rw [if_pos hgamma, if_pos hgamma]
  · rw [if_neg hgamma, if_neg hgamma, if_neg (by omega)]
    split_ifs with hfull
    · rw [Nat.min_eq_right (by omega)]
    · rw [Nat.min_eq_left (by omega)]

theorem addNextTokenPlaceHolder_of_visible {g : SequenceGroup HashValue} {n : Nat}
    (hlast : ¬(cfg.enableChunkedPrefill ∧ !g.isLastChunk))
    (hsampling : g.enableParallelSampling = false) (hn : calculatePlaceHolderNum cfg g = .ok n) :
    addNextTokenPlaceHolder cfg g = .ok { g with firstSeq := pushPlaceHolders n g.firstSeq } := by
  unfold addNextTokenPlaceHolder
  rw [if_neg hlast, hn]
  simp [bind, Except.bind, pure, Except.pure, hsampling]

theorem updatePromptAndOutputTokenIds_of_decode (h : seq.stage = .decode) :
    updatePromptAndOutputTokenIds cfg seq = seq := by
  simp [updatePromptAndOutputTokenIds, Sequence.isPrefill, h]

theorem updatePromptAndOutputTokenIds_of_prefill (cfg : SchedulerConfig)
    (h : seq.stage = .prefill) :
    updatePromptAndOutputTokenIds cfg seq =
      if cfg.enableChunkedPrefill then
        { seq with
          promptTokenIds := seq.promptTokenIds ++ seq.outputTokenIds, outputTokenIds := [] }
      else seq := by
  have hprefill : seq.isPrefill = true := by simp [Sequence.isPrefill, h]
  unfold updatePromptAndOutputTokenIds
  by_cases houtputs : seq.outputTokenIds = []
  · rw [if_neg (by simp [houtputs])]
    obtain ⟨⟩ := seq
    simp_all
  · simp [hprefill, houtputs]

/-- A sequence that is to be computed takes the tokens at the end of its outputs. -/
theorem replacePlaceHolderOfSeq_of_prefill (hlast : ¬(cfg.enableChunkedPrefill ∧ !isLastChunk))
    (hstage : seq.stage = .prefill) :
    replacePlaceHolderOfSeq cfg isLastChunk tokens seq =
      .ok (updatePromptAndOutputTokenIds cfg
        { seq with outputTokenIds := seq.outputTokenIds ++ tokens }, []) := by
  have hprefill : seq.isPrefill = true := by simp [Sequence.isPrefill, hstage]
  unfold replacePlaceHolderOfSeq
  rw [if_neg hlast]
  by_cases htokens : tokens = []
  · rw [if_neg (by simp [htokens]), if_pos (.inr htokens), htokens, List.append_nil]
  · rw [if_pos ⟨hprefill, htokens⟩]

/-- A decoding sequence with enough placeholders, but not more than allowed, has its first ones
replaced. -/
theorem replacePlaceHolderOfSeq_of_decode (hlast : ¬(cfg.enableChunkedPrefill ∧ !isLastChunk))
    (hstage : seq.stage = .decode)
    (houtputs : seq.outputTokenIds = real ++ List.replicate c placeholderToken)
    (hreal : NoTrailing real) (hle : tokens.length ≤ c) (hmax : c ≤ cfg.maxPlaceHolderNum) :
    replacePlaceHolderOfSeq cfg isLastChunk tokens seq =
      .ok ({ seq with outputTokenIds :=
        real ++ tokens ++ List.replicate (c - tokens.length) placeholderToken }, []) := by
  have hdecode : seq.isPrefill = false := by simp [Sequence.isPrefill, hstage]
  unfold replacePlaceHolderOfSeq
  rw [if_neg hlast, if_neg (by simp [hdecode]), updatePromptAndOutputTokenIds_of_decode hstage]
  by_cases htokens : tokens = []
  · simp [htokens, ← houtputs]
  · have hpos : 0 < tokens.length := List.length_pos_iff.mpr htokens
    have hne : seq.outputTokenIds ≠ [] := by
      rw [houtputs]
      simp only [ne_eq, List.append_eq_nil_iff, List.replicate_eq_nil_iff]
      omega
    have hcount : trailingPlaceholderTokenCount seq.outputTokenIds = c := by
      rw [houtputs, append_replicate_count hreal]
    have hlength : seq.outputTokenIds.length = real.length + c := by simp [houtputs]
    rw [if_neg (by simp [hne, htokens])]
    simp only [hcount]
    rw [if_neg (by omega), hlength, Nat.add_sub_cancel, houtputs]
    simp [List.drop_append]

end Scheduler

end MindieLLM
