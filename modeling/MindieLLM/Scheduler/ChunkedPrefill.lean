import MindieLLM.Scheduler.PolicyHelper
import MindieLLM.Scheduler.PlaceHolder

/-!
# Chunks of a prompt

With chunked prefill a round computes only as many tokens of a prompt as the budget allows. The
policy decides how many, from the queue the group waits in; the metadata of the batch says which
tokens of the prompt these are, and the computed tokens are counted once the batch is on its way.

## Main definitions

* `FcfsPolicy.scheduleFrom`: a group that the budget lets through, with its chunk
* `Scheduler.setChunkedParam`: the range of the chunk in the prompt
* `chunkRound`: one round for a group
* `Rounds`: rounds for a group, from a start

## Main results

* `fresh_of_recompute`: a group that is recomputed starts anew
* `tiles_of_rounds`: the ranges of the rounds tile the prompt, and the flags mark the range that
  ends it
-/

namespace MindieLLM

variable {HashValue : Type}

/-- The queue a group is scheduled from. -/
inductive QueueKind
  | waiting
  | running
  | swapped
  deriving DecidableEq, Repr

namespace QueueKind

def status : QueueKind → SequenceStatus
  | waiting => .waiting
  | running => .running
  | swapped => .swapped

end QueueKind

namespace FcfsPolicy

/-- What `ApplyToWaitingQueue`, `ApplyToRunningQueue` and `ApplyToSwappedQueue` make of a group
with so many uncached and cached tokens, if the budget lets it through. The running queue takes the
uncached tokens only, and takes them also when there are none. -/
def scheduleFrom (queue : QueueKind) (enableChunking : Bool) (budget : SchedulingBudget)
    (numNewTokens : Nat × Nat) (seqGroup : SequenceGroup HashValue) :
    Option (ScheduledSequenceGroup HashValue) :=
  let fits := budget.canSchedule numNewTokens.1 seqGroup.getMaxNumRunningSeqs
  let all := numNewTokens.1 + numNewTokens.2
  match queue with
  | .waiting =>
    if numNewTokens.1 = 0 ∨ !fits then none
    else some ⟨(seqGroup.setStatus .running).scheduleChunk all enableChunking, all⟩
  | .running =>
    if !fits then none
    else some ⟨seqGroup.scheduleChunk numNewTokens.1 enableChunking,
      if seqGroup.firstSeq.isPrefill then numNewTokens.1 else 1⟩
  | .swapped =>
    if numNewTokens.1 = 0 ∨ !fits then none
    else if seqGroup.firstSeq.isPrefill then
      some ⟨(seqGroup.setStatus .running).scheduleChunk all enableChunking, all⟩
    else some ⟨(seqGroup.setStatus .running).scheduleChunk 1 enableChunking, 1⟩

end FcfsPolicy

/-- The entries that `SetChunkedParam` adds to the metadata of a group. -/
structure ChunkedParam where
  isReqPrefill : Bool
  isReqLastChunk : Bool
  splitStartPos : Nat
  splitEndPos : Nat
  deriving DecidableEq, Repr

def Scheduler.setChunkedParam (seq : Sequence HashValue) (tokenChunkSize : Nat) : ChunkedParam :=
  let calEndPos := seq.numComputedTokens + tokenChunkSize
  let isReqPrefill := !(seq.promptTokenIds.length ≤ seq.numComputedTokens : Bool)
  { isReqPrefill := isReqPrefill
    isReqLastChunk := seq.promptTokenIds.length ≤ calEndPos
    splitStartPos := seq.numComputedTokens
    splitEndPos :=
      if isReqPrefill then
        if seq.promptTokenIds.length ≤ calEndPos then seq.promptTokenIds.length else calEndPos
      else calEndPos }

/-- What a round hands to execution for a group: the range of its chunk, the flag of the group, and
whether the group is past its prefill once the next round is prepared. -/
structure Chunk where
  param : ChunkedParam
  isLastChunk : Bool
  prefillDone : Bool
  deriving DecidableEq, Repr

/-- The map of a group that samples in parallel holds the group itself from its start. Others join
it with the first tokens of the outputs, after the prompt. -/
def SequenceGroup.withSelf (g : SequenceGroup HashValue) : SequenceGroup HashValue :=
  { g with parallelSeqs := if g.enableParallelSampling then [g.firstSeq] else [] }

/-- `PrepareNextSchedule`, for a group that is alone in its map: what is done to the group in the
map is done to the group. -/
def Scheduler.prepareAlone (cfg : SchedulerConfig) (seqGroup : SequenceGroup HashValue)
    (tokenChunkSize : Nat) : Except Exn (SequenceGroup HashValue) := do
  let next ← addNextTokenPlaceHolder cfg (seqGroup.updateNumComputedTokens tokenChunkSize).withSelf
  return { next with firstSeq := next.parallelSeqs.headD next.firstSeq }

open PolicyHelper in
/-- One round for a group: the count of its tokens, the chunk it is scheduled with, the metadata,
and the preparation of the next round. The block manager has `numCachedTokens` tokens of the
sequence in its cache. -/
def chunkRound (cfg : SchedulerConfig) (queue : QueueKind) (numCachedTokens : Nat)
    (budget : SchedulingBudget) (g : SequenceGroup HashValue) :
    Except Exn (Option (Chunk × SequenceGroup HashValue)) := do
  let seqGroup := g.withSelf
  let counts ← getNumComputeNewUnCachedAndCachedTokens cfg
    (fun _ => (Except.ok numCachedTokens : Except Exn Nat)) seqGroup queue.status true budget
  match FcfsPolicy.scheduleFrom queue true budget counts seqGroup with
  | none => return none
  | some scheduled =>
    let param := Scheduler.setChunkedParam scheduled.seqGroup.firstSeq scheduled.tokenChunkSize
    let next ← Scheduler.prepareAlone cfg scheduled.seqGroup scheduled.tokenChunkSize
    return some (⟨param, scheduled.seqGroup.isLastChunk, !next.firstSeq.isPrefill⟩, next)

/-! ## Runs of rounds -/

/-- A group whose prompt is still to be computed. `BuildSequenceGroup` gives it one sequence. -/
structure Fresh (g : SequenceGroup HashValue) : Prop where
  single : g.otherSeqs = []
  status : g.firstSeq.status = .waiting
  stage : g.firstSeq.stage = .prefill
  computed : g.firstSeq.numComputedTokens = 0
  outputs : g.firstSeq.outputTokenIds = []

/-- What a round of the run may find: the answer of the block manager is at most the length of the
sequence, the budget is one of chunked prefill, whatever other groups have left of it, and on the
running queue they have left something. -/
structure Admissible (cfg : SchedulerConfig) (queue : QueueKind) (numCachedTokens : Nat)
    (budget : SchedulingBudget) (g : SequenceGroup HashValue) : Prop where
  status : g.firstSeq.status = queue.status
  cached : numCachedTokens ≤ g.firstSeq.getLen
  config : budget.schedulerConfig = cfg
  maxNumBatchedTokens : budget.maxNumBatchedTokens = cfg.maxPrefillTokens
  running : queue = .running → 0 < budget.remainingTokenBudget

/-- The rounds that schedule a group while it is in its prefill stage, with the chunks they hand to
execution. Between rounds the group may be swapped out. -/
inductive Rounds (cfg : SchedulerConfig) (g : SequenceGroup HashValue) :
    List Chunk → SequenceGroup HashValue → Prop
  | start : Rounds cfg g [] g
  | swapOut {chunks g'} (h : Rounds cfg g chunks g') (hstatus : g'.firstSeq.status = .running) :
    Rounds cfg g chunks (g'.setStatus .swapped)
  | round {chunks g' queue numCachedTokens budget chunk g''} (h : Rounds cfg g chunks g')
    (hstage : g'.firstSeq.stage = .prefill)
    (hadm : Admissible cfg queue numCachedTokens budget g')
    (hround : chunkRound cfg queue numCachedTokens budget g' = .ok (some (chunk, g''))) :
    Rounds cfg g (chunks ++ [chunk]) g''

/-- The ranges follow one another from `start`, none is empty, none goes past `len`, and the range
that reaches `len` is the one that is marked as the last. -/
def Tiles (len : Nat) : Nat → List Chunk → Prop
  | _, [] => True
  | start, c :: rest =>
    c.param.splitStartPos = start ∧ start < c.param.splitEndPos ∧ c.param.splitEndPos ≤ len ∧
      c.param.isReqPrefill = true ∧
      (c.param.isReqLastChunk = true ↔ c.param.splitEndPos = len) ∧
      (c.isLastChunk = true ↔ c.param.splitEndPos = len) ∧
      (c.prefillDone = true ↔ c.param.splitEndPos = len) ∧
      Tiles len c.param.splitEndPos rest

/-! ## One round -/

section Round

variable {cfg : SchedulerConfig} {queue : QueueKind} {numCachedTokens : Nat}
  {budget : SchedulingBudget} {g g' : SequenceGroup HashValue}

/-- The sequence whose tokens are counted for a group that is alone in its map. -/
theorem counted_of_alone (hsingle : g.otherSeqs = [])
    (hself : g.enableParallelSampling → g.parallelSeqs = [g.firstSeq])
    (hstatus : g.firstSeq.status = queue.status) :
    (if g.enableParallelSampling ∧ (queue.status = .running ∨ queue.status = .swapped) then
      g.getParallelSequences .allStatus else g.getSequences queue.status) = [g.firstSeq] := by
  cases hsampling : g.enableParallelSampling with
  | false =>
    simp [SequenceGroup.getSequences, SequenceGroup.getFirstSequence, SequenceGroup.seqs, hsampling,
      hstatus, hsingle]
  | true =>
    split_ifs <;>
      simp [SequenceGroup.getSequences, SequenceGroup.getParallelSequences, hsampling,
        hself hsampling, hstatus]

open PolicyHelper in
/-- The counts of a prompt that is still to be computed: together they are the rest of it, and some
of the rest is to be computed. -/
theorem count_of_prefill (cfg : SchedulerConfig) (enableChunking : Bool) (budget : SchedulingBudget)
    (hsingle : g.otherSeqs = []) (hself : g.enableParallelSampling → g.parallelSeqs = [g.firstSeq])
    (hstage : g.firstSeq.stage = .prefill) (hstatus : g.firstSeq.status = queue.status)
    (hcomputed : g.firstSeq.numComputedTokens ≤ g.firstSeq.getLen)
    (hcached : numCachedTokens ≤ g.firstSeq.getLen) :
    ∃ u c, getNumComputeNewUnCachedAndCachedTokens cfg
        (fun _ => (Except.ok numCachedTokens : Except Exn Nat)) g queue.status enableChunking
        budget = .ok (if enableChunking then getNumComputeChunkSize budget u else u, c) ∧
      u + c = g.firstSeq.getLen - g.firstSeq.numComputedTokens ∧
      (g.firstSeq.numComputedTokens < g.firstSeq.getLen → 0 < u) := by
  have hseqs := counted_of_alone hsingle hself hstatus
  -- the count of the one sequence
  have hone : ∃ u c, getNumNewTokensOfSeq cfg
      (fun _ => (Except.ok numCachedTokens : Except Exn Nat)) g.firstSeq = .ok (u, c) ∧
      u + c = g.firstSeq.getLen - g.firstSeq.numComputedTokens := by
    have hprefill : g.firstSeq.isPrefill = true := by simp [Sequence.isPrefill, hstage]
    have hlt : ¬g.firstSeq.getLen < g.firstSeq.numComputedTokens := by omega
    simp only [getNumNewTokensOfSeq, hprefill, Bool.not_true, Bool.false_eq_true, if_false,
      if_neg hlt]
    by_cases hcache : cfg.enablePrefixCache = true
    · by_cases hsp : 1 < cfg.spSize ∨ 1 < cfg.cpSize
      · exact ⟨_, 0, by simp [hcache, hsp, bind, Except.bind, pure, Except.pure], rfl⟩
      · let cachedNew := numCachedTokens - g.firstSeq.numComputedTokens
        refine ⟨g.firstSeq.getLen - g.firstSeq.numComputedTokens - cachedNew, cachedNew, ?_, ?_⟩
        · simp [hcache, hsp, cachedNew, bind, Except.bind, pure, Except.pure]
        · omega
    · exact ⟨_, 0, by simp [hcache, pure, Except.pure], rfl⟩
  obtain ⟨u, c, hcount, hsum⟩ := hone
  by_cases hall : u = 0 ∧ 0 < c
  · refine ⟨1, c - 1, ?_, by omega, fun _ => Nat.one_pos⟩
    cases enableChunking <;>
      simp only [getNumComputeNewUnCachedAndCachedTokens, hseqs] <;>
      simp [hcount, hall, bind, Except.bind, pure, Except.pure]
  · refine ⟨u, c, ?_, hsum, fun h => by omega⟩
    cases enableChunking <;>
      simp only [getNumComputeNewUnCachedAndCachedTokens, hseqs] <;>
      simp [hcount, hall, bind, Except.bind, pure, Except.pure]

theorem setStatus_running (hsingle : g.otherSeqs = []) (hstatus : g.firstSeq.status = .running) :
    g.setStatus .running = g := by
  obtain ⟨⟨⟩, _⟩ := g
  simp_all [SequenceGroup.setStatus]

theorem scheduleFrom_prefill {enableChunking : Bool} {u c : Nat}
    {scheduled : ScheduledSequenceGroup HashValue}
    (hsingle : g.otherSeqs = []) (hstage : g.firstSeq.stage = .prefill)
    (hstatus : g.firstSeq.status = queue.status)
    (h : FcfsPolicy.scheduleFrom queue enableChunking budget (u, c) g = some scheduled) :
    ∃ n, scheduled = ⟨(g.setStatus .running).scheduleChunk n enableChunking, n⟩ ∧
      (n = u ∧ queue = .running ∨ n = u + c ∧ 0 < u) := by
  have hprefill : g.firstSeq.isPrefill = true := by simp [Sequence.isPrefill, hstage]
  cases queue with
  | waiting =>
    simp only [FcfsPolicy.scheduleFrom, Option.ite_none_left_eq_some, not_or,
      Option.some.injEq] at h
    exact ⟨u + c, h.2.symm, .inr ⟨rfl, Nat.pos_of_ne_zero h.1.1⟩⟩
  | running =>
    have hsame := setStatus_running hsingle hstatus
    simp only [FcfsPolicy.scheduleFrom, Option.ite_none_left_eq_some, hprefill, if_true,
      Option.some.injEq] at h
    exact ⟨u, by rw [hsame, h.2], .inl ⟨rfl, rfl⟩⟩
  | swapped =>
    simp only [FcfsPolicy.scheduleFrom, Option.ite_none_left_eq_some, not_or, hprefill,
      if_true, Option.some.injEq] at h
    exact ⟨u + c, h.2.symm, .inr ⟨rfl, Nat.pos_of_ne_zero h.1.1⟩⟩

open PolicyHelper in
/-- A decoding sequence has one token to compute. -/
theorem count_of_decode (cfg : SchedulerConfig) (enableChunking : Bool) (budget : SchedulingBudget)
    (numCachedTokens : Nat) (hsingle : g.otherSeqs = [])
    (hsampling : g.enableParallelSampling = false)
    (hstage : g.firstSeq.stage = .decode) (hstatus : g.firstSeq.status = queue.status) :
    getNumComputeNewUnCachedAndCachedTokens cfg
        (fun _ => (Except.ok numCachedTokens : Except Exn Nat)) g queue.status enableChunking
        budget =
      .ok (if enableChunking then getNumComputeChunkSize budget 1 else 1, 0) := by
  have hseqs := counted_of_alone hsingle (fun h => by simp [hsampling] at h) hstatus
  have hdecode : g.firstSeq.isPrefill = false := by simp [Sequence.isPrefill, hstage]
  cases enableChunking <;>
    simp only [getNumComputeNewUnCachedAndCachedTokens, hseqs] <;>
    simp [getNumNewTokensOfSeq, hdecode, bind, Except.bind, pure, Except.pure]

theorem scheduleFrom_decode {enableChunking : Bool} {u : Nat}
    {scheduled : ScheduledSequenceGroup HashValue} (hu : u ≤ 1)
    (hsingle : g.otherSeqs = []) (hstage : g.firstSeq.stage = .decode)
    (hstatus : g.firstSeq.status = queue.status)
    (h : FcfsPolicy.scheduleFrom queue enableChunking budget (u, 0) g = some scheduled) :
    ∃ n, scheduled = ⟨(g.setStatus .running).scheduleChunk n enableChunking, 1⟩ := by
  have hdecode : ¬g.firstSeq.isPrefill = true := by simp [Sequence.isPrefill, hstage]
  cases queue with
  | waiting =>
    simp only [FcfsPolicy.scheduleFrom, Option.ite_none_left_eq_some, not_or,
      Option.some.injEq] at h
    have hu : u = 1 := by omega
    exact ⟨1, by rw [← h.2, hu]⟩
  | running =>
    have hsame := setStatus_running hsingle hstatus
    simp only [FcfsPolicy.scheduleFrom, Option.ite_none_left_eq_some, if_neg hdecode,
      Option.some.injEq] at h
    exact ⟨u, by rw [hsame, h.2]⟩
  | swapped =>
    simp only [FcfsPolicy.scheduleFrom, Option.ite_none_left_eq_some, not_or, if_neg hdecode,
      Option.some.injEq] at h
    exact ⟨1, h.2.symm⟩

/-- What the preparation makes of a group: the computed tokens are counted, and the placeholders of
the next tokens follow unless a chunk before the last was computed. -/
theorem prepareAlone_ok {tokenChunkSize : Nat} (hlive : g.firstSeq.isFinished = false)
    (h : Scheduler.prepareAlone cfg g tokenChunkSize = .ok g') :
    ∃ k, g'.firstSeq =
        Scheduler.pushPlaceHolders k (g.firstSeq.updateNumComputedTokens tokenChunkSize) ∧
      g'.otherSeqs = (g.updateNumComputedTokens tokenChunkSize).otherSeqs ∧
      g'.isLastChunk = g.isLastChunk ∧
      (cfg.enableChunkedPrefill = true → g.isLastChunk = false → k = 0) := by
  have hfirst := SequenceGroup.updateNumComputedTokens_firstSeq g tokenChunkSize hlive
  unfold Scheduler.prepareAlone Scheduler.addNextTokenPlaceHolder at h
  by_cases hchunk : cfg.enableChunkedPrefill = true ∧ g.isLastChunk = false
  · rw [if_pos (by simpa [SequenceGroup.withSelf] using hchunk)] at h
    cases h
    refine ⟨0, ?_, rfl, rfl, fun _ _ => rfl⟩
    cases hsampling : g.enableParallelSampling <;>
      simp [SequenceGroup.withSelf, hsampling, hfirst]
  · rw [if_neg (by simpa [SequenceGroup.withSelf] using hchunk)] at h
    cases hk : Scheduler.calculatePlaceHolderNum cfg
        (g.updateNumComputedTokens tokenChunkSize).withSelf with
    | error e => simp [hk, bind, Except.bind] at h
    | ok k =>
      simp only [hk, bind, Except.bind, pure, Except.pure] at h
      refine ⟨k, ?_, ?_, ?_, fun h₁ h₂ => absurd ⟨h₁, h₂⟩ hchunk⟩
      all_goals
        -- in the map or not, it is the first sequence that gets them
        cases hsampling : g.enableParallelSampling <;>
          simp [SequenceGroup.withSelf, hsampling] at h <;> simp [← h, hfirst]

/-- What the rounds keep of a group with the prompt `prompt`, of which `computed` tokens have been
computed. -/
structure InPrompt (prompt : List TokenId) (computed : Nat) (g : SequenceGroup HashValue) :
    Prop where
  single : g.otherSeqs = []
  promptTokenIds : g.firstSeq.promptTokenIds = prompt
  numComputedTokens : g.firstSeq.numComputedTokens = computed
  le : computed ≤ prompt.length
  stage : g.firstSeq.stage = .decode ↔ computed = prompt.length ∧ 0 < computed
  outputs : g.firstSeq.stage = .prefill → g.firstSeq.outputTokenIds = []
  begun : g.firstSeq.status = .waiting ∨ 0 < computed

/-- On the running queue a token of the budget is left, and the slot of a prefill is never empty. -/
theorem Admissible.chunkSize_pos (hadm : Admissible cfg queue numCachedTokens budget g)
    (hcfg : cfg.enableChunkedPrefill = true) (hqueue : queue = .running) {u : Nat} (hu : 0 < u) :
    0 < PolicyHelper.getNumComputeChunkSize budget u := by
  have hrem := hadm.running hqueue
  have hmax : budget.remainingTokenBudget ≤ cfg.maxPrefillTokens := by
    rw [SchedulingBudget.remainingTokenBudget, hadm.maxNumBatchedTokens]
    omega
  have hslot : 0 < budget.getPrefillSlots := by
    simp only [SchedulingBudget.getPrefillSlots, hadm.config, hcfg]
    split_ifs <;> omega
  simp only [PolicyHelper.getNumComputeChunkSize]
  omega

/-- What the preparation of the next round leaves, after a chunk of `n` tokens. -/
theorem InPrompt.prepared {prompt : List TokenId} {computed n : Nat}
    {next : SequenceGroup HashValue} (hcfg : cfg.enableChunkedPrefill = true)
    (hg : InPrompt prompt computed g) (hstage : g.firstSeq.stage = .prefill) (hn : 0 < n)
    (hle : computed + n ≤ prompt.length)
    (hnext : Scheduler.prepareAlone cfg ((g.withSelf.setStatus .running).scheduleChunk n true) n =
      .ok next) :
    InPrompt prompt (computed + n) next ∧ next.firstSeq.status = .running ∧
      next.firstSeq.stage = if prompt.length = computed + n then .decode else .prefill := by
  obtain ⟨k, hfirst, hothers, -, hk⟩ := prepareAlone_ok (by simp [Sequence.isFinished]) hnext
  have hcomputed := hg.numComputedTokens
  have hprompt := hg.promptTokenIds
  have houtputs := hg.outputs hstage
  have hstage' : next.firstSeq.stage =
      if prompt.length = computed + n then .decode else .prefill := by
    rw [hfirst]
    simp [Scheduler.pushPlaceHolders, Sequence.updateNumComputedTokens, Sequence.getLen,
      SequenceGroup.withSelf, houtputs, hcomputed, hprompt, hstage]
  refine ⟨⟨?_, ?_, ?_, hle, ?_, ?_, .inr (by omega)⟩, by rw [hfirst]; rfl, hstage'⟩
  · rw [hothers]
    simp [SequenceGroup.updateNumComputedTokens, SequenceGroup.setStatus,
      SequenceGroup.withSelf, hg.single]
  · rw [hfirst]
    exact hprompt
  · rw [hfirst]
    simp [Scheduler.pushPlaceHolders, Sequence.updateNumComputedTokens,
      SequenceGroup.withSelf, hcomputed]
  · rw [hstage']
    split_ifs with heq <;> simp [heq] <;> omega
  · -- the group stays in its prefill stage only if this was not the last chunk
    intro hprefill
    have hne : ¬prompt.length = computed + n := by
      rintro heq
      rw [hstage', if_pos heq] at hprefill
      cases hprefill
    have hk₀ : k = 0 := hk hcfg (by
      simp [SequenceGroup.withSelf, hprompt, hcomputed]
      omega)
    rw [hfirst, hk₀]
    simp [Sequence.updateNumComputedTokens, SequenceGroup.withSelf, houtputs]

/-- **One round.** It hands over the next, non-empty part of the prompt. -/
theorem round_spec {prompt : List TokenId} {computed : Nat} {chunk : Chunk}
    (hcfg : cfg.enableChunkedPrefill = true) (hg : InPrompt prompt computed g)
    (hstage : g.firstSeq.stage = .prefill) (hadm : Admissible cfg queue numCachedTokens budget g)
    (h : chunkRound cfg queue numCachedTokens budget g = .ok (some (chunk, g'))) :
    ∃ n, 0 < n ∧ computed + n ≤ prompt.length ∧
      chunk = ⟨⟨true, prompt.length ≤ computed + n, computed, computed + n⟩,
        prompt.length ≤ computed + n, prompt.length = computed + n⟩ ∧
      InPrompt prompt (computed + n) g' ∧ g'.firstSeq.status = .running := by
  have hlen : g.firstSeq.getLen = prompt.length := by
    simp [Sequence.getLen, hg.outputs hstage, hg.promptTokenIds]
  have hnot : ¬(computed = prompt.length ∧ 0 < computed) := by
    rw [← hg.stage, hstage]
    decide
  obtain ⟨u, c, hcount, hsum, hpos⟩ := count_of_prefill cfg true budget (g := g.withSelf)
    hg.single (fun h => if_pos h) hstage hadm.status
    (hg.numComputedTokens.trans_le (hg.le.trans hlen.ge)) hadm.cached
  change u + c = g.firstSeq.getLen - g.firstSeq.numComputedTokens at hsum
  change g.firstSeq.numComputedTokens < g.firstSeq.getLen → 0 < u at hpos
  rw [hlen, hg.numComputedTokens] at hsum hpos
  rw [if_pos rfl] at hcount
  simp only [chunkRound, hcount, bind, Except.bind] at h
  cases hscheduled : FcfsPolicy.scheduleFrom queue true budget
      (PolicyHelper.getNumComputeChunkSize budget u, c) g.withSelf with
  | none =>
    rw [hscheduled] at h
    cases h
  | some scheduled =>
    obtain ⟨n, rfl, hn⟩ :=
      scheduleFrom_prefill (g := g.withSelf) hg.single hstage hadm.status hscheduled
    have hchunk : PolicyHelper.getNumComputeChunkSize budget u ≤ u := by
      unfold PolicyHelper.getNumComputeChunkSize
      omega
    have hle : computed + n ≤ prompt.length := by
      have := hg.le
      omega
    have hn₀ : 0 < n := by
      rcases hn with ⟨rfl, hqueue⟩ | ⟨rfl, hu⟩
      · have hbegun : 0 < computed := by
          rcases hg.begun with hwait | hbegun
          · rw [hadm.status, hqueue] at hwait
            cases hwait
          · exact hbegun
        exact hadm.chunkSize_pos hcfg hqueue (hpos (by omega))
      · omega
    -- what the constructor, the metadata and the preparation make of the chunk
    simp only [hscheduled] at h
    cases hnext :
        Scheduler.prepareAlone cfg ((g.withSelf.setStatus .running).scheduleChunk n true) n with
    | error e =>
      rw [hnext] at h
      cases h
    | ok next =>
      simp only [hnext, pure, Except.pure, Except.ok.injEq, Option.some.injEq, Prod.mk.injEq] at h
      obtain ⟨rfl, rfl⟩ := h
      obtain ⟨hnextIn, hstatus, hstage'⟩ := hg.prepared hcfg hstage hn₀ hle hnext
      refine ⟨n, hn₀, hle, ?_, hnextIn, hstatus⟩
      have hlast : prompt.length ≤ computed + n ↔ prompt.length = computed + n := by omega
      have hpart : ¬prompt.length ≤ computed := by omega
      by_cases hend : prompt.length = computed + n
      · simp [Scheduler.setChunkedParam, Sequence.isPrefill, hstage', SequenceGroup.withSelf,
          hg.outputs hstage, hg.numComputedTokens, hg.promptTokenIds, hstage, hend]
        omega
      · simp [Scheduler.setChunkedParam, Sequence.isPrefill, hstage', SequenceGroup.withSelf,
          hg.outputs hstage, hg.numComputedTokens, hg.promptTokenIds, hlast, hpart, hstage, hend]

end Round

/-! ## Tilings -/

/-- Where the last of the ranges ends. -/
def chunksEnd : Nat → List Chunk → Nat
  | start, [] => start
  | _, c :: rest => chunksEnd c.param.splitEndPos rest

variable {len start : Nat} {chunks : List Chunk} {chunk : Chunk}

theorem chunksEnd_concat : chunksEnd start (chunks ++ [chunk]) = chunk.param.splitEndPos := by
  induction chunks generalizing start with
  | nil => rfl
  | cons c rest ih => exact ih

theorem Tiles.concat (h : Tiles len start chunks)
    (hlast : Tiles len (chunksEnd start chunks) [chunk]) : Tiles len start (chunks ++ [chunk]) := by
  induction chunks generalizing start with
  | nil => exact hlast
  | cons c rest ih =>
    obtain ⟨hstart, hlt, hle, hprefill, hreq, hflag, hdone, hrest⟩ := h
    exact ⟨hstart, hlt, hle, hprefill, hreq, hflag, hdone, ih hrest hlast⟩

theorem Tiles.lt_chunksEnd (h : Tiles len start chunks) (hne : chunks ≠ []) :
    start < chunksEnd start chunks := by
  induction chunks generalizing start with
  | nil => exact absurd rfl hne
  | cons c rest ih =>
    obtain ⟨-, hlt, -, -, -, -, -, hrest⟩ := h
    rcases eq_or_ne rest [] with rfl | hrest'
    · exact hlt
    · exact hlt.trans (ih hrest hrest')

/-! ## The main result -/

variable {cfg : SchedulerConfig} {g g' : SequenceGroup HashValue}

theorem Fresh.inPrompt (h : Fresh g) : InPrompt g.firstSeq.promptTokenIds 0 g where
  single := h.single
  promptTokenIds := rfl
  numComputedTokens := h.computed
  le := Nat.zero_le _
  stage := by simp [h.stage]
  outputs _ := h.outputs
  begun := .inl h.status

/-- **After a recomputation.** A group that is preempted by recomputation and dequeued again is
fresh: its prompt takes in the outputs without their placeholders and, if its last chunk had been
scheduled, the tokens that were fetched for it. Before the last chunk there are no outputs. -/
theorem fresh_of_recompute (hcfg : cfg.enableChunkedPrefill = true) (hsingle : g.otherSeqs = [])
    (tokens : List TokenId)
    (hchunk : g.isLastChunk = false → g.firstSeq.outputTokenIds = []) :
    ∃ seq, Scheduler.replacePlaceHolderOfSeq cfg g.isLastChunk tokens
        { g.firstSeq with status := .waiting }.resetStateForRecompute =
          .ok (seq, if g.isLastChunk then [] else tokens) ∧
      Fresh { g with firstSeq := seq } ∧
      seq.promptTokenIds = g.firstSeq.promptTokenIds ++
        (g.firstSeq.outputTokenIds.rdropWhile (· = placeholderToken) ++
          if g.isLastChunk then tokens else []) := by
  cases hlast : g.isLastChunk with
  | false =>
    have hnil := hchunk hlast
    refine ⟨{ g.firstSeq with status := .waiting }.resetStateForRecompute, ?_,
      ⟨hsingle, rfl, rfl, rfl, ?_⟩, ?_⟩
    · simp [Scheduler.replacePlaceHolderOfSeq, hcfg]
    · simp [Sequence.resetStateForRecompute, hnil]
    · simp [Sequence.resetStateForRecompute, hnil]
  | true =>
    refine ⟨_, Scheduler.replacePlaceHolderOfSeq_of_prefill (by simp) rfl, ?_⟩
    rw [Scheduler.updatePromptAndOutputTokenIds_of_prefill cfg rfl, if_pos hcfg]
    exact ⟨⟨hsingle, rfl, rfl, rfl, rfl⟩, rfl⟩

/-- The rounds keep their place in the prompt. -/
theorem Rounds.inPrompt (hcfg : cfg.enableChunkedPrefill = true) (hstart : Fresh g)
    (h : Rounds cfg g chunks g') :
    InPrompt g.firstSeq.promptTokenIds (chunksEnd 0 chunks) g' ∧
      Tiles g.firstSeq.promptTokenIds.length 0 chunks := by
  induction h with
  | start => exact ⟨hstart.inPrompt, trivial⟩
  | @swapOut chunks _ _ hstatus ih =>
    obtain ⟨hg, htiles⟩ := ih
    have hbegun : 0 < chunksEnd 0 chunks := by
      rcases hg.begun with hwait | hbegun
      · rw [hstatus] at hwait
        cases hwait
      · exact hbegun
    refine ⟨⟨?_, hg.promptTokenIds, hg.numComputedTokens, hg.le, hg.stage, hg.outputs,
      .inr hbegun⟩, htiles⟩
    simp [SequenceGroup.setStatus, hg.single]
  | @round chunks _ _ _ _ _ _ _ hstage hadm hround ih =>
    obtain ⟨hg, htiles⟩ := ih
    obtain ⟨n, hn, hle, rfl, hg', -⟩ := round_spec hcfg hg hstage hadm hround
    rw [chunksEnd_concat]
    refine ⟨hg', htiles.concat ?_⟩
    have hlast : g.firstSeq.promptTokenIds.length ≤ chunksEnd 0 chunks + n ↔
        chunksEnd 0 chunks + n = g.firstSeq.promptTokenIds.length :=
      ⟨fun h => le_antisymm hle h, fun h => h.ge⟩
    simp only [Tiles, decide_eq_true_eq]
    exact ⟨trivial, by omega, hle, trivial, hlast, hlast, eq_comm, trivial⟩

/-- **The chunks tile the prompt.** The ranges of the rounds of a group are not empty, follow one
another from the start of the prompt and do not go past its end. The range that reaches the end is
the one that is marked as the last, and with it the sequence leaves the prefill stage. -/
theorem tiles_of_rounds (hcfg : cfg.enableChunkedPrefill = true) (hstart : Fresh g)
    (h : Rounds cfg g chunks g') :
    Tiles g.firstSeq.promptTokenIds.length 0 chunks ∧
      (g'.firstSeq.stage = .decode ↔
        chunks ≠ [] ∧ chunksEnd 0 chunks = g.firstSeq.promptTokenIds.length) := by
  obtain ⟨hg, htiles⟩ := h.inPrompt hcfg hstart
  refine ⟨htiles, ?_⟩
  rw [hg.stage]
  constructor
  · rintro ⟨hend, hpos⟩
    refine ⟨?_, hend⟩
    rintro rfl
    exact absurd hpos (lt_irrefl 0)
  · rintro ⟨hne, hend⟩
    exact ⟨hend, htiles.lt_chunksEnd hne⟩

/-- A new group with a prompt of `n` tokens. -/
def newGroup (n : Nat) : SequenceGroup UInt64 where
  firstSeq :=
    { seqId := 0
      promptTokenIds := (List.range n).map Int.ofNat
      outputTokenIds := []
      stage := .prefill
      numComputedTokens := 0
      status := .waiting
      hashValue := 0 }
  otherSeqs := []
  enableParallelSampling := false
  parallelSeqs := []

def chunkedConfig (prefillChunkSize : Nat) : SchedulerConfig where
  cacheBlockSize := 2
  enablePrefixCache := true
  maxSeqLen := 16
  maxBatchSize := 4
  maxPrefillTokens := 8
  enableChunkedPrefill := true
  prefillChunkSize := prefillChunkSize

/-- A prompt of five tokens in two chunks: the first one takes three tokens and the second what is
left, with a budget that another group has already used. -/
theorem tiles_of_two :
    Tiles 5 0 [⟨⟨true, false, 0, 3⟩, false, false⟩, ⟨⟨true, true, 3, 5⟩, true, true⟩] := by
  have hfresh : Fresh (newGroup 5) := ⟨rfl, rfl, rfl, rfl, rfl⟩
  have hfirst : Admissible (chunkedConfig 3) .waiting 0 (.new 16 4 (chunkedConfig 3))
      (newGroup 5) :=
    ⟨rfl, by decide, rfl, rfl, by simp⟩
  have hstart : Rounds (chunkedConfig 3) (newGroup 5) [] (newGroup 5) := .start
  have hrounds := Rounds.round hstart rfl hfirst rfl
  have hsecond := Rounds.round hrounds rfl
    (⟨rfl, by decide, rfl, rfl, by decide⟩ : Admissible (chunkedConfig 3) .running 0
      ((SchedulingBudget.new 16 4 (chunkedConfig 3)).addNumBatchedTokens "other" 5 0) _) rfl
  exact (tiles_of_rounds rfl hfresh hsecond).1

/-- The first range does not start after the cached tokens, it includes them. -/
theorem first_chunk_includes_cached :
    ¬∀ (cfg : SchedulerConfig) (g g' : SequenceGroup UInt64) (numCachedTokens : Nat)
      (budget : SchedulingBudget) (chunk : Chunk),
      cfg.enableChunkedPrefill = true → Fresh g → Admissible cfg .waiting numCachedTokens budget g →
      chunkRound cfg .waiting numCachedTokens budget g = .ok (some (chunk, g')) →
      chunk.param.splitStartPos = numCachedTokens := by
  intro h
  have hstart := h (chunkedConfig 4) (newGroup 4) _ 2 (.new 16 4 (chunkedConfig 4)) _ rfl
    ⟨rfl, rfl, rfl, rfl, rfl⟩ ⟨rfl, by decide, rfl, rfl, by simp⟩ rfl
  exact absurd hstart (by decide)

end MindieLLM
