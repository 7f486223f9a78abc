import MindieLLM.Engine.AsyncView

/-!
# What holds of a sequence in the engine

An invariant of the view of one sequence: its outputs are tokens followed by placeholders, the
tokens are the ones the engine accepted so far, without those that still wait in a queue, and every
result to come finds its placeholders.

## Main definitions

* `Coherent`: what the configuration has to satisfy
* `LiveInv`, `SeqInv`: the invariant of a view

## Main results

* `LiveInv.fetch`, `LiveInv.replace`, `LiveInv.schedule`, `LiveInv.preempt`, `LiveInv.issue`,
  `LiveInv.prepare`, `LiveInv.handle`: the steps keep the invariant of a view
-/

namespace MindieLLM

variable {HashValue : Type}

/-- A configuration for which no more than `limit` batches are outstanding at a time. The check of
the configuration refuses to combine chunked prefill with layer-wise disaggregation. -/
structure Coherent (cfg : SchedulerConfig) (limit : Nat) : Prop where
  limit : limit ≤ cfg.maxScheduledBatch
  chunked : cfg.enableChunkedPrefill = true → cfg.layerwiseDisaggregated = false
  earlyStopping : ∀ t ∈ cfg.earlyStoppingIds, t ≠ placeholderToken

/-- The tokens that have been or will be generated for a sequence and are not in its outputs, if
every result brings as many tokens as it can. -/
def SeqView.due (cfg : SchedulerConfig) (v : SeqView HashValue) : Nat :=
  v.outstanding.length * cfg.tokenNumPerIter + v.predicted.length + v.queued.length

/-- The tokens of the results are kept. -/
def visible (cfg : SchedulerConfig) (g : SequenceGroup HashValue) : Bool :=
  !EngineState.isDiscardOutputToken cfg g

/-- The batch entry that the scheduling thread holds for a sequence. -/
def Place.entry : Place → Option BatchEntry
  | .scheduled e | .issued e => some e
  | _ => none

/-- The placeholders that the next preparation of the sequence adds. -/
def Place.promised (cfg : SchedulerConfig) : Place → Nat
  | .issued _ => cfg.tokenNumPerIter
  | _ => 0

open EngineState in
/-- The invariant of a live sequence with the outputs `real`, followed by `c` placeholders. -/
structure LiveInv (cfg : SchedulerConfig) (limit : Nat) (v : SeqView HashValue)
    (g : SequenceGroup HashValue) (real : List TokenId) (c : Nat) : Prop where
  single : g.otherSeqs = []
  sampling : g.enableParallelSampling = false
  unfinished : g.firstSeq.isFinished = false
  outputs : g.firstSeq.outputTokenIds = real ++ List.replicate c placeholderToken
  realTokens : ∀ t ∈ real, t ≠ placeholderToken
  predictedTokens : ∀ t ∈ v.predicted, t ≠ placeholderToken
  queuedTokens : ∀ t ∈ v.queued, t ≠ placeholderToken
  /-- No token is lost, and each is where it belongs. -/
  content : g.firstSeq.promptTokenIds ++ real ++ v.predicted ++ fetched cfg (some g) v.queued =
    v.prompt ++ v.accepted
  delivered : v.delivered = v.sampled
  /-- The flag of the group is the flag of every result to come. -/
  flags : ∀ e ∈ v.outstanding, e.isReqLastChunk = visible cfg g
  flag : ∀ e, v.place.entry = some e → e.isReqLastChunk = visible cfg g
  hidden : visible cfg g = false →
    real = [] ∧ c = 0 ∧ v.predicted = [] ∧ g.firstSeq.stage = .prefill
  idle : v.place ≠ .parked → v.predicted = []
  computed : g.firstSeq.stage = .prefill →
    c = 0 ∧ g.firstSeq.numComputedTokens ≤ g.firstSeq.getLen
  whole : g.firstSeq.stage = .prefill → cfg.enableChunkedPrefill = false →
    g.firstSeq.numComputedTokens = 0 ∧ (v.place.entry = none → g.firstSeq.status = .waiting)
  /-- With chunked prefill a sequence that may be scheduled has its tokens in the prompt. -/
  merged : g.firstSeq.stage = .prefill → cfg.enableChunkedPrefill = true → v.place ≠ .parked →
    real = []
  /-- The chunk that is scheduled is the last one exactly if it is marked so. -/
  chunk : ∀ e, v.place.entry = some e → g.firstSeq.stage = .prefill →
    g.firstSeq.numComputedTokens + e.tokenChunkSize ≤ g.firstSeq.getLen ∧
      (visible cfg g = true ↔ g.firstSeq.numComputedTokens + e.tokenChunkSize = g.firstSeq.getLen)
  /-- A prompt is scheduled when nothing is to come for its sequence. -/
  pending : ∀ e, v.place = .scheduled e → g.firstSeq.stage = .prefill →
    v.outstanding = [] ∧ v.queued = []
  issued : ∀ e, v.place = .issued e → g.firstSeq.stage = .prefill →
    v.due cfg ≤ cfg.tokenNumPerIter ∧ (cfg.speculationGamma = 0 → v.due cfg = 1)
  /-- A decoding sequence has a placeholder for each token to come. -/
  decode : g.firstSeq.stage = .decode →
    v.due cfg ≤ c + v.place.promised cfg ∧
      (cfg.speculationGamma = 0 → v.due cfg = c + v.place.promised cfg) ∧
      c ≤ cfg.maxPlaceHolderNum ∧
      g.firstSeq.promptTokenIds.length ≤ g.firstSeq.numComputedTokens
  bound : v.due cfg ≤ limit * cfg.tokenNumPerIter
  /-- A sequence that was never preempted. -/
  fresh : ¬v.recomputed →
    g.firstSeq.promptTokenIds = v.prompt ∧ v.accepted = v.sampled ∧ ¬v.inDBatch ∧
      g.firstSeq.layerwise.layerwiseRecompute = false ∧
      g.firstSeq.layerwise.layerwiseRunning = false ∧
      g.firstSeq.layerwise.layerwiseDiscard = false
  freshPrefill : ¬v.recomputed → g.firstSeq.stage = .prefill →
    real = [] ∧ v.predicted = [] ∧
      (v.place.entry = none → visible cfg g = false ∨ v.outstanding = [] ∧ v.queued = [])

structure SeqInv (cfg : SchedulerConfig) (limit : Nat) (v : SeqView HashValue) : Prop where
  unused : ¬v.used → v.predicted = [] ∧ v.queued = [] ∧ v.outstanding = [] ∧ v.place = .parked ∧
    v.sampled = [] ∧ v.accepted = [] ∧ v.delivered = [] ∧ ¬v.recomputed ∧ ¬v.inDBatch ∧
    v.group = none
  /-- In a round there is room for one more batch. -/
  room : v.inRound → 0 < limit ∧
    v.outstanding.length * cfg.tokenNumPerIter + v.queued.length ≤ (limit - 1) * cfg.tokenNumPerIter
  live : ∀ g, v.group = some g → ∃ real c, LiveInv cfg limit v g real c

section

variable {cfg : SchedulerConfig} {limit : Nat} {v : SeqView HashValue} {g : SequenceGroup HashValue}
  {real : List TokenId} {c : Nat}

theorem tokenNumPerIter_pos (cfg : SchedulerConfig) : 0 < cfg.tokenNumPerIter := by
  unfold SchedulerConfig.tokenNumPerIter
  omega

theorem Coherent.limit_mul_le (hcfg : Coherent cfg limit) :
    limit * cfg.tokenNumPerIter + cfg.tokenNumPerIter ≤ cfg.maxPlaceHolderNum :=
  Nat.add_le_add_right (Nat.mul_le_mul_right _ hcfg.limit) _

open EngineState in
theorem fetched_of_visible (h : visible cfg g = true) (tokens : List TokenId) :
    fetched cfg (some g) tokens = tokens := by
  have h : isDiscardOutputToken cfg g = false := by simpa [visible] using h
  simp [fetched, h]

open EngineState in
theorem fetched_of_hidden (h : visible cfg g = false) (tokens : List TokenId) :
    fetched cfg (some g) tokens = [] := by
  have h : isDiscardOutputToken cfg g = true := by simpa [visible] using h
  simp [fetched, h]

theorem visible_of_whole (h : cfg.enableChunkedPrefill = false) : visible cfg g = true := by
  simp [visible, EngineState.isDiscardOutputToken, h]

theorem not_hidden (h : visible cfg g = true) : ¬(cfg.enableChunkedPrefill ∧ !g.isLastChunk) := by
  intro hhidden
  have hdiscard : EngineState.isDiscardOutputToken cfg g = true := by
    simpa [EngineState.isDiscardOutputToken] using hhidden
  simp [visible, hdiscard] at h

theorem LiveInv.visible_of_decode (h : LiveInv cfg limit v g real c)
    (hstage : g.firstSeq.stage = .decode) : visible cfg g = true := by
  by_contra hhidden
  have hprefill := (h.hidden (by simpa using hhidden)).2.2.2
  rw [hstage] at hprefill
  cases hprefill

/-! ## The steps of the scheduling thread -/

open EngineState in
theorem LiveInv.fetch (h : LiveInv cfg limit v g real c) (hgroup : v.group = some g)
    (hplace : v.place = .parked) : LiveInv cfg limit (fetchView cfg v) g real c := by
  have hnone : v.place.entry = none := by rw [hplace]; rfl
  cases hvis : visible cfg g with
  | true =>
    have hfetched := fetched_of_visible hvis v.queued
    have hpredicted : (fetchView cfg v).predicted = v.predicted ++ v.queued := by
      rw [fetchView, hgroup, hfetched]
    have hdue : (fetchView cfg v).due cfg = v.due cfg := by
      simp only [SeqView.due, hpredicted, List.length_append]
      simp only [fetchView, List.length_nil]
      omega
    exact { h with
      predictedTokens := by
        intro t ht
        rw [hpredicted] at ht
        exact (List.mem_append.mp ht).elim (h.predictedTokens t) (h.queuedTokens t)
      queuedTokens := by simp [fetchView]
      content := by
        rw [hpredicted]
        have := h.content
        rw [hfetched] at this
        simpa [fetchView] using this
      hidden := by simp [hvis]
      idle := fun hne => absurd hplace hne
      pending := fun e he => by simp [fetchView, hplace] at he
      issued := fun e he => by simp [fetchView, hplace] at he
      decode := by
        rw [hdue]
        exact h.decode
      bound := hdue ▸ h.bound
      freshPrefill := fun hrec hstage => by
        obtain ⟨hreal, hpred, hnothing⟩ := h.freshPrefill hrec hstage
        rcases hnothing hnone with hhidden | ⟨hout, hqueued⟩
        · rw [hvis] at hhidden
          cases hhidden
        · exact ⟨hreal, by rw [hpredicted, hpred, hqueued]; rfl, fun _ => .inr ⟨hout, rfl⟩⟩ }
  | false =>
    obtain ⟨-, -, hpred, hprefill⟩ := h.hidden hvis
    have hfetched := fetched_of_hidden hvis
    have hpredicted : (fetchView cfg v).predicted = v.predicted := by
      rw [fetchView, hgroup, hfetched, List.append_nil]
    have hdue : (fetchView cfg v).due cfg ≤ v.due cfg := by
      simp only [SeqView.due, hpredicted]
      simp only [fetchView, List.length_nil]
      omega
    exact { h with
      predictedTokens := hpredicted ▸ h.predictedTokens
      queuedTokens := by simp [fetchView]
      content := by
        have := h.content
        rw [hfetched] at this ⊢
        rwa [hpredicted]
      hidden := hpredicted ▸ h.hidden
      idle := fun hne => absurd hplace hne
      pending := fun e he => by simp [fetchView, hplace] at he
      issued := fun e he => by simp [fetchView, hplace] at he
      decode := fun hdecode => by
        rw [hprefill] at hdecode
        cases hdecode
      bound := hdue.trans h.bound
      freshPrefill := fun hrec hstage => by
        obtain ⟨hreal, -, -⟩ := h.freshPrefill hrec hstage
        exact ⟨hreal, by rw [hpredicted, hpred], fun _ => .inl hvis⟩ }

open EngineState in
theorem LiveInv.replace_hidden (h : LiveInv cfg limit v g real c) (hplace : v.place = .parked)
    (hvis : visible cfg g = false) :
    Scheduler.replacePlaceHolderOfSeq cfg g.isLastChunk v.predicted g.firstSeq =
        .ok (g.firstSeq, []) ∧
      LiveInv cfg limit (dequeueView v g g.firstSeq) g real c := by
  have hnone : v.place.entry = none := by rw [hplace]; rfl
  obtain ⟨hreal, -, hpred, hprefill⟩ := h.hidden hvis
  have hchunk : cfg.enableChunkedPrefill ∧ !g.isLastChunk := by
    simpa [visible, EngineState.isDiscardOutputToken] using hvis
  have hdue : (dequeueView v g g.firstSeq).due cfg = v.due cfg := by
    simp [SeqView.due, dequeueView, hpred]
  refine ⟨by rw [Scheduler.replacePlaceHolderOfSeq, if_pos hchunk, hpred], ?_⟩
  exact { h with
    predictedTokens := by simp [dequeueView]
    content := by simpa [dequeueView, hpred] using h.content
    flag := fun e he => by simp [dequeueView, Place.entry] at he
    hidden := fun _ => by simpa [dequeueView, hpred] using h.hidden hvis
    idle := fun _ => rfl
    whole := fun hstage hwhole =>
      ⟨(h.whole hstage hwhole).1, fun _ => (h.whole hstage hwhole).2 hnone⟩
    merged := fun _ _ _ => hreal
    chunk := fun e he => by simp [dequeueView, Place.entry] at he
    pending := fun e he => by simp [dequeueView] at he
    issued := fun e he => by simp [dequeueView] at he
    decode := fun hdecode => by
      rw [hprefill] at hdecode
      cases hdecode
    bound := hdue ▸ h.bound
    freshPrefill := fun _ _ => ⟨hreal, rfl, fun _ => .inl hvis⟩ }

open EngineState in
theorem LiveInv.replace_prefill (h : LiveInv cfg limit v g real c) (hplace : v.place = .parked)
    (hvis : visible cfg g = true) (hstage : g.firstSeq.stage = .prefill) :
    ∃ seq, Scheduler.replacePlaceHolderOfSeq cfg g.isLastChunk v.predicted g.firstSeq =
        .ok (seq, []) ∧
      ∃ real', LiveInv cfg limit (dequeueView v g seq) { g with firstSeq := seq } real' 0 := by
  have hnone : v.place.entry = none := by rw [hplace]; rfl
  obtain ⟨rfl, hcomputed⟩ := h.computed hstage
  have houtputs : g.firstSeq.outputTokenIds = real := by simpa using h.outputs
  have hlast : ¬(cfg.enableChunkedPrefill ∧ !g.isLastChunk) := not_hidden hvis
  have hfetched := fetched_of_visible hvis
  have hcontent := h.content
  rw [hfetched] at hcontent
  have htokens : ∀ t ∈ real ++ v.predicted, t ≠ placeholderToken := fun t ht =>
    (List.mem_append.mp ht).elim (h.realTokens t) (h.predictedTokens t)
  -- the tokens go to the end of the prompt or stay in the outputs
  obtain ⟨prompt', real', hsplit, hmerged, hreal', hkeep, hseq⟩ :
      ∃ prompt' real', prompt' ++ real' = g.firstSeq.promptTokenIds ++ real ++ v.predicted ∧
        (cfg.enableChunkedPrefill = true → real' = []) ∧
        (∀ t ∈ real', t ≠ placeholderToken) ∧
        (real = [] → v.predicted = [] → prompt' = g.firstSeq.promptTokenIds ∧ real' = []) ∧
        Scheduler.updatePromptAndOutputTokenIds cfg
          { g.firstSeq with outputTokenIds := g.firstSeq.outputTokenIds ++ v.predicted } =
          { g.firstSeq with promptTokenIds := prompt', outputTokenIds := real' } := by
    have hupdate := Scheduler.updatePromptAndOutputTokenIds_of_prefill cfg
      (show { g.firstSeq with outputTokenIds := real ++ v.predicted }.stage = .prefill from hstage)
    rw [houtputs, hupdate]
    split_ifs with hchunked
    · refine ⟨_, [], ?_, fun _ => rfl, by simp, fun hreal hpred => ?_, rfl⟩
      · simp
      · simp [hreal, hpred]
    · refine ⟨_, real ++ v.predicted, by simp, fun h => absurd h hchunked, htokens,
        fun hreal hpred => ?_, rfl⟩
      simp [hreal, hpred]
  have hlen : prompt'.length + real'.length =
      g.firstSeq.promptTokenIds.length + real.length + v.predicted.length := by
    simpa [Nat.add_assoc] using congrArg List.length hsplit
  have hdue : (dequeueView v g { g.firstSeq with
      promptTokenIds := prompt', outputTokenIds := real' }).due cfg ≤ v.due cfg := by
    simp only [SeqView.due, dequeueView, List.length_nil]
    omega
  refine ⟨_, (Scheduler.replacePlaceHolderOfSeq_of_prefill hlast hstage).trans (by rw [hseq]),
    real', ?_⟩
  exact { h with
    outputs := by simp
    realTokens := hreal'
    predictedTokens := by simp [dequeueView]
    content := by
      show prompt' ++ real' ++ [] ++ EngineState.fetched cfg (some g) v.queued =
        v.prompt ++ v.accepted
      rw [hfetched, List.append_nil, hsplit, hcontent]
    flag := fun e he => by simp [dequeueView, Place.entry] at he
    hidden := fun hhidden => by
      rw [show visible cfg g = false from hhidden] at hvis
      cases hvis
    idle := fun _ => rfl
    computed := fun _ => ⟨rfl, by
      have := hcomputed
      simp only [Sequence.getLen, houtputs] at this ⊢
      omega⟩
    whole := fun hstage hwhole =>
      ⟨(h.whole hstage hwhole).1, fun _ => (h.whole hstage hwhole).2 hnone⟩
    merged := fun _ hchunked _ => hmerged hchunked
    chunk := fun e he => by simp [dequeueView, Place.entry] at he
    pending := fun e he => by simp [dequeueView] at he
    issued := fun e he => by simp [dequeueView] at he
    decode := fun hdecode => by
      rw [show g.firstSeq.stage = .decode from hdecode] at hstage
      cases hstage
    bound := hdue.trans h.bound
    fresh := fun hrec => by
      obtain ⟨hreal, hpred, -⟩ := h.freshPrefill hrec hstage
      obtain ⟨hprompt, hrest⟩ := h.fresh hrec
      exact ⟨(hkeep hreal hpred).1.trans hprompt, hrest⟩
    freshPrefill := fun hrec _ => by
      obtain ⟨hreal, hpred, hnothing⟩ := h.freshPrefill hrec hstage
      exact ⟨(hkeep hreal hpred).2, rfl, fun _ => hnothing hnone⟩ }

open EngineState in
theorem LiveInv.replace_decode (h : LiveInv cfg limit v g real c) (hplace : v.place = .parked)
    (hstage : g.firstSeq.stage = .decode) :
    ∃ seq, Scheduler.replacePlaceHolderOfSeq cfg g.isLastChunk v.predicted g.firstSeq =
        .ok (seq, []) ∧
      LiveInv cfg limit (dequeueView v g seq) { g with firstSeq := seq } (real ++ v.predicted)
        (c - v.predicted.length) := by
  have hvis := h.visible_of_decode hstage
  have hfetched := fetched_of_visible hvis
  obtain ⟨hdue, hexact, hmax, hcomputed⟩ := h.decode hstage
  have hpromised : v.place.promised cfg = 0 := by rw [hplace]; rfl
  rw [hpromised, Nat.add_zero] at hdue hexact
  have hle : v.predicted.length ≤ c := by
    unfold SeqView.due at hdue
    omega
  refine ⟨_, Scheduler.replacePlaceHolderOfSeq_of_decode (not_hidden hvis) hstage h.outputs
    (noTrailing_of_forall h.realTokens) hle hmax, ?_⟩
  exact { h with
    outputs := rfl
    realTokens := fun t ht => (List.mem_append.mp ht).elim (h.realTokens t) (h.predictedTokens t)
    predictedTokens := by simp [dequeueView]
    content := by
      show g.firstSeq.promptTokenIds ++ (real ++ v.predicted) ++ [] ++
        EngineState.fetched cfg (some g) v.queued = v.prompt ++ v.accepted
      rw [List.append_nil, ← List.append_assoc]
      exact h.content
    flag := fun e he => by simp [dequeueView, Place.entry] at he
    hidden := fun hhidden => by
      rw [show visible cfg g = false from hhidden] at hvis
      cases hvis
    idle := fun _ => rfl
    computed := fun hprefill => by
      rw [show g.firstSeq.stage = .prefill from hprefill] at hstage
      cases hstage
    whole := fun hprefill => by
      rw [show g.firstSeq.stage = .prefill from hprefill] at hstage
      cases hstage
    merged := fun hprefill => by
      rw [show g.firstSeq.stage = .prefill from hprefill] at hstage
      cases hstage
    chunk := fun e he => by simp [dequeueView, Place.entry] at he
    pending := fun e he => by simp [dequeueView] at he
    issued := fun e he => by simp [dequeueView] at he
    -- the tokens that were predicted are no longer due
    decode := fun _ => by
      unfold SeqView.due at hdue hexact
      refine ⟨?_, fun hgamma => ?_, by omega, hcomputed⟩
      · show v.outstanding.length * cfg.tokenNumPerIter + 0 + v.queued.length ≤
          c - v.predicted.length + 0
        omega
      · have := hexact hgamma
        show v.outstanding.length * cfg.tokenNumPerIter + 0 + v.queued.length =
          c - v.predicted.length + 0
        omega
    bound := by
      have := h.bound
      unfold SeqView.due at this
      show v.outstanding.length * cfg.tokenNumPerIter + 0 + v.queued.length ≤
        limit * cfg.tokenNumPerIter
      omega
    freshPrefill := fun _ hprefill => by
      rw [show g.firstSeq.stage = .prefill from hprefill] at hstage
      cases hstage }

open EngineState in
/-- Replacing the placeholders of a sequence does not throw, and takes all its tokens. -/
theorem LiveInv.replace (h : LiveInv cfg limit v g real c) (hplace : v.place = .parked) :
    ∃ seq, Scheduler.replacePlaceHolderOfSeq cfg g.isLastChunk v.predicted g.firstSeq =
        .ok (seq, []) ∧
      ∃ real' c', LiveInv cfg limit (dequeueView v g seq) { g with firstSeq := seq } real' c' := by
  cases hvis : visible cfg g with
  | false =>
    obtain ⟨hok, hinv⟩ := h.replace_hidden hplace hvis
    exact ⟨_, hok, _, _, hinv⟩
  | true =>
    cases hstage : g.firstSeq.stage with
    | prefill =>
      obtain ⟨seq, hok, real', hinv⟩ := h.replace_prefill hplace hvis hstage
      exact ⟨seq, hok, _, _, hinv⟩
    | decode =>
      obtain ⟨seq, hok, hinv⟩ := h.replace_decode hplace hstage
      exact ⟨seq, hok, _, _, hinv⟩

/-- What the policy can do with a candidate. -/
theorem schedule_cases (hcfg : Coherent cfg limit) (σ : EngineState HashValue) (s : SequenceId)
    {queue : QueueKind} {numCachedTokens : Nat} (budget : SchedulingBudget)
    (h : LiveInv cfg limit v g real c) (hstatus : g.firstSeq.status = queue.status)
    (hcached : numCachedTokens ≤ g.firstSeq.getLen) :
    σ.schedule cfg s g queue numCachedTokens budget = .ok none ∨
      ∃ n m, σ.schedule cfg s g queue numCachedTokens budget = .ok (some
          { σ.setGroup s
              (some ((g.setStatus .running).scheduleChunk n cfg.enableChunkedPrefill)) with
            candidates := σ.candidates.erase s
            scheduled := σ.scheduled ++
              [⟨s, m, g.firstSeq.promptTokenIds.length ≤ g.firstSeq.numComputedTokens + m⟩] }) ∧
        (g.firstSeq.stage = .prefill →
          n = m ∧ g.firstSeq.numComputedTokens + m ≤ g.firstSeq.getLen ∧
            (queue = .waiting → cfg.enableChunkedPrefill = false →
              g.firstSeq.numComputedTokens + m = g.firstSeq.getLen)) ∧
        (g.firstSeq.stage = .decode → m = 1) := by
  have hchunking : EngineState.enableChunking cfg queue = cfg.enableChunkedPrefill := by
    cases hchunked : cfg.enableChunkedPrefill with
    | false => simp [EngineState.enableChunking, hchunked]
    | true => simp [EngineState.enableChunking, hchunked, hcfg.chunked hchunked]
  unfold EngineState.schedule
  rw [hchunking]
  cases hstage : g.firstSeq.stage with
  | prefill =>
    obtain ⟨-, hcomputed⟩ := h.computed hstage
    obtain ⟨u, cached, hcount, hsum, -⟩ := count_of_prefill cfg cfg.enableChunkedPrefill budget
      h.single (fun hpar => by simp [h.sampling] at hpar) hstage hstatus hcomputed hcached
    simp only [hcount, bind, Except.bind, pure, Except.pure]
    cases hsched : FcfsPolicy.scheduleFrom queue cfg.enableChunkedPrefill budget
        (if cfg.enableChunkedPrefill then PolicyHelper.getNumComputeChunkSize budget u else u,
          cached)
        g with
    | none => exact .inl rfl
    | some scheduled =>
      obtain ⟨n, rfl, hn⟩ := scheduleFrom_prefill h.single hstage hstatus hsched
      have hle : (if cfg.enableChunkedPrefill then PolicyHelper.getNumComputeChunkSize budget u
          else u) ≤ u := by
        unfold PolicyHelper.getNumComputeChunkSize
        split_ifs <;> omega
      refine .inr ⟨n, n, ?_, fun _ => ⟨rfl, by omega, fun hqueue hwhole => ?_⟩, by simp⟩
      · simp [Scheduler.setChunkedParam]
      · rw [if_neg (by simp [hwhole])] at hn
        rcases hn with ⟨-, hrunning⟩ | ⟨rfl, -⟩
        · rw [hqueue] at hrunning
          cases hrunning
        · omega
  | decode =>
    have hcount := count_of_decode cfg cfg.enableChunkedPrefill budget numCachedTokens h.single
      h.sampling hstage hstatus
    simp only [hcount, bind, Except.bind, pure, Except.pure]
    cases hsched : FcfsPolicy.scheduleFrom queue cfg.enableChunkedPrefill budget
        (if cfg.enableChunkedPrefill then PolicyHelper.getNumComputeChunkSize budget 1 else 1, 0)
        g with
    | none => exact .inl rfl
    | some scheduled =>
      have hle : (if cfg.enableChunkedPrefill then PolicyHelper.getNumComputeChunkSize budget 1
          else 1) ≤ 1 := by
        unfold PolicyHelper.getNumComputeChunkSize
        split_ifs <;> omega
      obtain ⟨n, rfl⟩ := scheduleFrom_decode hle h.single hstage hstatus hsched
      exact .inr ⟨n, 1, by simp [Scheduler.setChunkedParam], by simp, fun _ => rfl⟩

/-- A candidate is scheduled. A prompt needs that nothing is to come for its sequence. -/
theorem LiveInv.schedule (h : LiveInv cfg limit v g real c) (hplace : v.place = .candidate)
    {e : BatchEntry} {n : Nat} (hflag : e.isReqLastChunk =
      decide (g.firstSeq.promptTokenIds.length ≤ g.firstSeq.numComputedTokens + e.tokenChunkSize))
    (hprefill : g.firstSeq.stage = .prefill →
      n = e.tokenChunkSize ∧ g.firstSeq.numComputedTokens + e.tokenChunkSize ≤ g.firstSeq.getLen ∧
        (cfg.enableChunkedPrefill = false →
          g.firstSeq.numComputedTokens + e.tokenChunkSize = g.firstSeq.getLen) ∧
        v.outstanding = [] ∧ v.queued = []) :
    ∃ g', g' = (g.setStatus .running).scheduleChunk n cfg.enableChunkedPrefill ∧
      LiveInv cfg limit { v with place := .scheduled e, group := some g' } g' real c := by
  refine ⟨_, rfl, ?_⟩
  have hpred : v.predicted = [] := h.idle (by simp [hplace])
  have hfirst : ((g.setStatus .running).scheduleChunk n cfg.enableChunkedPrefill).firstSeq =
      { g.firstSeq with status := .running } := by simp
  have hother :
      ((g.setStatus .running).scheduleChunk n cfg.enableChunkedPrefill).otherSeqs = [] := by
    simp [SequenceGroup.setStatus, h.single]
  have hsampling : ((g.setStatus .running).scheduleChunk n
      cfg.enableChunkedPrefill).enableParallelSampling = false := by simp [h.sampling]
  have hvis : visible cfg ((g.setStatus .running).scheduleChunk n cfg.enableChunkedPrefill) =
      (!cfg.enableChunkedPrefill ||
        decide (g.firstSeq.promptTokenIds.length ≤ g.firstSeq.numComputedTokens + n)) := by
    cases hchunked : cfg.enableChunkedPrefill with
    | false => simp [visible, EngineState.isDiscardOutputToken, hchunked]
    | true =>
      simp only [visible, EngineState.isDiscardOutputToken, hchunked, Bool.true_and, Bool.not_not]
      rfl
  have hlen : g.firstSeq.promptTokenIds.length ≤ g.firstSeq.getLen := by
    unfold Sequence.getLen
    omega
  -- the flag of the entry is the flag of the group
  have hsame : e.isReqLastChunk =
      visible cfg ((g.setStatus .running).scheduleChunk n cfg.enableChunkedPrefill) := by
    rw [hvis, hflag]
    cases hstage : g.firstSeq.stage with
    | prefill =>
      obtain ⟨rfl, -, hwhole, -⟩ := hprefill hstage
      cases hchunked : cfg.enableChunkedPrefill with
      | false =>
        have := hwhole hchunked
        simp only [Bool.not_false, Bool.true_or, decide_eq_true_eq]
        omega
      | true => simp
    | decode =>
      have hcomputed := (h.decode hstage).2.2.2
      have hleft : g.firstSeq.promptTokenIds.length ≤
        g.firstSeq.numComputedTokens + e.tokenChunkSize := by omega
      have hright : g.firstSeq.promptTokenIds.length ≤ g.firstSeq.numComputedTokens + n := by omega
      simp [hleft, hright]
  have hdecode : g.firstSeq.stage = .decode →
      visible cfg ((g.setStatus .running).scheduleChunk n cfg.enableChunkedPrefill) = true := by
    intro hstage
    have hcomputed := (h.decode hstage).2.2.2
    have : g.firstSeq.promptTokenIds.length ≤ g.firstSeq.numComputedTokens + n := by omega
    simp [hvis, this]
  generalize (g.setStatus .running).scheduleChunk n cfg.enableChunkedPrefill = g' at *
  obtain ⟨firstSeq', otherSeqs', sampling'⟩ := g'
  obtain rfl : firstSeq' = { g.firstSeq with status := .running } := hfirst
  exact { h with
    single := hother
    sampling := hsampling
    unfinished := rfl
    content := by
      have hcontent := h.content
      cases hstage : g.firstSeq.stage with
      | prefill =>
        obtain ⟨-, -, -, -, hqueued⟩ := hprefill hstage
        simpa [hqueued] using hcontent
      | decode =>
        rw [fetched_of_visible (h.visible_of_decode hstage)] at hcontent
        rw [fetched_of_visible (hdecode hstage)]
        exact hcontent
    flags := by
      cases hstage : g.firstSeq.stage with
      | prefill =>
        obtain ⟨-, -, -, hout, -⟩ := hprefill hstage
        simp [hout]
      | decode =>
        intro e' he'
        rw [hdecode hstage, h.flags e' he', h.visible_of_decode hstage]
    flag := fun e' he' => by
      obtain rfl : e = e' := by simpa [Place.entry] using he'
      exact hsame
    hidden := fun hhidden => by
      cases hstage : g.firstSeq.stage with
      | prefill =>
        have hchunked : cfg.enableChunkedPrefill = true := by
          by_contra hwhole
          rw [visible_of_whole (by simpa using hwhole)] at hhidden
          cases hhidden
        exact ⟨h.merged hstage hchunked (by simp [hplace]), (h.computed hstage).1, hpred, rfl⟩
      | decode =>
        rw [hdecode hstage] at hhidden
        cases hhidden
    idle := fun _ => hpred
    whole := fun hstage hwhole => ⟨(h.whole hstage hwhole).1, fun he => by simp [Place.entry] at he⟩
    merged := fun hstage hchunked _ => h.merged hstage hchunked (by simp [hplace])
    chunk := fun e' he' hstage => by
      obtain rfl : e = e' := by simpa [Place.entry] using he'
      obtain ⟨rfl, hle, hwhole, -⟩ := hprefill hstage
      refine ⟨hle, ?_⟩
      rw [hvis]
      cases hchunked : cfg.enableChunkedPrefill with
      | false => exact ⟨fun _ => hwhole hchunked, fun _ => rfl⟩
      | true =>
        -- the outputs are in the prompt, so the prompt is all of the sequence
        have houtputs : g.firstSeq.outputTokenIds = [] := by
          rw [h.outputs, h.merged hstage hchunked (by simp [hplace]), (h.computed hstage).1]
          rfl
        have hprompt : g.firstSeq.getLen = g.firstSeq.promptTokenIds.length := by
          simp [Sequence.getLen, houtputs]
        show (!true || decide _) = true ↔ g.firstSeq.numComputedTokens + e.tokenChunkSize =
          g.firstSeq.getLen
        rw [Bool.not_true, Bool.false_or, decide_eq_true_eq]
        omega
    pending := fun _ _ hstage => (hprefill hstage).2.2.2
    issued := fun e' he' => by simp at he'
    decode := fun hdecode => by
      have := h.decode hdecode
      rw [hplace] at this
      exact this
    freshPrefill := fun hrec hstage => by
      obtain ⟨hreal, -, -⟩ := h.freshPrefill hrec hstage
      exact ⟨hreal, hpred, fun he => by simp [Place.entry] at he⟩ }

/-- A running candidate loses its placeholders and goes back to the waiting queue. The end of its
thinking may be inserted if it decodes and no token waits for it. -/
theorem LiveInv.preempt (h : LiveInv cfg limit v g real c) (hplace : v.place = .candidate)
    {seq : Sequence HashValue} {inserted : List TokenId}
    (hseq : seq = { { g.firstSeq with status := .waiting }.resetStateForRecompute with
      outputTokenIds := real ++ inserted })
    (hinserted : ∀ t ∈ inserted, t ≠ placeholderToken)
    (hthinking : inserted = [] ∨ g.firstSeq.stage = .decode ∧ v.queued = []) :
    LiveInv cfg limit
      { v with
        place := .parked
        group := some { g with firstSeq := seq }
        accepted := v.accepted ++ inserted
        recomputed := True }
      { g with firstSeq := seq } (real ++ inserted) 0 := by
  subst hseq
  have hpred : v.predicted = [] := h.idle (by simp [hplace])
  exact { h with
    unfinished := rfl
    outputs := by simp
    realTokens := fun t ht => (List.mem_append.mp ht).elim (h.realTokens t) (hinserted t)
    content := by
      have hcontent := h.content
      show g.firstSeq.promptTokenIds ++ (real ++ inserted) ++ v.predicted ++
        EngineState.fetched cfg (some g) v.queued = v.prompt ++ (v.accepted ++ inserted)
      rcases hthinking with rfl | ⟨-, hqueued⟩
      · simpa using hcontent
      · rw [hpred, hqueued, EngineState.fetched_nil, List.append_nil, List.append_nil] at hcontent ⊢
        rw [← List.append_assoc, hcontent, List.append_assoc]
    hidden := fun hhidden => by
      obtain ⟨hreal, -, -, hprefill⟩ := h.hidden hhidden
      rcases hthinking with rfl | ⟨hdecode, -⟩
      · exact ⟨by rw [hreal]; rfl, rfl, hpred, rfl⟩
      · rw [hdecode] at hprefill
        cases hprefill
    flag := fun e he => by simp [Place.entry] at he
    idle := fun hne => absurd rfl hne
    computed := fun _ => ⟨rfl, Nat.zero_le _⟩
    whole := fun _ _ => ⟨rfl, fun _ => rfl⟩
    merged := fun _ _ hne => absurd rfl hne
    chunk := fun e he => by simp [Place.entry] at he
    pending := fun e he => by simp at he
    issued := fun e he => by simp at he
    decode := fun hdecode => by cases hdecode
    fresh := fun hrec => absurd trivial hrec
    freshPrefill := fun hrec => absurd trivial hrec }

theorem LiveInv.swapOut (h : LiveInv cfg limit v g real c) (hplace : v.place = .candidate)
    (hstatus : g.firstSeq.status = .running) :
    LiveInv cfg limit { v with place := .parked, group := some (g.setStatus .swapped) }
      (g.setStatus .swapped) real c := by
  have hnone : v.place.entry = none := by rw [hplace]; rfl
  exact { h with
    single := by simp [SequenceGroup.setStatus, h.single]
    unfinished := rfl
    flag := fun e he => by simp [Place.entry] at he
    idle := fun hne => absurd rfl hne
    whole := fun hstage hwhole => by
      have hwaiting := (h.whole hstage hwhole).2 hnone
      rw [hstatus] at hwaiting
      cases hwaiting
    merged := fun _ _ hne => absurd rfl hne
    chunk := fun e he => by simp [Place.entry] at he
    pending := fun e he => by simp at he
    issued := fun e he => by simp at he
    decode := fun hdecode => by
      have := h.decode hdecode
      rw [hplace] at this
      exact this
    freshPrefill := fun hrec hstage => by
      obtain ⟨hreal, hpred, hnothing⟩ := h.freshPrefill hrec hstage
      exact ⟨hreal, hpred, fun _ => hnothing hnone⟩ }

open EngineState in
/-- The batch is handed over. There was room for it. -/
theorem LiveInv.issue (h : LiveInv cfg limit v g real c) (hnot : ∀ e, v.place ≠ .issued e)
    (hlimit : 0 < limit)
    (hroom : v.outstanding.length * cfg.tokenNumPerIter + v.queued.length ≤
      (limit - 1) * cfg.tokenNumPerIter) :
    LiveInv cfg limit (issueView v) g real c := by
  cases hplace : v.place with
  | parked =>
    have hview : issueView v = { v with inRound := False } := by
      simp [issueView, hplace, Place.issue]
    rw [hview]
    exact { h with }
  | candidate =>
    have hview : issueView v = { v with inRound := False, place := .parked } := by
      simp [issueView, hplace, Place.issue]
    have hnone : v.place.entry = none := by rw [hplace]; rfl
    rw [hview]
    exact { h with
      flag := fun e he => by simp [Place.entry] at he
      idle := fun hne => absurd rfl hne
      whole := fun hstage hwhole =>
        ⟨(h.whole hstage hwhole).1, fun _ => (h.whole hstage hwhole).2 hnone⟩
      merged := fun _ _ hne => absurd rfl hne
      chunk := fun e he => by simp [Place.entry] at he
      pending := fun e he => by simp at he
      issued := fun e he => by simp at he
      decode := fun hdecode => by
        have := h.decode hdecode
        rw [hplace] at this
        exact this
      freshPrefill := fun hrec hstage => by
        obtain ⟨hreal, hpred, hnothing⟩ := h.freshPrefill hrec hstage
        exact ⟨hreal, hpred, fun _ => hnothing hnone⟩ }
  | scheduled e =>
    have hview : issueView v = { v with
        inRound := False, place := .issued e, outstanding := v.outstanding ++ [e] } := by
      simp [issueView, hplace, Place.issue]
    have hentry : v.place.entry = some e := by rw [hplace]; rfl
    have hpred : v.predicted = [] := h.idle (by simp [hplace])
    have hdue : SeqView.due cfg { v with
        inRound := False, place := .issued e, outstanding := v.outstanding ++ [e] } =
        v.due cfg + cfg.tokenNumPerIter := by
      simp only [SeqView.due, List.length_append, List.length_singleton]
      lia
    rw [hview]
    exact { h with
      flags := fun e' he' => by
        rcases List.mem_append.mp he' with he' | he'
        · exact h.flags e' he'
        · obtain rfl : e' = e := by simpa using he'
          exact h.flag e' hentry
      flag := fun e' he' => h.flag e' (hentry.trans he')
      idle := fun _ => hpred
      whole := fun hstage hwhole =>
        ⟨(h.whole hstage hwhole).1, fun he => by simp [Place.entry] at he⟩
      merged := fun hstage hchunked _ => h.merged hstage hchunked (by simp [hplace])
      chunk := fun e' he' => h.chunk e' (hentry.trans he')
      pending := fun e' he' => by simp at he'
      issued := fun e' he' hstage => by
        obtain ⟨hout, hqueued⟩ := h.pending e hplace hstage
        have hzero : v.due cfg = 0 := by simp [SeqView.due, hout, hqueued, hpred]
        rw [hdue, hzero, Nat.zero_add]
        exact ⟨le_rfl, fun hgamma => by simp [SchedulerConfig.tokenNumPerIter, hgamma]⟩
      decode := fun hdecode => by
        obtain ⟨hle, hexact, hrest⟩ := h.decode hdecode
        rw [hplace] at hle hexact
        rw [hdue]
        refine ⟨Nat.add_le_add_right hle _, fun hgamma => ?_, hrest⟩
        rw [hexact hgamma]
        rfl
      bound := by
        rw [hdue]
        obtain ⟨k, rfl⟩ : ∃ k, limit = k + 1 := ⟨limit - 1, by omega⟩
        rw [Nat.add_sub_cancel] at hroom
        simp only [SeqView.due, hpred, List.length_nil]
        lia
      freshPrefill := fun hrec hstage => by
        obtain ⟨hreal, -, -⟩ := h.freshPrefill hrec hstage
        exact ⟨hreal, hpred, fun he => by simp [Place.entry] at he⟩ }
  | issued e => exact absurd hplace (hnot e)

/-- The layer-wise flags do not matter once a sequence has been preempted. -/
theorem LiveInv.setLayerwise (h : LiveInv cfg limit v g real c) {l : LayerwiseState}
    (hl : ¬v.recomputed → l.layerwiseRecompute = false ∧ l.layerwiseRunning = false ∧
      l.layerwiseDiscard = false) :
    LiveInv cfg limit v (EngineState.setLayerwise g l) real c :=
  { h with
    fresh := fun hrec => by
      obtain ⟨hprompt, haccepted, hqueue, -⟩ := h.fresh hrec
      exact ⟨hprompt, haccepted, hqueue, hl hrec⟩ }

theorem LiveInv.lwdPrepare (h : LiveInv cfg limit v g real c) (isPrefillBatch : Bool) :
    LiveInv cfg limit v (EngineState.lwdPrepareGroup cfg isPrefillBatch g) real c := by
  unfold EngineState.lwdPrepareGroup
  split_ifs with hlwd
  · refine h.setLayerwise fun hrec => ?_
    obtain ⟨-, -, -, hrecompute, hrunning, hdiscard⟩ := h.fresh hrec
    simp [hrecompute, hrunning, hdiscard]
  · exact h

theorem LiveInv.updateNumComputedTokens_eq (h : LiveInv cfg limit v g real c) (n : Nat) :
    g.updateNumComputedTokens n =
      { g with firstSeq := { g.firstSeq with
        numComputedTokens := g.firstSeq.numComputedTokens + n
        stage := if g.firstSeq.getLen = g.firstSeq.numComputedTokens + n then .decode
          else g.firstSeq.stage } } := by
  have hsingle := h.single
  simp [SequenceGroup.updateNumComputedTokens, Sequence.updateNumComputedTokens, h.unfinished,
    hsingle]

/-- A chunk before the last is counted, and nothing else. -/
theorem LiveInv.prepare_hidden (h : LiveInv cfg limit v g real c) {e : BatchEntry}
    (hplace : v.place = .issued e) (hvis : visible cfg g = false) :
    ∃ g', Scheduler.prepareNextSchedule cfg g e.tokenChunkSize = .ok g' ∧
      LiveInv cfg limit { v with place := .parked, group := some g' } g' real c := by
  have hentry : v.place.entry = some e := by rw [hplace]; rfl
  obtain ⟨hreal, hc, hpred, hstage⟩ := h.hidden hvis
  obtain ⟨hle, hlast⟩ := h.chunk e hentry hstage
  have hlt : ¬g.firstSeq.getLen = g.firstSeq.numComputedTokens + e.tokenChunkSize := by
    intro heq
    have := hlast.mpr heq.symm
    rw [hvis] at this
    cases this
  have hchunk : cfg.enableChunkedPrefill ∧ !g.isLastChunk := by
    simpa [visible, EngineState.isDiscardOutputToken] using hvis
  refine ⟨_, by rw [Scheduler.prepareNextSchedule, h.updateNumComputedTokens_eq, if_neg hlt,
    Scheduler.addNextTokenPlaceHolder, if_pos hchunk], ?_⟩
  exact { h with
    flag := fun e he => by simp [Place.entry] at he
    idle := fun hne => absurd rfl hne
    computed := fun _ => ⟨hc, hle⟩
    whole := fun _ hwhole => by
      rw [visible_of_whole hwhole] at hvis
      cases hvis
    merged := fun _ _ hne => absurd rfl hne
    chunk := fun e he => by simp [Place.entry] at he
    pending := fun e he => by simp at he
    issued := fun e he => by simp at he
    decode := fun hdecode => by
      rw [show g.firstSeq.stage = .decode from hdecode] at hstage
      cases hstage
    freshPrefill := fun _ _ => ⟨hreal, hpred, fun _ => .inl hvis⟩ }

/-- The sequence decodes, and has the placeholders of the next tokens. -/
theorem LiveInv.prepare_visible (hcfg : Coherent cfg limit) (h : LiveInv cfg limit v g real c)
    {e : BatchEntry} (hplace : v.place = .issued e) (hvis : visible cfg g = true) :
    ∃ g', Scheduler.prepareNextSchedule cfg g e.tokenChunkSize = .ok g' ∧
      ∃ c', LiveInv cfg limit { v with place := .parked, group := some g' } g' real c' := by
  have hentry : v.place.entry = some e := by rw [hplace]; rfl
  have hpred : v.predicted = [] := h.idle (by simp [hplace])
  have hbound := h.bound
  have hmax := hcfg.limit_mul_le
  have hunit := tokenNumPerIter_pos cfg
  -- what is known of the placeholders before
  obtain ⟨hc, hdue, hexact, hcomputed⟩ : c ≤ cfg.maxPlaceHolderNum ∧
      v.due cfg ≤ c + cfg.tokenNumPerIter ∧
      (cfg.speculationGamma = 0 → v.due cfg = c + 1) ∧
      g.firstSeq.promptTokenIds.length ≤ g.firstSeq.numComputedTokens + e.tokenChunkSize := by
    cases hstage : g.firstSeq.stage with
    | prefill =>
      obtain ⟨hdue, hexact⟩ := h.issued e hplace hstage
      have hlast := (h.chunk e hentry hstage).2.mp hvis
      obtain ⟨rfl, -⟩ := h.computed hstage
      refine ⟨Nat.zero_le _, by omega, fun hgamma => by simpa using hexact hgamma, ?_⟩
      rw [hlast]
      unfold Sequence.getLen
      omega
    | decode =>
      obtain ⟨hdue, hexact, hc, hcomputed⟩ := h.decode hstage
      rw [hplace] at hdue hexact
      refine ⟨hc, hdue, fun hgamma => ?_, by omega⟩
      rw [hexact hgamma]
      simp [Place.promised, SchedulerConfig.tokenNumPerIter, hgamma]
  have hstage : (if g.firstSeq.getLen = g.firstSeq.numComputedTokens + e.tokenChunkSize then
      SequenceStage.decode else g.firstSeq.stage) = .decode := by
    cases hstage : g.firstSeq.stage with
    | prefill => rw [if_pos ((h.chunk e hentry hstage).2.mp hvis).symm]
    | decode => split_ifs <;> rfl
  have houtputs : (g.updateNumComputedTokens e.tokenChunkSize).firstSeq.outputTokenIds =
      real ++ List.replicate c placeholderToken := by
    rw [h.updateNumComputedTokens_eq]
    exact h.outputs
  have hcalc :=
    Scheduler.calculatePlaceHolderNum_of_le houtputs (noTrailing_of_forall h.realTokens) hc
  have hok := Scheduler.addNextTokenPlaceHolder_of_visible
    (g := g.updateNumComputedTokens e.tokenChunkSize) (not_hidden hvis)
    (by simp [h.sampling]) hcalc
  obtain ⟨k, hk⟩ : ∃ k, k = if cfg.speculationGamma = 0 then 1
    else min cfg.tokenNumPerIter (cfg.maxPlaceHolderNum - c) := ⟨_, rfl⟩
  have hnew : c + k ≤ cfg.maxPlaceHolderNum ∧ v.due cfg ≤ c + k ∧
      (cfg.speculationGamma = 0 → v.due cfg = c + k) := by
    by_cases hgamma : cfg.speculationGamma = 0
    · rw [if_pos hgamma] at hk
      have := hexact hgamma
      exact ⟨by omega, by omega, fun _ => by omega⟩
    · rw [if_neg hgamma] at hk
      exact ⟨by omega, by omega, fun hzero => absurd hzero hgamma⟩
  rw [← hk] at hok
  refine ⟨_, hok, c + k, ?_⟩
  rw [h.updateNumComputedTokens_eq, hstage]
  exact { h with
    outputs := by
      show g.firstSeq.outputTokenIds ++ List.replicate k placeholderToken =
        real ++ List.replicate (c + k) placeholderToken
      rw [h.outputs, List.append_assoc, List.replicate_append_replicate]
    flag := fun e he => by simp [Place.entry] at he
    hidden := fun hhidden => by
      rw [show visible cfg g = false from hhidden] at hvis
      cases hvis
    idle := fun hne => absurd rfl hne
    computed := fun hprefill => by cases hprefill
    whole := fun hprefill => by cases hprefill
    merged := fun hprefill => by cases hprefill
    chunk := fun e he => by simp [Place.entry] at he
    pending := fun e he => by simp at he
    issued := fun e he => by simp at he
    decode := fun _ => ⟨hnew.2.1, hnew.2.2, hnew.1, hcomputed⟩
    freshPrefill := fun _ hprefill => by cases hprefill }

/-- Preparing the next round does not throw. -/
theorem LiveInv.prepare (hcfg : Coherent cfg limit) (h : LiveInv cfg limit v g real c)
    {e : BatchEntry} (hplace : v.place = .issued e) :
    ∃ g', Scheduler.prepareNextSchedule cfg g e.tokenChunkSize = .ok g' ∧
      ∃ c', LiveInv cfg limit { v with place := .parked, group := some g' } g' real c' := by
  cases hvis : visible cfg g with
  | false =>
    obtain ⟨g', hok, hinv⟩ := h.prepare_hidden hplace hvis
    exact ⟨g', hok, _, hinv⟩
  | true => exact h.prepare_visible hcfg hplace hvis

/-! ## The steps of the callbacks -/

open EngineState in
/-- The tokens that go to the queue are the ones that the user gets. -/
theorem IsSample.tokens {sample : SequenceOutput} (h : IsSample cfg sample) :
    responseTokens sample = greedyTokens cfg sample ∧
      (greedyTokens cfg sample).length ≤ cfg.tokenNumPerIter ∧
      (cfg.speculationGamma = 0 → (greedyTokens cfg sample).length = 1) ∧
      ∀ t ∈ greedyTokens cfg sample, t ≠ placeholderToken := by
  obtain ⟨hpos, hle, hlen, hwhole, htokens⟩ := h
  have htake : (sample.outputToken.take sample.numSpeculativeTokens).length =
      sample.numSpeculativeTokens := by
    rw [List.length_take]
    omega
  have hgreedy : greedyTokens cfg sample =
      sample.outputToken.take sample.numSpeculativeTokens := by
    have hfilter : (sample.outputToken.take sample.numSpeculativeTokens).filter
        (· ≠ placeholderToken) = sample.outputToken.take sample.numSpeculativeTokens :=
      List.filter_eq_self.mpr fun t ht => by simpa using htokens t ht
    unfold greedyTokens
    split_ifs with hgamma
    · exact hfilter
    · rw [List.take_of_length_le (hwhole (by omega)).le] at hfilter ⊢
      exact hfilter
  have hcount : trailingPlaceholderTokenCount
      (sample.outputToken.take sample.numSpeculativeTokens) = 0 := by
    simpa using append_replicate_count (c := 0) (noTrailing_of_forall htokens)
  refine ⟨?_, ?_, fun hgamma => ?_, ?_⟩
  · rw [hgreedy]
    unfold responseTokens
    rw [if_neg (by rw [hcount]; omega)]
  · rwa [hgreedy, htake]
  · rw [hgreedy, htake]
    simp only [SchedulerConfig.tokenNumPerIter, hgamma] at hle
    omega
  · rw [hgreedy]
    exact htokens

theorem LiveInv.handled (h : LiveInv cfg limit v g real c) :
    LiveInv cfg limit v (EngineState.handledGroup cfg g) real c := by
  unfold EngineState.handledGroup EngineState.lwdProcessGroup
  dsimp only
  by_cases hlwd : cfg.layerwiseDisaggregated = true
  · rw [if_pos hlwd]
    by_cases hprefill : g.firstSeq.layerwise.layerwiseStage = .prefill
    · rw [if_pos hprefill]
      refine h.setLayerwise fun hrec => ?_
      obtain ⟨-, -, -, hrecompute, -, hdiscard⟩ := h.fresh hrec
      rw [if_neg (by simp [hrecompute])]
      exact ⟨hrecompute, rfl, hdiscard⟩
    · rwa [if_neg hprefill]
  · rwa [if_neg hlwd]

open EngineState in
/-- The next result of a sequence comes back. -/
theorem LiveInv.handle (h : LiveInv cfg limit v g real c) {e : BatchEntry} {rest : List BatchEntry}
    {sample : SequenceOutput} (hout : v.outstanding = e :: rest) (hsample : IsSample cfg sample)
    {inDBatch : Prop}
    (hinDBatch : inDBatch → v.inDBatch ∨ g.firstSeq.layerwise.layerwiseRunning = true) :
    LiveInv cfg limit
      { v with
        queued := v.queued ++ greedyTokens cfg sample
        outstanding := rest
        sampled := v.sampled ++ if e.isReqLastChunk then greedyTokens cfg sample else []
        accepted := v.accepted ++ if e.isReqLastChunk then greedyTokens cfg sample else []
        group := some (handledGroup cfg g)
        delivered := v.delivered ++ fetched cfg (some g) (responseTokens sample)
        inDBatch := inDBatch } (handledGroup cfg g) real c := by
  obtain ⟨hresponse, hle, hone, htokens⟩ := hsample.tokens
  have hflag := h.flags e (by simp [hout])
  have hkeep : fetched cfg (some g) (greedyTokens cfg sample) =
      if e.isReqLastChunk then greedyTokens cfg sample else [] := by
    rw [hflag]
    cases hvis : visible cfg g with
    | false => exact fetched_of_hidden hvis _
    | true => exact fetched_of_visible hvis _
  -- the tokens of the result take the place of the result
  have hdue : v.outstanding.length * cfg.tokenNumPerIter =
      rest.length * cfg.tokenNumPerIter + cfg.tokenNumPerIter := by
    rw [hout, List.length_cons]
    lia
  have hle' : rest.length * cfg.tokenNumPerIter + v.predicted.length +
      (v.queued ++ greedyTokens cfg sample).length ≤ v.due cfg := by
    simp only [SeqView.due, List.length_append]
    omega
  have heq' : cfg.speculationGamma = 0 → rest.length * cfg.tokenNumPerIter + v.predicted.length +
      (v.queued ++ greedyTokens cfg sample).length = v.due cfg := by
    intro hgamma
    have := hone hgamma
    simp only [SeqView.due, List.length_append]
    simp only [SchedulerConfig.tokenNumPerIter, hgamma] at hdue ⊢
    omega
  refine LiveInv.handled ?_
  exact { h with
    queuedTokens := fun t ht => (List.mem_append.mp ht).elim (h.queuedTokens t) (htokens t)
    content := by
      rw [fetched_append, ← List.append_assoc, hkeep, h.content, List.append_assoc]
    delivered := by
      rw [hresponse, hkeep, h.delivered]
    flags := fun e' he' => h.flags e' (by simp [hout, he'])
    pending := fun e' he' hstage => by
      have := (h.pending e' he' hstage).1
      rw [hout] at this
      cases this
    issued := fun e' he' hstage => by
      obtain ⟨hissued, hexact⟩ := h.issued e' he' hstage
      exact ⟨hle'.trans hissued, fun hgamma => (heq' hgamma).trans (hexact hgamma)⟩
    decode := fun hdecode => by
      obtain ⟨hissued, hexact, hrest⟩ := h.decode hdecode
      exact ⟨hle'.trans hissued, fun hgamma => (heq' hgamma).trans (hexact hgamma), hrest⟩
    bound := hle'.trans h.bound
    fresh := fun hrec => by
      obtain ⟨hprompt, haccepted, hnot, hrecompute, hrunning, hdiscard⟩ := h.fresh hrec
      refine ⟨hprompt, by rw [haccepted], fun hin => ?_, hrecompute, hrunning, hdiscard⟩
      rcases hinDBatch hin with hin | hin
      · exact hnot hin
      · rw [hrunning] at hin
        cases hin
    freshPrefill := fun hrec hstage => by
      obtain ⟨hreal, hpred, hnothing⟩ := h.freshPrefill hrec hstage
      refine ⟨hreal, hpred, fun hnone => ?_⟩
      rcases hnothing hnone with hhidden | ⟨hnil, -⟩
      · exact .inl hhidden
      · rw [hout] at hnil
        cases hnil }

/-! ## A new sequence -/

open EngineState in
theorem LiveInv.add (hnew : IsNew g) (hunused : v.predicted = [] ∧ v.queued = [] ∧
      v.outstanding = [] ∧ v.place = .parked ∧ v.sampled = [] ∧ v.accepted = [] ∧
      v.delivered = [] ∧ ¬v.recomputed ∧ ¬v.inDBatch) :
    LiveInv cfg limit
      { v with used := True, group := some g, prompt := g.firstSeq.promptTokenIds } g [] 0 := by
  obtain ⟨hsingle, hsampling, hstatus, hstage, hcomputed, houtputs, hlayerwise, hlast⟩ := hnew
  obtain ⟨hpred, hqueued, hout, hplace, hsampled, haccepted, hdelivered, hrec, hin⟩ := hunused
  have hnone : v.place.entry = none := by rw [hplace]; rfl
  have hzero : v.due cfg = 0 := by simp [SeqView.due, hpred, hqueued, hout]
  exact
    { single := hsingle
      sampling := hsampling
      unfinished := by simp [Sequence.isFinished, hstatus]
      outputs := by simp [houtputs]
      realTokens := by simp
      predictedTokens := by simp [hpred]
      queuedTokens := by simp [hqueued]
      content := by simp [hpred, hqueued, haccepted]
      delivered := by simp [hdelivered, hsampled]
      flags := by simp [hout]
      flag := fun e he => by simp [hnone] at he
      hidden := fun _ => ⟨rfl, rfl, hpred, hstage⟩
      idle := fun hne => absurd hplace hne
      computed := fun _ => ⟨rfl, by simp [hcomputed]⟩
      whole := fun _ _ => ⟨hcomputed, fun _ => hstatus⟩
      merged := fun _ _ _ => rfl
      chunk := fun e he => by simp [hnone] at he
      pending := fun _ _ _ => ⟨hout, hqueued⟩
      issued := fun e he => by simp [hplace] at he
      decode := fun hdecode => by
        rw [hstage] at hdecode
        cases hdecode
      bound := by
        show v.due cfg ≤ _
        omega
      fresh := fun _ => by simp [haccepted, hsampled, hin, hlayerwise]
      freshPrefill := fun _ _ => ⟨rfl, hpred, fun _ => .inr ⟨hout, hqueued⟩⟩ }

end

end MindieLLM
