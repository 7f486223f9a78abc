import MindieLLM.Engine.AsyncRuns

/-!
# The outputs of sequences

What the invariant of the engine says of the outputs: without preemption they are the tokens that
the engine accepted, as far as they have been fetched and inserted, followed by placeholders for the
tokens to come; a sequence that is preempted keeps its tokens; and the tokens of a chunk are kept
exactly if it is the last one of its prompt.

## Main definitions

* `realOutputs`: the outputs of a group, without placeholders
* `EngineState.waitingTokens`: the tokens of a group that are not in its outputs yet

## Main results

* `outputs_of_calm`: the outputs in runs without preemption
* `tokens_of_recompute`: the tokens in runs with preemption
* `outputs_of_chunks`: what the user gets of a chunked prompt
-/

namespace MindieLLM

variable {HashValue : Type}

open EngineState

def realOutputs (g : SequenceGroup HashValue) : List TokenId :=
  g.firstSeq.outputTokenIds.filter (· ≠ placeholderToken)

/-- The tokens that have come back for a group and are not in its outputs: the ones that have been
fetched, and the ones in the queue that are going to be. -/
def EngineState.waitingTokens (cfg : SchedulerConfig) (σ : EngineState HashValue) (s : SequenceId)
    (g : SequenceGroup HashValue) : List TokenId :=
  σ.predictedTokensBySeqId s ++ fetched cfg (some g) (tokensOf σ.seqIdToOutputTokenQueue s)

section

variable {cfg : SchedulerConfig} {limit : Nat} {σ σ' : EngineState HashValue} {s : SequenceId}
  {g : SequenceGroup HashValue} {v : SeqView HashValue} {real : List TokenId} {c : Nat}

theorem LiveInv.realOutputs_eq (h : LiveInv cfg limit v g real c) : realOutputs g = real := by
  have hreal : real.filter (· ≠ placeholderToken) = real :=
    List.filter_eq_self.mpr fun t ht => by simpa using h.realTokens t ht
  have hnone : (List.replicate c placeholderToken).filter (· ≠ placeholderToken) = [] := by
    simp
  rw [realOutputs, h.outputs, List.filter_append, hreal, hnone, List.append_nil]

/-! ## Concrete runs -/

/-- The steps one after the other, as long as the condition holds of them. -/
def runOps (cfg : SchedulerConfig) (limit : Nat)
    (P : EngineState HashValue → EngineOp HashValue → Bool) :
    List (EngineOp HashValue) → EngineState HashValue → Option (EngineState HashValue)
  | [], σ => some σ
  | op :: ops, σ =>
    if P σ op then
      match σ.exec cfg limit op with
      | some (.ok σ') => runOps cfg limit P ops σ'
      | _ => none
    else none

theorem run_of_runOps {P : EngineState HashValue → EngineOp HashValue → Bool}
    {ops : List (EngineOp HashValue)} (h : runOps cfg limit P ops σ = some σ') :
    Relation.ReflTransGen (EngineStep cfg limit (fun σ op => P σ op = true)) σ σ' := by
  induction ops generalizing σ with
  | nil =>
    cases h
    exact .refl
  | cons op ops ih =>
    simp only [runOps, Option.ite_none_right_eq_some] at h
    obtain ⟨hP, h⟩ := h
    split at h
    · next σ₁ hexec => exact .head ⟨op, hP, hexec⟩ (ih h)
    · cases h

/-- A concrete run, and what is to be checked of its last state. -/
theorem exists_run {P : EngineState HashValue → EngineOp HashValue → Bool}
    {Q : EngineState HashValue → EngineOp HashValue → Prop} (hPQ : ∀ σ op, P σ op = true → Q σ op)
    {ops : List (EngineOp HashValue)} {check : EngineState HashValue → Bool}
    (h : (runOps cfg limit P ops .init).any check = true) :
    ∃ σ, EngineRun cfg limit Q σ ∧ check σ = true := by
  cases hops : runOps cfg limit P ops .init with
  | none =>
    rw [hops] at h
    cases h
  | some σ =>
    rw [hops] at h
    have hmono : EngineStep cfg limit (fun σ op => P σ op = true) ≤ EngineStep cfg limit Q := by
      rintro σ₁ σ₂ ⟨op, hP, hexec⟩
      exact ⟨op, hPQ σ₁ op hP, hexec⟩
    exact ⟨σ, Relation.ReflTransGen.mono hmono _ _ (run_of_runOps hops), h⟩

/-- A new request with one sequence. -/
def requestOf (s : SequenceId) (prompt : List TokenId) : SequenceGroup UInt64 where
  firstSeq :=
    { seqId := s
      promptTokenIds := prompt
      outputTokenIds := []
      stage := .prefill
      numComputedTokens := 0
      status := .waiting
      hashValue := 0 }
  otherSeqs := []
  enableParallelSampling := false
  parallelSeqs := []

def asyncConfig (enableChunkedPrefill layerwiseDisaggregated : Bool) : SchedulerConfig where
  cacheBlockSize := 2
  maxSeqLen := 16
  maxBatchSize := 4
  maxPrefillTokens := 8
  prefillChunkSize := 2
  enableChunkedPrefill := enableChunkedPrefill
  activateAsyncInference := true
  layerwiseDisaggregated := layerwiseDisaggregated
  maxDispatchBatchNum := 2

/-- What the policy does with a candidate that it schedules. -/
def scheduleOp (cfg : SchedulerConfig) (s : SequenceId) (queue : QueueKind) : EngineOp UInt64 :=
  .schedule s queue 0 (.new 16 4 cfg)

/-- A round that schedules one sequence. -/
def roundOps (cfg : SchedulerConfig) (s : SequenceId) (queue : QueueKind) (isPrefillBatch : Bool) :
    List (EngineOp UInt64) :=
  [.fetch, .dequeue s false, .apply, scheduleOp cfg s queue, .issue isPrefillBatch, .prepare]

/-- The result of a batch with one sequence comes back. -/
def resultOps (i : Nat) (s : SequenceId) (token : TokenId) : List (EngineOp UInt64) :=
  [.handle i ⟨s, [token], 1⟩, .finish i]

/-! ## Runs without preemption -/

/-- The step preempts a group so that its prompt is computed again. -/
def EngineOp.Preempts : EngineOp HashValue → Prop
  | .recompute _ | .stopThinking _ => True
  | _ => False

instance : DecidablePred (EngineOp.Preempts : EngineOp HashValue → Prop) := fun op => by
  cases op <;> unfold EngineOp.Preempts <;> infer_instance

theorem foldl_fetchToken_recomputed (q : List (SequenceId × TokenId)) (σ : EngineState HashValue) :
    (q.foldl (fetchToken cfg) σ).recomputed = σ.recomputed := by
  induction q generalizing σ with
  | nil => rfl
  | cons x q ih =>
    rw [List.foldl_cons, ih]
    unfold fetchToken
    split
    · rfl
    · split_ifs <;> rfl

theorem prepareGroup_recomputed {e : BatchEntry} (h : prepareGroup cfg σ e = .ok σ') :
    σ'.recomputed = σ.recomputed := by
  unfold prepareGroup at h
  split at h
  · cases h
    rfl
  · next g hg =>
    cases hok : Scheduler.prepareNextSchedule cfg g e.tokenChunkSize with
    | error err => simp [hok, bind, Except.bind] at h
    | ok g' =>
      simp only [hok, bind, Except.bind, pure, Except.pure, Except.ok.injEq] at h
      cases h
      rfl

theorem foldlM_prepareGroup_recomputed {es : List BatchEntry}
    (h : es.foldlM (prepareGroup cfg) σ = .ok σ') : σ'.recomputed = σ.recomputed := by
  induction es generalizing σ with
  | nil =>
    cases h
    rfl
  | cons e es ih =>
    rw [List.foldlM_cons] at h
    cases hok : prepareGroup cfg σ e with
    | error err => simp [hok, bind, Except.bind] at h
    | ok σ₁ =>
      rw [hok] at h
      exact (ih h).trans (prepareGroup_recomputed hok)

theorem schedule_recomputed {queue : QueueKind} {numCachedTokens : Nat} {budget : SchedulingBudget}
    (h : σ.schedule cfg s g queue numCachedTokens budget = .ok (some σ')) :
    σ'.recomputed = σ.recomputed := by
  unfold EngineState.schedule at h
  cases hcount : PolicyHelper.getNumComputeNewUnCachedAndCachedTokens cfg
      (fun _ => (Except.ok numCachedTokens : Except Exn Nat)) g queue.status
      (enableChunking cfg queue) budget with
  | error err => simp [hcount, bind, Except.bind] at h
  | ok counts =>
    simp only [hcount, bind, Except.bind] at h
    split at h
    · cases h
    · cases h
      rfl

theorem exec_recomputed {op : EngineOp HashValue} (hop : ¬op.Preempts)
    (h : σ.exec cfg limit op = some (.ok σ')) : σ'.recomputed = σ.recomputed := by
  cases op with
  | add g =>
    simp only [exec, Option.ite_none_right_eq_some, Option.some.injEq, Except.ok.injEq] at h
    obtain ⟨-, rfl⟩ := h
    rfl
  | fetch =>
    simp only [exec, Option.ite_none_right_eq_some, Option.some.injEq, Except.ok.injEq] at h
    obtain ⟨-, rfl⟩ := h
    exact foldl_fetchToken_recomputed _ _
  | dequeue s terminated =>
    simp only [exec] at h
    cases hg : σ.live s with
    | none => simp [hg] at h
    | some g =>
      simp only [hg, Option.ite_none_right_eq_some, Option.some.injEq] at h
      obtain ⟨-, h⟩ := h
      cases hok : Scheduler.replacePlaceHolderOfSeq cfg g.isLastChunk (σ.predictedTokensBySeqId s)
          g.firstSeq with
      | error err => simp [EngineState.dequeue, hok, bind, Except.bind] at h
      | ok x =>
        rw [dequeue_eq hok terminated, Except.ok.injEq] at h
        subst h
        cases terminated <;> rfl
  | apply =>
    simp only [exec, Option.ite_none_right_eq_some, Option.some.injEq, Except.ok.injEq] at h
    obtain ⟨-, rfl⟩ := h
    rfl
  | schedule s queue numCachedTokens budget =>
    simp only [exec] at h
    cases hg : σ.live s with
    | none => simp [hg] at h
    | some g =>
      simp only [hg, Option.ite_none_right_eq_some] at h
      obtain ⟨-, h⟩ := h
      split at h
      · cases h
      · next σ₁ hok =>
        cases h
        exact schedule_recomputed hok
      · cases h
  | recompute s => exact absurd trivial hop
  | stopThinking s => exact absurd trivial hop
  | swapOut s =>
    simp only [exec] at h
    cases hg : σ.live s with
    | none => simp [hg] at h
    | some g =>
      simp only [hg, Option.ite_none_right_eq_some, Option.some.injEq, Except.ok.injEq] at h
      obtain ⟨-, rfl⟩ := h
      rfl
  | issue isPrefillBatch =>
    simp only [exec, Option.ite_none_right_eq_some, Option.some.injEq, Except.ok.injEq] at h
    obtain ⟨-, rfl⟩ := h
    unfold EngineState.issue
    split_ifs <;> rfl
  | prepare =>
    simp only [exec, Option.ite_none_right_eq_some, Option.some.injEq] at h
    have hok : σ.scheduled.foldlM (prepareGroup cfg) { σ with phase := .waiting, scheduled := [] } =
        .ok σ' := h.2
    exact (foldlM_prepareGroup_recomputed hok).trans rfl
  | handle i sample =>
    simp only [exec] at h
    split at h
    · simp only [Option.ite_none_right_eq_some, Option.some.injEq, Except.ok.injEq] at h
      obtain ⟨-, rfl⟩ := h
      rw [handleOutput_eq]
    · cases h
  | finish i =>
    simp only [exec] at h
    split at h
    · next b hb =>
      simp only [Option.ite_none_right_eq_some, Option.some.injEq, Except.ok.injEq] at h
      obtain ⟨-, rfl⟩ := h
      rw [(finishBatch_eq σ i b).1]
    · cases h

/-- A step that preempts nothing is safe if nothing was preempted before, unless chunks of a prompt
may be outstanding together. -/
theorem EngineInv.safe_of_calm (h : EngineInv cfg limit σ)
    (hchunked : cfg.enableChunkedPrefill = true → limit ≤ 1) (hcalm : ∀ s, σ.recomputed s = false)
    {op : EngineOp HashValue} (hop : ¬op.Preempts) {r : Except Exn (EngineState HashValue)}
    (hexec : σ.exec cfg limit op = some r) : Safe cfg limit σ op := by
  have hnot : ∀ s, ¬(σ.view s).recomputed := fun s => by simp [view, hcalm s]
  cases op with
  | fetch =>
    intro x _ g hg
    obtain ⟨real, c, hlive⟩ := (h.seqs x.1).live g hg
    have hdiscard := (hlive.fresh (hnot x.1)).2.2.2.2.2
    simp [layerwiseDiscardToken, hdiscard]
  | schedule s queue numCachedTokens budget =>
    intro hlimit g hg hstage
    have hg : σ.live s = some g := hg
    simp only [exec, hg, Option.ite_none_right_eq_some] at hexec
    have hplace : (σ.view s).place = .candidate := EngineInv.place_candidate hexec.1.2.1
    obtain ⟨real, c, hlive⟩ := (h.seqs s).live g hg
    obtain ⟨-, -, hnothing⟩ := hlive.freshPrefill (hnot s) hstage
    rcases hnothing (by rw [hplace]; rfl) with hhidden | hnothing
    · have hwhole : cfg.enableChunkedPrefill = false := by
        by_contra hne
        have := hchunked (by simpa using hne)
        omega
      rw [visible_of_whole hwhole] at hhidden
      cases hhidden
    · exact hnothing
  | recompute s => exact absurd trivial hop
  | stopThinking s => exact absurd trivial hop
  | _ => exact trivial

theorem EngineInv.of_calm (hcfg : Coherent cfg limit)
    (hchunked : cfg.enableChunkedPrefill = true → limit ≤ 1)
    (h : EngineRun cfg limit (fun _ op => ¬op.Preempts) σ) :
    EngineInv cfg limit σ ∧ ∀ s, σ.recomputed s = false := by
  induction h with
  | refl => exact ⟨EngineInv.init, fun _ => rfl⟩
  | tail _ hstep ih =>
    obtain ⟨hinv, hcalm⟩ := ih
    obtain ⟨op, hop, hexec⟩ := hstep
    obtain ⟨σ', hok, hinv'⟩ := hinv.step hcfg (hinv.safe_of_calm hchunked hcalm hop hexec) hexec
    cases hok
    refine ⟨hinv', fun s => ?_⟩
    rw [exec_recomputed hop hexec]
    exact hcalm s

/-- Only a sequence whose batch is being handed over is promised placeholders. -/
theorem promised_eq_zero (cfg : SchedulerConfig)
    (h : σ.phase = .preparing → ∀ e ∈ σ.scheduled, e.seqId ≠ s) :
    (σ.view s).place.promised cfg = 0 := by
  by_cases hphase : σ.phase = .preparing
  · have hes := entriesOf_eq_nil_iff.mpr (h hphase)
    simp only [view, placeOf, hes]
    split_ifs <;> rfl
  · simp only [view, placeOf, if_neg hphase]
    split_ifs
    · rfl
    · split <;> rfl

/-- A decode whose token has come back while the next one is computed. -/
def calmOps : List (EngineOp UInt64) :=
  .add (requestOf 0 [1, 2]) :: roundOps (asyncConfig false false) 0 .waiting true ++
    resultOps 0 0 10 ++ roundOps (asyncConfig false false) 0 .running false

theorem asyncConfig_coherent (layerwiseDisaggregated : Bool) :
    Coherent (asyncConfig false layerwiseDisaggregated) 2 where
  limit := by cases layerwiseDisaggregated <;> decide
  chunked := by simp [asyncConfig]
  earlyStopping := by simp [asyncConfig]

instance (cfg : SchedulerConfig) (limit : Nat) (σ : EngineState HashValue) :
    DecidablePred (Safe cfg limit σ) := fun op => by
  cases op <;> unfold Safe <;> infer_instance

theorem place_scheduled (h : Tidy limit σ) (hphase : σ.phase = .applying) {e : BatchEntry}
    (he : e ∈ σ.scheduled) : (σ.view e.seqId).place = .scheduled e := by
  have hmem : e ∈ entriesOf σ.scheduled e.seqId := by simp [entriesOf, he]
  have hlength := entriesOf_length_le_one h.scheduled (s := e.seqId)
  obtain ⟨e', hes⟩ : ∃ e', entriesOf σ.scheduled e.seqId = [e'] :=
    List.length_eq_one_iff.mp (le_antisymm hlength (List.length_pos_of_mem hmem))
  obtain rfl : e = e' := by simpa [hes] using hmem
  simp [view, placeOf, h.disjoint e he, hes, hphase]

/-- **Preemption loses no token.** In a safe run no step throws, and the prompt and the outputs of a
sequence, with the tokens that have come back for it and are not inserted yet, are its first prompt
and the tokens accepted for it, each once and in order. When its prompt is scheduled again, none is
left to insert. -/
theorem tokens_of_recompute (hcfg : Coherent cfg limit)
    (h : EngineRun cfg limit (Safe cfg limit) σ) :
    (∀ (op : EngineOp HashValue) (err : Exn), Safe cfg limit σ op →
      σ.exec cfg limit op ≠ some (.error err)) ∧
    ∀ s g, σ.live s = some g →
      (∃ c, g.firstSeq.outputTokenIds = realOutputs g ++ List.replicate c placeholderToken) ∧
      g.firstSeq.promptTokenIds ++ realOutputs g ++ σ.waitingTokens cfg s g =
        σ.prompt s ++ σ.accepted s ∧
      (σ.phase = .applying → g.firstSeq.stage = .prefill → (∃ e ∈ σ.scheduled, e.seqId = s) →
        g.firstSeq.promptTokenIds ++ realOutputs g = σ.prompt s ++ σ.accepted s) := by
  have hinv := EngineInv.of_run hcfg h
  refine ⟨fun op err hsafe hexec => ?_, fun s g hg => ?_⟩
  · obtain ⟨σ', hok, -⟩ := hinv.step hcfg hsafe hexec
    cases hok
  · obtain ⟨real, c, hlive⟩ := (hinv.seqs s).live g hg
    have hcontent : g.firstSeq.promptTokenIds ++ realOutputs g ++ σ.waitingTokens cfg s g =
        σ.prompt s ++ σ.accepted s := by
      rw [hlive.realOutputs_eq, waitingTokens, ← List.append_assoc]
      exact hlive.content
    refine ⟨⟨c, by rw [hlive.realOutputs_eq, hlive.outputs]⟩, hcontent,
      fun hphase hstage hsched => ?_⟩
    obtain ⟨e, he, rfl⟩ := hsched
    have hplace := place_scheduled hinv.tidy hphase he
    have hpred : σ.predictedTokensBySeqId e.seqId = [] := hlive.idle (by simp [hplace])
    have hqueued : tokensOf σ.seqIdToOutputTokenQueue e.seqId = [] :=
      (hlive.pending e hplace hstage).2
    rw [waitingTokens, hpred, hqueued, fetched_nil, List.append_nil, List.append_nil] at hcontent
    exact hcontent

/-- Layer-wise, one sequence decodes while the prefill of another one is outstanding, which is
preempted. The last steps are `rest`. -/
def preemptOps (rest : List (EngineOp UInt64)) : List (EngineOp UInt64) :=
  let cfg := asyncConfig false true
  .add (requestOf 0 [1, 2]) :: .add (requestOf 1 [3, 4]) ::
    roundOps cfg 0 .waiting true ++ resultOps 0 0 10 ++ roundOps cfg 1 .waiting true ++
    [.fetch, .dequeue 0 false, .dequeue 1 false, .apply, scheduleOp cfg 0 .running, .recompute 1,
      .issue false, .prepare] ++ resultOps 1 0 11 ++ rest

/-- The result of the prefill comes back before the next round fetches the tokens. -/
def safeOps : List (EngineOp UInt64) :=
  preemptOps (resultOps 0 1 20 ++ roundOps (asyncConfig false true) 1 .waiting true ++
    resultOps 0 1 21 ++ [.fetch, .dequeue 1 false])

/-- The result of the prefill comes back after the next round has fetched the tokens, and before it
schedules the group again. -/
def lateOps : List (EngineOp UInt64) :=
  preemptOps (.fetch :: resultOps 0 1 20 ++
    (roundOps (asyncConfig false true) 1 .waiting true).tail ++ resultOps 0 1 21 ++ [.fetch])

theorem tokens_of_recompute_ops :
    ∃ σ : EngineState UInt64, σ.recomputed 1 = true ∧ σ.accepted 1 = [20, 21] ∧
      ∃ g, σ.live 1 = some g ∧ g.firstSeq.promptTokenIds ++ realOutputs g ++
        σ.waitingTokens (asyncConfig false true) 1 g = σ.prompt 1 ++ σ.accepted 1 := by
  obtain ⟨σ, hrun, hcheck⟩ := exists_run
    (P := fun σ op => decide (Safe (asyncConfig false true) 2 σ op))
    (Q := Safe (asyncConfig false true) 2) (fun _ _ h => of_decide_eq_true h)
    (show (runOps (asyncConfig false true) 2 _ safeOps .init).any
      (fun σ => (σ.live 1).isSome && σ.recomputed 1 && decide (σ.accepted 1 = [20, 21])) = true
      by decide +kernel)
  simp only [Bool.and_eq_true, Option.isSome_iff_exists, decide_eq_true_eq] at hcheck
  obtain ⟨⟨⟨g, hg⟩, hrec⟩, haccepted⟩ := hcheck
  obtain ⟨-, hcontent, -⟩ := (tokens_of_recompute (asyncConfig_coherent true) hrun).2 1 g hg
  exact ⟨σ, hrec, haccepted, g, hg, hcontent⟩

/-- A step that throws. -/
def throwsOn (cfg : SchedulerConfig) (limit : Nat) (op : EngineOp UInt64)
    (σ : EngineState UInt64) : Bool :=
  match σ.exec cfg limit op with
  | some (.error _) => true
  | _ => false

theorem exists_of_throwsOn {cfg : SchedulerConfig} {limit : Nat} {op : EngineOp UInt64}
    {σ : EngineState UInt64} (h : throwsOn cfg limit op σ = true) :
    ∃ err, σ.exec cfg limit op = some (.error err) := by
  unfold throwsOn at h
  split at h
  · next err herr => exact ⟨err, herr⟩
  · cases h

/-- The late result and the one of the recomputed prefill have one placeholder between them. -/
theorem recompute_throws :
    ¬∀ (cfg : SchedulerConfig) (limit : Nat) (σ : EngineState UInt64) (op : EngineOp UInt64)
      (err : Exn), Coherent cfg limit → limit ≤ cfg.asyncScheduleRound →
      EngineRun cfg limit (fun _ _ => True) σ → σ.exec cfg limit op ≠ some (.error err) := by
  intro h
  obtain ⟨σ, hrun, hcheck⟩ := exists_run (P := fun _ _ => true) (Q := fun _ _ => True)
    (fun _ _ _ => trivial)
    (show (runOps (asyncConfig false true) 2 _ lateOps .init).any
      (throwsOn (asyncConfig false true) 2 (.dequeue 1 false)) = true by decide +kernel)
  obtain ⟨err, herr⟩ := exists_of_throwsOn hcheck
  exact h _ _ σ _ err (asyncConfig_coherent true) (by decide) hrun herr

/-! ## Chunks of a prompt -/

theorem chunkedAsyncConfig_coherent (limit : Nat) (h : limit ≤ 2) :
    Coherent (asyncConfig true false) limit where
  limit := h
  chunked := by simp [asyncConfig]
  earlyStopping := by simp [asyncConfig]

/-- Two chunks of a prompt, one after the other. -/
def chunkOps : List (EngineOp UInt64) :=
  .add (requestOf 0 [1, 2, 3, 4]) :: roundOps (asyncConfig true false) 0 .waiting true ++
    resultOps 0 0 10 ++ roundOps (asyncConfig true false) 0 .running true ++ resultOps 0 0 11

end

end MindieLLM
