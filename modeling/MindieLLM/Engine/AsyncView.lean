import MindieLLM.Engine.AsyncEngine

/-!
# What the engine has of one sequence

The steps of the engine work on one sequence at a time, or on all of them in the same way. The
view of a sequence collects what the engine has of it in its queues, tables and batches, and for
each step we say what it does to the views.

## Main definitions

* `Place`: where the scheduling thread has a group
* `SeqView`, `EngineState.view`: what the engine has of a sequence
-/

namespace MindieLLM

variable {HashValue : Type}

/-- Where the scheduling thread has a group: in its queue, among the candidates, or in a batch that
has or has not been handed over. -/
inductive Place
  | parked
  | candidate
  | scheduled (e : BatchEntry)
  | issued (e : BatchEntry)
  deriving DecidableEq, Repr

@[ext]
structure SeqView (HashValue : Type) where
  used : Prop
  /-- The thread is between `FetchSeqGeneratedTokens` and the end of the policy. -/
  inRound : Prop
  place : Place
  group : Option (SequenceGroup HashValue)
  predicted : List TokenId
  queued : List TokenId
  outstanding : List BatchEntry
  /-- A callback has the sequence in its `recomputeInDBatchQueue`. -/
  inDBatch : Prop
  prompt : List TokenId
  sampled : List TokenId
  accepted : List TokenId
  delivered : List TokenId
  recomputed : Prop

def tokensOf (queue : List (SequenceId × TokenId)) (s : SequenceId) : List TokenId :=
  (queue.filter (·.1 = s)).map Prod.snd

def entriesOf (entries : List BatchEntry) (s : SequenceId) : List BatchEntry :=
  entries.filter (·.seqId = s)

def outputsOf (batches : List OutstandingBatch) (s : SequenceId) : List BatchEntry :=
  entriesOf (batches.flatMap OutstandingBatch.outputs) s

def placeOf (phase : Phase) (candidates : List SequenceId) (scheduled : List BatchEntry)
    (s : SequenceId) : Place :=
  if s ∈ candidates then .candidate
  else
    match entriesOf scheduled s with
    | [] => .parked
    | e :: _ => if phase = .preparing then .issued e else .scheduled e

namespace EngineState

variable (σ : EngineState HashValue) (s : SequenceId)

def view : SeqView HashValue where
  used := s ∈ σ.used
  inRound := σ.phase = .collecting ∨ σ.phase = .applying
  place := placeOf σ.phase σ.candidates σ.scheduled s
  group := σ.live s
  predicted := σ.predictedTokensBySeqId s
  queued := tokensOf σ.seqIdToOutputTokenQueue s
  outstanding := outputsOf σ.outstanding s
  inDBatch := ∃ b ∈ σ.outstanding, s ∈ b.recomputeInDBatchQueue
  prompt := σ.prompt s
  sampled := σ.sampled s
  accepted := σ.accepted s
  delivered := σ.delivered s
  recomputed := σ.recomputed s = true

end EngineState

/-! ## Tokens and entries of a sequence -/

section

variable {s s' : SequenceId}

@[simp]
theorem tokensOf_nil : tokensOf [] s = [] := rfl

@[simp]
theorem tokensOf_append (q q' : List (SequenceId × TokenId)) :
    tokensOf (q ++ q') s = tokensOf q s ++ tokensOf q' s := by
  simp [tokensOf]

@[simp]
theorem tokensOf_map_self (tokens : List TokenId) : tokensOf (tokens.map (s, ·)) s = tokens := by
  simp [tokensOf, List.filter_map, Function.comp_def]

theorem tokensOf_map_of_ne (hne : s' ≠ s) (tokens : List TokenId) :
    tokensOf (tokens.map (s, ·)) s' = [] := by
  simp [tokensOf, List.filter_map, Function.comp_def, hne.symm]

@[simp]
theorem entriesOf_nil : entriesOf [] s = [] := rfl

@[simp]
theorem entriesOf_append (es es' : List BatchEntry) :
    entriesOf (es ++ es') s = entriesOf es s ++ entriesOf es' s := by
  simp [entriesOf]

theorem entriesOf_eq_nil_iff {es : List BatchEntry} :
    entriesOf es s = [] ↔ ∀ e ∈ es, e.seqId ≠ s := by
  simp [entriesOf]

theorem entriesOf_cons_self (e : BatchEntry) (es : List BatchEntry) :
    entriesOf (e :: es) e.seqId = e :: entriesOf es e.seqId := by
  simp [entriesOf]

theorem entriesOf_cons_of_ne {e : BatchEntry} (hne : s ≠ e.seqId) (es : List BatchEntry) :
    entriesOf (e :: es) s = entriesOf es s := by
  simp [entriesOf, hne.symm]

@[simp]
theorem outputsOf_nil : outputsOf [] s = [] := rfl

@[simp]
theorem outputsOf_cons (b : OutstandingBatch) (bs : List OutstandingBatch) :
    outputsOf (b :: bs) s = entriesOf b.outputs s ++ outputsOf bs s := by
  simp [outputsOf]

@[simp]
theorem outputsOf_append (bs bs' : List OutstandingBatch) :
    outputsOf (bs ++ bs') s = outputsOf bs s ++ outputsOf bs' s := by
  simp [outputsOf]

theorem entriesOf_length_le_one {es : List BatchEntry} (h : (es.map BatchEntry.seqId).Nodup) :
    (entriesOf es s).length ≤ 1 := by
  have hcount : (entriesOf es s).length = (es.map BatchEntry.seqId).count s := by
    rw [List.count, List.countP_map, List.countP_eq_length_filter]
    congr 1
  rw [hcount]
  exact List.nodup_iff_count_le_one.mp h s

/-- A sequence is in each batch at most once. -/
theorem outputsOf_length_le {bs : List OutstandingBatch}
    (h : ∀ b ∈ bs, (b.outputs.map BatchEntry.seqId).Nodup) :
    (outputsOf bs s).length ≤ bs.length := by
  induction bs with
  | nil => simp
  | cons b bs ih =>
    have hone := entriesOf_length_le_one (h b (by simp)) (s := s)
    have := ih fun b' hb' => h b' (List.mem_cons_of_mem _ hb')
    rw [outputsOf_cons, List.length_append, List.length_cons]
    omega

/-- The next output of a batch, when no batch before it has one of the sequence. -/
theorem outputsOf_set {bs : List OutstandingBatch} {i : Nat} {b : OutstandingBatch}
    {e : BatchEntry} (hb : bs[i]? = some b) (b' : OutstandingBatch)
    (houtputs : b.outputs = e :: b'.outputs)
    (hfirst : ∀ x ∈ bs.take i, ∀ e' ∈ x.outputs, e'.seqId ≠ e.seqId) :
    outputsOf bs e.seqId = e :: outputsOf (bs.set i b') e.seqId ∧
      ∀ s ≠ e.seqId, outputsOf bs s = outputsOf (bs.set i b') s := by
  induction bs generalizing i with
  | nil => simp at hb
  | cons x bs ih =>
    cases i with
    | zero =>
      obtain rfl : x = b := by simpa using hb
      rw [List.set_cons_zero]
      simp only [outputsOf_cons, houtputs]
      exact ⟨by rw [entriesOf_cons_self, List.cons_append],
        fun s hs => by rw [entriesOf_cons_of_ne hs]⟩
    | succ i =>
      have hnone : entriesOf x.outputs e.seqId = [] :=
        entriesOf_eq_nil_iff.mpr (hfirst x (by simp))
      obtain ⟨hself, hother⟩ := ih (by simpa using hb) fun y hy => hfirst y (by simp [hy])
      rw [List.set_cons_succ]
      simp only [outputsOf_cons]
      exact ⟨by rw [hnone, List.nil_append, List.nil_append, hself],
        fun s hs => by rw [hother s hs]⟩

theorem placeOf_cons_self (phase : Phase) (candidates : List SequenceId) (es : List BatchEntry) :
    placeOf phase (s :: candidates) es s = .candidate := by
  simp [placeOf]

theorem placeOf_cons_of_ne (hne : s' ≠ s) (phase : Phase) (candidates : List SequenceId)
    (es : List BatchEntry) :
    placeOf phase (s :: candidates) es s' = placeOf phase candidates es s' := by
  simp only [placeOf, List.mem_cons, hne, false_or]

theorem placeOf_erase_of_ne (hne : s' ≠ s) (phase : Phase) (candidates : List SequenceId)
    (es : List BatchEntry) :
    placeOf phase (candidates.erase s) es s' = placeOf phase candidates es s' := by
  simp only [placeOf, List.mem_erase_of_ne hne]

theorem placeOf_erase_self {phase : Phase} {candidates : List SequenceId} {es : List BatchEntry}
    (hnodup : candidates.Nodup) (hes : entriesOf es s = []) :
    placeOf phase (candidates.erase s) es s = .parked := by
  simp [placeOf, hnodup.not_mem_erase, hes]

theorem placeOf_concat_of_ne {e : BatchEntry} (hne : s' ≠ e.seqId) (phase : Phase)
    (candidates : List SequenceId) (es : List BatchEntry) :
    placeOf phase candidates (es ++ [e]) s' = placeOf phase candidates es s' := by
  have hsame : entriesOf (es ++ [e]) s' = entriesOf es s' := by
    rw [entriesOf_append, entriesOf_cons_of_ne hne, entriesOf_nil, List.append_nil]
  simp only [placeOf, hsame]

/-- Handing over the batch: the candidates go back to their queues. -/
def Place.issue : Place → Place
  | .scheduled e => .issued e
  | _ => .parked

theorem outputsOf_eraseIdx {bs : List OutstandingBatch} {i : Nat} {b : OutstandingBatch}
    (hb : bs[i]? = some b) (houtputs : b.outputs = []) :
    outputsOf (bs.eraseIdx i) s = outputsOf bs s := by
  induction bs generalizing i with
  | nil => simp
  | cons x bs ih =>
    cases i with
    | zero =>
      obtain rfl : x = b := by simpa using hb
      simp [houtputs]
    | succ i =>
      rw [List.eraseIdx_cons_succ, outputsOf_cons, outputsOf_cons, ih (by simpa using hb)]

end

/-! ## The views after a step -/

namespace EngineState

variable {cfg : SchedulerConfig} {σ : EngineState HashValue} {s s' : SequenceId}
  {g g' : SequenceGroup HashValue}

theorem view_add_self : (σ.add g).view g.firstSeq.seqId =
    { σ.view g.firstSeq.seqId with
      used := True
      group := some g
      prompt := g.firstSeq.promptTokenIds } := by
  simp [view, add, setGroup]

theorem view_add_of_ne (hne : s ≠ g.firstSeq.seqId) : (σ.add g).view s = σ.view s := by
  simp [view, add, setGroup, hne]

/-- What a group makes of the tokens fetched for it. -/
def fetched (cfg : SchedulerConfig) (group : Option (SequenceGroup HashValue))
    (tokens : List TokenId) : List TokenId :=
  match group with
  | none => []
  | some g => if isDiscardOutputToken cfg g then [] else tokens

theorem fetched_append (group : Option (SequenceGroup HashValue)) (tokens tokens' : List TokenId) :
    fetched cfg group (tokens ++ tokens') =
      fetched cfg group tokens ++ fetched cfg group tokens' := by
  unfold fetched
  split
  · rfl
  · split_ifs <;> rfl

@[simp]
theorem fetched_nil (group : Option (SequenceGroup HashValue)) : fetched cfg group [] = [] := by
  simpa using fetched_append group [] []

theorem fetchToken_eq {x : SequenceId × TokenId}
    (hx : ∀ g, σ.live x.1 = some g → layerwiseDiscardToken cfg g = false) :
    fetchToken cfg σ x =
      σ.setPredicted x.1 (σ.predictedTokensBySeqId x.1 ++ fetched cfg (σ.live x.1) [x.2]) := by
  have hself : σ.setPredicted x.1 (σ.predictedTokensBySeqId x.1) = σ := by
    simp [setPredicted]
  cases hlive : σ.live x.1 with
  | none => simp [fetchToken, fetched, hlive, hself]
  | some g =>
    have hkeep := hx g hlive
    by_cases hdiscard : isDiscardOutputToken cfg g = true
    · simp [fetchToken, fetched, hlive, hkeep, hdiscard, hself]
    · simp [fetchToken, fetched, hlive, hkeep, hdiscard]

theorem foldl_fetchToken {q : List (SequenceId × TokenId)}
    (hq : ∀ x ∈ q, ∀ g, σ.live x.1 = some g → layerwiseDiscardToken cfg g = false) :
    q.foldl (fetchToken cfg) σ =
      { σ with predictedTokensBySeqId := fun s =>
          σ.predictedTokensBySeqId s ++ fetched cfg (σ.live s) (tokensOf q s) } := by
  induction q generalizing σ with
  | nil => simp
  | cons x q ih =>
    rw [List.foldl_cons, fetchToken_eq (hq x (by simp)), ih]
    · simp only [setPredicted]
      congr 1
      funext s
      have hcons : tokensOf (x :: q) s = tokensOf [x] s ++ tokensOf q s := tokensOf_append [x] q
      rw [hcons, fetched_append, ← List.append_assoc]
      -- the token of `x` comes before the others of its sequence
      rcases eq_or_ne s x.1 with rfl | hs
      · simp [tokensOf]
      · have hnil : tokensOf [x] s = [] := by simp [tokensOf, hs.symm]
        simp [hs, hnil]
    · exact fun y hy => hq y (by simp [hy])

/-- What `FetchSeqGeneratedTokens` does to a view. -/
def fetchView (cfg : SchedulerConfig) (v : SeqView HashValue) : SeqView HashValue :=
  { v with
    inRound := True
    predicted := v.predicted ++ fetched cfg v.group v.queued
    queued := [] }

theorem fetchSeqGeneratedTokens_eq
    (hq : ∀ x ∈ σ.seqIdToOutputTokenQueue, ∀ g, σ.live x.1 = some g →
      layerwiseDiscardToken cfg g = false) :
    σ.fetchSeqGeneratedTokens cfg =
      { σ with
        predictedTokensBySeqId := fun s => σ.predictedTokensBySeqId s ++
          fetched cfg (σ.live s) (tokensOf σ.seqIdToOutputTokenQueue s)
        seqIdToOutputTokenQueue := [] } :=
  @foldl_fetchToken _ cfg { σ with seqIdToOutputTokenQueue := [] } _ hq

theorem view_fetch (hphase : σ.phase = .waiting)
    (hq : ∀ x ∈ σ.seqIdToOutputTokenQueue, ∀ g, σ.live x.1 = some g →
      layerwiseDiscardToken cfg g = false) :
    view { σ.fetchSeqGeneratedTokens cfg with phase := .collecting } s =
      fetchView cfg (σ.view s) := by
  rw [fetchSeqGeneratedTokens_eq hq]
  simp [view, fetchView, placeOf, hphase]

theorem dequeue_eq {seq : Sequence HashValue} {left : List TokenId}
    (h : Scheduler.replacePlaceHolderOfSeq cfg g.isLastChunk (σ.predictedTokensBySeqId s)
      g.firstSeq = .ok (seq, left)) (terminated : Bool) :
    σ.dequeue cfg s g terminated = .ok
      (if terminated then (σ.setPredicted s []).setGroup s none
      else { (σ.setPredicted s left).setGroup s (some { g with firstSeq := seq }) with
        candidates := s :: σ.candidates }) := by
  cases terminated <;> simp [dequeue, h, bind, Except.bind, pure, Except.pure]

theorem view_clear_self : view ((σ.setPredicted s []).setGroup s none) s =
    { σ.view s with predicted := [], group := none } := by
  simp [view, setGroup, setPredicted]

theorem view_clear_of_ne (hne : s' ≠ s) :
    view ((σ.setPredicted s []).setGroup s none) s' = σ.view s' := by
  simp [view, setGroup, setPredicted, hne]

/-- The view of a sequence that has been dequeued. -/
def dequeueView (v : SeqView HashValue) (g : SequenceGroup HashValue) (seq : Sequence HashValue) :
    SeqView HashValue :=
  { v with predicted := [], group := some { g with firstSeq := seq }, place := .candidate }

theorem view_dequeue_self (seq : Sequence HashValue) :
    view { (σ.setPredicted s []).setGroup s (some { g with firstSeq := seq }) with
      candidates := s :: σ.candidates } s = dequeueView (σ.view s) g seq := by
  simp [view, dequeueView, setGroup, setPredicted, placeOf_cons_self]

theorem view_dequeue_of_ne (hne : s' ≠ s) (seq : Sequence HashValue) :
    view { (σ.setPredicted s []).setGroup s (some { g with firstSeq := seq }) with
      candidates := s :: σ.candidates } s' = σ.view s' := by
  simp [view, setGroup, setPredicted, placeOf_cons_of_ne hne, hne]

theorem view_apply (hphase : σ.phase = .collecting) :
    view { σ with phase := .applying } s = σ.view s := by
  simp [view, placeOf, hphase]

/-- What a candidate's view becomes when it leaves the candidates with the group `g'`. -/
theorem view_erase_self (hnodup : σ.candidates.Nodup) (hes : entriesOf σ.scheduled s = []) :
    view { σ.setGroup s (some g') with candidates := σ.candidates.erase s } s =
      { σ.view s with place := .parked, group := some g' } := by
  simp [view, setGroup, placeOf_erase_self hnodup hes]

theorem view_erase_of_ne (hne : s' ≠ s) :
    view { σ.setGroup s (some g') with candidates := σ.candidates.erase s } s' = σ.view s' := by
  simp [view, setGroup, placeOf_erase_of_ne hne, hne]

theorem view_preempt_self (hnodup : σ.candidates.Nodup) (hes : entriesOf σ.scheduled s = []) :
    (σ.preemptByRecompute s g).view s =
      { σ.view s with
        place := .parked
        group := some { g with
          firstSeq := { g.firstSeq with status := .waiting }.resetStateForRecompute }
        recomputed := True } := by
  simp [view, preemptByRecompute, setGroup, placeOf_erase_self hnodup hes]

theorem view_preempt_of_ne (hne : s' ≠ s) : (σ.preemptByRecompute s g).view s' = σ.view s' := by
  simp [view, preemptByRecompute, setGroup, placeOf_erase_of_ne hne, hne]

theorem view_stopThinking_self (hnodup : σ.candidates.Nodup) (hes : entriesOf σ.scheduled s = []) :
    (σ.updateStatusForRecompute cfg s g).view s =
      { σ.view s with
        place := .parked
        group := some { g with
          firstSeq := { { g.firstSeq with
            outputTokenIds := g.firstSeq.outputTokenIds.rdropWhile (· = placeholderToken) ++
              cfg.earlyStoppingIds } with status := .waiting }.resetStateForRecompute }
        accepted := σ.accepted s ++ cfg.earlyStoppingIds
        recomputed := True } := by
  simp [view, updateStatusForRecompute, preemptByRecompute, setGroup,
    placeOf_erase_self hnodup hes]

theorem view_stopThinking_of_ne (hne : s' ≠ s) :
    (σ.updateStatusForRecompute cfg s g).view s' = σ.view s' := by
  simp [view, updateStatusForRecompute, preemptByRecompute, setGroup, placeOf_erase_of_ne hne, hne]

theorem view_schedule_self {e : BatchEntry} (hphase : σ.phase = .applying)
    (hnodup : σ.candidates.Nodup) (hes : entriesOf σ.scheduled e.seqId = []) :
    view { σ.setGroup e.seqId (some g') with
      candidates := σ.candidates.erase e.seqId, scheduled := σ.scheduled ++ [e] } e.seqId =
      { σ.view e.seqId with place := .scheduled e, group := some g' } := by
  have hentries : entriesOf (σ.scheduled ++ [e]) e.seqId = [e] := by
    rw [entriesOf_append, hes, entriesOf_cons_self, entriesOf_nil, List.nil_append]
  simp [view, setGroup, placeOf, hnodup.not_mem_erase, hentries, hphase]

theorem view_schedule_of_ne {e : BatchEntry} (hne : s' ≠ e.seqId) :
    view { σ.setGroup e.seqId (some g') with
      candidates := σ.candidates.erase e.seqId, scheduled := σ.scheduled ++ [e] } s' =
        σ.view s' := by
  simp [view, setGroup, placeOf_erase_of_ne hne, placeOf_concat_of_ne hne, hne]

/-- What handing over the batch does to a view. -/
def issueView (v : SeqView HashValue) : SeqView HashValue :=
  { v with
    inRound := False
    place := v.place.issue
    outstanding :=
      match v.place with
      | .scheduled e => v.outstanding ++ [e]
      | _ => v.outstanding }

theorem view_issue {isPrefillBatch : Bool} (hphase : σ.phase = .applying)
    (hdisj : ∀ e ∈ σ.scheduled, e.seqId ∉ σ.candidates)
    (hnodup : (σ.scheduled.map BatchEntry.seqId).Nodup) :
    (σ.issue isPrefillBatch).view s = issueView (σ.view s) := by
  cases hes : entriesOf σ.scheduled s with
  | nil =>
    by_cases hempty : σ.scheduled = []
    · by_cases hcand : s ∈ σ.candidates <;>
        simp [issue, view, issueView, placeOf, hempty, hcand, Place.issue]
    · by_cases hcand : s ∈ σ.candidates <;>
        simp [issue, view, issueView, placeOf, hempty, hes, hcand, Place.issue]
  | cons e rest =>
    have hlength := entriesOf_length_le_one hnodup (s := s)
    obtain rfl : rest = [] := by
      rw [hes, List.length_cons] at hlength
      exact List.length_eq_zero_iff.mp (by omega)
    have he : e ∈ entriesOf σ.scheduled s := hes ▸ List.mem_cons_self
    have he : e ∈ σ.scheduled ∧ e.seqId = s := by simpa [entriesOf] using he
    have hcand : s ∉ σ.candidates := he.2 ▸ hdisj e he.1
    have hempty : σ.scheduled ≠ [] := List.ne_nil_of_mem he.1
    simp [issue, view, issueView, placeOf, hempty, hes, hcand, hphase, Place.issue]

/-- Preparing the next round, for the first entry of the batch that is left. -/
theorem view_prepareGroup_self {e : BatchEntry} {rest : List BatchEntry}
    (hnodup : ((e :: rest).map BatchEntry.seqId).Nodup) (hcand : σ.candidates = [])
    (group : Option (SequenceGroup HashValue)) :
    view { σ with live := Function.update σ.live e.seqId group, scheduled := rest } e.seqId =
      { σ.view e.seqId with place := .parked, group := group } := by
  have hrest : entriesOf rest e.seqId = [] := by
    rw [entriesOf_eq_nil_iff]
    intro e' he' heq
    exact (List.nodup_cons.mp hnodup).1 (List.mem_map.mpr ⟨e', he', heq⟩)
  simp [view, placeOf, hrest, hcand]

theorem view_prepareGroup_of_ne {e : BatchEntry} {rest : List BatchEntry} (hne : s ≠ e.seqId)
    (hsched : σ.scheduled = e :: rest) (group : Option (SequenceGroup HashValue)) :
    view { σ with live := Function.update σ.live e.seqId group, scheduled := rest } s =
      σ.view s := by
  simp [view, placeOf, hsched, entriesOf_cons_of_ne hne, hne]

/-- What a callback does to the group of an output. -/
def handledGroup (cfg : SchedulerConfig) (g : SequenceGroup HashValue) : SequenceGroup HashValue :=
  if cfg.layerwiseDisaggregated then lwdProcessGroup g else g

/-- What a callback makes of its batch with an output. -/
def handledBatch (cfg : SchedulerConfig) (b : OutstandingBatch) (others : List BatchEntry)
    (s : SequenceId) (group : Option (SequenceGroup HashValue)) : OutstandingBatch :=
  if cfg.layerwiseDisaggregated then lwdProcessBatch { b with outputs := others } s group
  else { b with outputs := others }

section Handle

variable {i : Nat} {b : OutstandingBatch} {e : BatchEntry} {others : List BatchEntry}
  {sample : SequenceOutput}

theorem handledBatch_outputs (group : Option (SequenceGroup HashValue)) :
    (handledBatch cfg b others s group).outputs = others := by
  unfold handledBatch lwdProcessBatch
  split
  · cases group <;> rfl
  · rfl

theorem mem_handledBatch {group : Option (SequenceGroup HashValue)}
    (h : s' ∈ (handledBatch cfg b others s group).recomputeInDBatchQueue) :
    s' ∈ b.recomputeInDBatchQueue ∨
      s' = s ∧ ∃ g, group = some g ∧ g.firstSeq.layerwise.layerwiseRunning = true := by
  unfold handledBatch lwdProcessBatch at h
  split at h
  · cases group with
    | none => exact .inl h
    | some g =>
      dsimp only at h
      split_ifs at h with hrunning
      · rcases List.mem_append.mp h with h | h
        · exact .inl h
        · exact .inr ⟨by simpa using h, g, rfl, hrunning.2⟩
      · exact .inl h
  · exact .inl h

theorem handleOutput_eq : σ.handleOutput cfg i b e others sample =
    { σ with
      live := Function.update σ.live e.seqId ((σ.live e.seqId).map (handledGroup cfg))
      seqIdToOutputTokenQueue :=
        σ.seqIdToOutputTokenQueue ++ (greedyTokens cfg sample).map (e.seqId, ·)
      outstanding := σ.outstanding.set i (handledBatch cfg b others e.seqId (σ.live e.seqId))
      sampled := Function.update σ.sampled e.seqId
        (σ.sampled e.seqId ++ if e.isReqLastChunk then greedyTokens cfg sample else [])
      accepted := Function.update σ.accepted e.seqId
        (σ.accepted e.seqId ++ if e.isReqLastChunk then greedyTokens cfg sample else [])
      delivered := Function.update σ.delivered e.seqId
        (σ.delivered e.seqId ++ fetched cfg (σ.live e.seqId) (responseTokens sample)) } := by
  cases hlive : σ.live e.seqId with
  | none =>
    have hself : Function.update σ.live e.seqId none = σ.live := by
      rw [← hlive, Function.update_eq_self]
    simp [handleOutput, hlive, hself, fetched, handledBatch]
  | some g => simp [handleOutput, hlive, setGroup, fetched, handledBatch, handledGroup]

theorem view_handle_self (cfg : SchedulerConfig) (sample : SequenceOutput)
    (hb : σ.outstanding[i]? = some b) (houtputs : b.outputs = e :: others)
    (hfirst : ∀ x ∈ σ.outstanding.take i, ∀ e' ∈ x.outputs, e'.seqId ≠ e.seqId) :
    ∃ rest, (σ.view e.seqId).outstanding = e :: rest ∧
      (σ.handleOutput cfg i b e others sample).view e.seqId =
        { σ.view e.seqId with
          queued := tokensOf σ.seqIdToOutputTokenQueue e.seqId ++ greedyTokens cfg sample
          outstanding := rest
          sampled := σ.sampled e.seqId ++ if e.isReqLastChunk then greedyTokens cfg sample else []
          accepted := σ.accepted e.seqId ++ if e.isReqLastChunk then greedyTokens cfg sample else []
          group := (σ.live e.seqId).map (handledGroup cfg)
          delivered := σ.delivered e.seqId ++
            fetched cfg (σ.live e.seqId) (responseTokens sample)
          inDBatch := ((σ.handleOutput cfg i b e others sample).view e.seqId).inDBatch } := by
  have houtputs' :
      b.outputs = e :: (handledBatch cfg b others e.seqId (σ.live e.seqId)).outputs := by
    rw [houtputs, handledBatch_outputs]
  obtain ⟨hself, -⟩ := outputsOf_set hb _ houtputs' hfirst
  refine ⟨_, hself, ?_⟩
  simp [handleOutput_eq, view]

theorem view_handle_of_ne (hb : σ.outstanding[i]? = some b) (houtputs : b.outputs = e :: others)
    (hfirst : ∀ x ∈ σ.outstanding.take i, ∀ e' ∈ x.outputs, e'.seqId ≠ e.seqId)
    (hne : s ≠ e.seqId) :
    (σ.handleOutput cfg i b e others sample).view s =
      { σ.view s with
        inDBatch := ((σ.handleOutput cfg i b e others sample).view s).inDBatch } := by
  have houtputs' :
      b.outputs = e :: (handledBatch cfg b others e.seqId (σ.live e.seqId)).outputs := by
    rw [houtputs, handledBatch_outputs]
  obtain ⟨-, hother⟩ := outputsOf_set hb _ houtputs' hfirst
  simp [handleOutput_eq, view, tokensOf_map_of_ne hne, ← hother s hne, hne]

theorem inDBatch_handle (hb : σ.outstanding[i]? = some b)
    (h : ((σ.handleOutput cfg i b e others sample).view s).inDBatch) :
    (σ.view s).inDBatch ∨
      ∃ g, σ.live s = some g ∧ g.firstSeq.layerwise.layerwiseRunning = true := by
  obtain ⟨x, hx, hs⟩ := h
  rw [handleOutput_eq] at hx
  rcases List.mem_or_eq_of_mem_set hx with hx | rfl
  · exact .inl ⟨x, hx, hs⟩
  · rcases mem_handledBatch hs with hs | ⟨rfl, g, hg, hrunning⟩
    · exact .inl ⟨b, List.mem_of_getElem? hb, hs⟩
    · exact .inr ⟨g, hg, hrunning⟩

end Handle

/-! ### The end of a batch -/

theorem foldl_lwdRecomputeGroup (queue : List SequenceId) (σ : EngineState HashValue) :
    queue.foldl lwdRecomputeGroup σ = { σ with live := (queue.foldl lwdRecomputeGroup σ).live } ∧
      ∀ s, (queue.foldl lwdRecomputeGroup σ).live s = σ.live s ∨
        s ∈ queue ∧ ∃ g l, σ.live s = some g ∧
          (queue.foldl lwdRecomputeGroup σ).live s = some (setLayerwise g l) := by
  induction queue generalizing σ with
  | nil => exact ⟨rfl, fun s => .inl rfl⟩
  | cons x queue ih =>
    obtain ⟨hfields, hlive⟩ := ih (lwdRecomputeGroup σ x)
    rw [List.foldl_cons]
    have hx : lwdRecomputeGroup σ x = { σ with live := (lwdRecomputeGroup σ x).live } ∧
        ∀ s, (lwdRecomputeGroup σ x).live s = σ.live s ∨
          s = x ∧ ∃ g l, σ.live s = some g ∧
            (lwdRecomputeGroup σ x).live s = some (setLayerwise g l) := by
      unfold lwdRecomputeGroup
      cases hg : σ.live x with
      | none => exact ⟨rfl, fun s => .inl rfl⟩
      | some g =>
        refine ⟨rfl, fun s => ?_⟩
        rcases eq_or_ne s x with rfl | hs
        · exact .inr ⟨rfl, g, _, hg, by simp [setGroup]; rfl⟩
        · exact .inl (by simp [setGroup, hs])
    refine ⟨?_, fun s => ?_⟩
    · rw [hfields, hx.1]
    · rcases hlive s with hsame | ⟨hs, g, l, hg, hl⟩
      · rw [hsame]
        rcases hx.2 s with hsame | ⟨rfl, hchange⟩
        · exact .inl hsame
        · exact .inr ⟨List.mem_cons_self, hchange⟩
      · refine .inr ⟨List.mem_cons_of_mem _ hs, ?_⟩
        rcases hx.2 s with hsame | ⟨-, g', l', hg', hl'⟩
        · exact ⟨g, l, hsame ▸ hg, hl⟩
        · rw [hl'] at hg
          cases hg
          exact ⟨g', l, hg', hl⟩

theorem finishBatch_eq (σ : EngineState HashValue) (i : Nat) (b : OutstandingBatch) :
    σ.finishBatch i b =
        { σ with outstanding := σ.outstanding.eraseIdx i, live := (σ.finishBatch i b).live } ∧
      ∀ s, (σ.finishBatch i b).live s = σ.live s ∨
        s ∈ b.recomputeInDBatchQueue ∧ ∃ g l, σ.live s = some g ∧
          (σ.finishBatch i b).live s = some (setLayerwise g l) := by
  unfold finishBatch
  split_ifs
  · exact foldl_lwdRecomputeGroup b.recomputeInDBatchQueue
      { σ with outstanding := σ.outstanding.eraseIdx i }
  · exact ⟨rfl, fun s => .inl rfl⟩

theorem view_finish {i : Nat} {b : OutstandingBatch} (hb : σ.outstanding[i]? = some b)
    (houtputs : b.outputs = []) :
    (σ.finishBatch i b).view s =
        { σ.view s with
          group := ((σ.finishBatch i b).view s).group
          inDBatch := ((σ.finishBatch i b).view s).inDBatch } ∧
      (((σ.finishBatch i b).view s).inDBatch → (σ.view s).inDBatch) ∧
      (((σ.finishBatch i b).view s).group = (σ.view s).group ∨
        (σ.view s).inDBatch ∧ ∃ g l, (σ.view s).group = some g ∧
          ((σ.finishBatch i b).view s).group = some (setLayerwise g l)) := by
  obtain ⟨hfields, hlive⟩ := finishBatch_eq σ i b
  have hout := outputsOf_eraseIdx (s := s) hb houtputs
  refine ⟨?_, ?_, ?_⟩
  · rw [hfields]
    simp [view, hout]
  · rw [hfields]
    rintro ⟨x, hx, hs⟩
    exact ⟨x, List.mem_of_mem_eraseIdx hx, hs⟩
  · rcases hlive s with hsame | ⟨hs, hchange⟩
    · exact .inl hsame
    · exact .inr ⟨⟨b, List.mem_of_getElem? hb, hs⟩, hchange⟩

end EngineState

end MindieLLM
