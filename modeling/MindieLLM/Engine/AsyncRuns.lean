import MindieLLM.Engine.AsyncInvariant

/-!
# Runs of the engine

Every step keeps the invariant of all views, and does not throw, if the prompts are scheduled when
nothing is to come for their sequences and no token is dropped on its way. Without preemption, or
with one batch at a time, this is so in every run.

## Main definitions

* `EngineInv`: the invariant of the engine
* `Safe`: the condition on the steps

## Main results

* `EngineInv.step`: a safe step keeps the invariant and does not throw
-/

namespace MindieLLM

variable {HashValue : Type}

open EngineState

/-- What the scheduling thread has in its lists. -/
structure Tidy (limit : Nat) (σ : EngineState HashValue) : Prop where
  candidates : σ.candidates.Nodup
  scheduled : (σ.scheduled.map BatchEntry.seqId).Nodup
  disjoint : ∀ e ∈ σ.scheduled, e.seqId ∉ σ.candidates
  batches : ∀ b ∈ σ.outstanding, (b.outputs.map BatchEntry.seqId).Nodup
  waiting : σ.phase = .waiting → σ.candidates = [] ∧ σ.scheduled = []
  collecting : σ.phase = .collecting → σ.scheduled = []
  preparing : σ.phase = .preparing → σ.candidates = []

structure EngineInv (cfg : SchedulerConfig) (limit : Nat) (σ : EngineState HashValue) : Prop where
  tidy : Tidy limit σ
  seqs : ∀ s, SeqInv cfg limit (σ.view s)

/-- The condition on a step. A prompt is scheduled when no batch with its sequence is outstanding
and no token of it waits in the queue, which is so anyway if only one batch is outstanding at a
time; the end of the thinking is inserted into a sequence that decodes, when no token of it waits;
and no token is fetched that the layer-wise mode has marked to be dropped. -/
def Safe (cfg : SchedulerConfig) (limit : Nat) (σ : EngineState HashValue) :
    EngineOp HashValue → Prop
  | .fetch => ∀ x ∈ σ.seqIdToOutputTokenQueue, ∀ g ∈ σ.live x.1, layerwiseDiscardToken cfg g = false
  | .schedule s _ _ _ => 1 < limit → ∀ g ∈ σ.live s, g.firstSeq.stage = .prefill →
      outputsOf σ.outstanding s = [] ∧ tokensOf σ.seqIdToOutputTokenQueue s = []
  | .stopThinking s => ∀ g ∈ σ.live s, g.firstSeq.stage = .decode ∧
      (1 < limit → tokensOf σ.seqIdToOutputTokenQueue s = [])
  | _ => True

section

variable {cfg : SchedulerConfig} {limit : Nat} {σ : EngineState HashValue} {s : SequenceId}
  {v : SeqView HashValue} {g : SequenceGroup HashValue} {real : List TokenId} {c : Nat}

/-! ## Views -/

theorem SeqInv.used (h : SeqInv cfg limit v) (hg : v.group = some g) : v.used := by
  by_contra hu
  have hnone := (h.unused hu).2.2.2.2.2.2.2.2.2
  rw [hg] at hnone
  cases hnone

/-- A view with the invariant of its group. -/
theorem SeqInv.of_live (hused : v.used) (hgroup : v.group = some g)
    (hroom : v.inRound → 0 < limit ∧
      v.outstanding.length * cfg.tokenNumPerIter + v.queued.length ≤
        (limit - 1) * cfg.tokenNumPerIter)
    (h : LiveInv cfg limit v g real c) : SeqInv cfg limit v where
  unused hu := absurd hused hu
  room := hroom
  live g' hg' := by
    obtain rfl : g = g' := by simpa [hgroup] using hg'
    exact ⟨real, c, h⟩

/-- With one batch at a time nothing is outstanding in a round. -/
theorem SeqInv.nothing (h : SeqInv cfg limit v) (hround : v.inRound) (hlimit : limit ≤ 1) :
    v.outstanding = [] ∧ v.queued = [] := by
  obtain ⟨-, hroom⟩ := h.room hround
  have hunit := tokenNumPerIter_pos cfg
  obtain hzero : limit - 1 = 0 := by omega
  rw [hzero, Nat.zero_mul] at hroom
  constructor
  · by_contra hne
    have hpos := Nat.mul_pos (List.length_pos_iff.mpr hne) hunit
    omega
  · by_contra hne
    have := List.length_pos_iff.mpr hne
    omega

theorem SeqInv.fetch (h : SeqInv cfg limit v) (hplace : v.place = .parked)
    (hroom : v.outstanding.length < limit) : SeqInv cfg limit (fetchView cfg v) where
  unused hu := by
    obtain ⟨hpred, hqueued, hrest⟩ := h.unused hu
    refine ⟨?_, rfl, hrest⟩
    simp [fetchView, hpred, hqueued]
  room _ := by
    refine ⟨by omega, ?_⟩
    simp only [fetchView, List.length_nil, Nat.add_zero]
    exact Nat.mul_le_mul_right _ (by omega)
  live g hg := by
    obtain ⟨real, c, hlive⟩ := h.live g hg
    exact ⟨real, c, hlive.fetch hg hplace⟩

theorem SeqInv.issue (h : SeqInv cfg limit v) (hround : v.inRound)
    (hnot : ∀ e, v.place ≠ .issued e) : SeqInv cfg limit (issueView v) where
  unused hu := by
    obtain ⟨hpred, hqueued, hout, hplace, hrest⟩ := h.unused hu
    refine ⟨hpred, hqueued, ?_, ?_, hrest⟩ <;> simp [issueView, hplace, hout, Place.issue]
  room hround := hround.elim
  live g hg := by
    obtain ⟨real, c, hlive⟩ := h.live g hg
    obtain ⟨hlimit, hroom⟩ := h.room hround
    exact ⟨real, c, hlive.issue hnot hlimit hroom⟩

theorem SeqInv.setInDBatch (h : SeqInv cfg limit v) {p : Prop}
    (hp : p → v.inDBatch ∨ ∃ g, v.group = some g ∧ g.firstSeq.layerwise.layerwiseRunning = true) :
    SeqInv cfg limit { v with inDBatch := p } where
  unused hu := by
    obtain ⟨hpred, hqueued, hout, hplace, hsampled, haccepted, hdelivered, hrec, hin, hnone⟩ :=
      h.unused hu
    refine ⟨hpred, hqueued, hout, hplace, hsampled, haccepted, hdelivered, hrec, fun hp' => ?_,
      hnone⟩
    rcases hp hp' with hin' | ⟨g, hg, -⟩
    · exact hin hin'
    · rw [hnone] at hg
      cases hg
  room := h.room
  live g hg := by
    obtain ⟨real, c, hlive⟩ := h.live g hg
    refine ⟨real, c, { hlive with fresh := fun hrec => ?_ }⟩
    obtain ⟨hprompt, haccepted, hin, hrecompute, hrunning, hdiscard⟩ := hlive.fresh hrec
    refine ⟨hprompt, haccepted, fun hp' => ?_, hrecompute, hrunning, hdiscard⟩
    rcases hp hp' with hin' | ⟨g', hg', hrunning'⟩
    · exact hin hin'
    · rw [show v.group = some g from hg] at hg'
      cases hg'
      rw [hrunning] at hrunning'
      cases hrunning'

/-! ## The steps of the scheduling thread -/

namespace EngineInv

theorem place_parked (hcand : s ∉ σ.candidates) (hsched : σ.scheduled = []) :
    (σ.view s).place = .parked := by
  simp [view, placeOf, hcand, hsched]

theorem place_candidate (hcand : s ∈ σ.candidates) : (σ.view s).place = .candidate := by
  simp [view, placeOf, hcand]

theorem add (h : EngineInv cfg limit σ) (hnew : IsNew g) (hs : g.firstSeq.seqId ∉ σ.used) :
    EngineInv cfg limit (σ.add g) where
  tidy := { h.tidy with }
  seqs s := by
    rcases eq_or_ne s g.firstSeq.seqId with rfl | hne
    · obtain ⟨hpred, hqueued, hout, hplace, hsampled, haccepted, hdelivered, hrec, hin, -⟩ :=
        (h.seqs g.firstSeq.seqId).unused hs
      rw [view_add_self]
      exact .of_live trivial rfl (h.seqs _).room (LiveInv.add hnew
        ⟨hpred, hqueued, hout, hplace, hsampled, haccepted, hdelivered, hrec, hin⟩)
    · rw [view_add_of_ne hne]
      exact h.seqs s

theorem fetch (h : EngineInv cfg limit σ) (hphase : σ.phase = .waiting)
    (hroom : σ.outstanding.length < limit)
    (hq : ∀ x ∈ σ.seqIdToOutputTokenQueue, ∀ g, σ.live x.1 = some g →
      layerwiseDiscardToken cfg g = false) :
    EngineInv cfg limit { σ.fetchSeqGeneratedTokens cfg with phase := .collecting } where
  tidy := by
    obtain ⟨hcand, hsched⟩ := h.tidy.waiting hphase
    rw [fetchSeqGeneratedTokens_eq hq]
    exact { h.tidy with
      waiting := by simp
      collecting := fun _ => hsched
      preparing := by simp }
  seqs s := by
    obtain ⟨hcand, hsched⟩ := h.tidy.waiting hphase
    rw [view_fetch hphase hq]
    exact (h.seqs s).fetch (place_parked (by simp [hcand]) hsched)
      ((outputsOf_length_le h.tidy.batches).trans_lt hroom)

theorem clear (h : EngineInv cfg limit σ) (hg : σ.live s = some g) :
    EngineInv cfg limit ((σ.setPredicted s []).setGroup s none) where
  tidy := { h.tidy with }
  seqs s' := by
    rcases eq_or_ne s' s with rfl | hne
    · rw [view_clear_self]
      exact
        { unused := fun hu => absurd ((h.seqs s').used hg) hu
          room := (h.seqs s').room
          live := by simp }
    · rw [view_clear_of_ne hne]
      exact h.seqs s'

theorem take (h : EngineInv cfg limit σ) (hg : σ.live s = some g) (hphase : σ.phase = .collecting)
    (hcand : s ∉ σ.candidates) {seq : Sequence HashValue}
    (hlive : LiveInv cfg limit (dequeueView (σ.view s) g seq) { g with firstSeq := seq } real c) :
    EngineInv cfg limit
      { (σ.setPredicted s []).setGroup s (some { g with firstSeq := seq }) with
        candidates := s :: σ.candidates } where
  tidy :=
    { h.tidy with
      candidates := List.nodup_cons.mpr ⟨hcand, h.tidy.candidates⟩
      disjoint := fun e he => by
        have he : e ∈ σ.scheduled := he
        rw [h.tidy.collecting hphase] at he
        cases he
      waiting := fun hwaiting => by
        rw [show σ.phase = .waiting from hwaiting] at hphase
        cases hphase
      preparing := fun hpreparing => by
        rw [show σ.phase = .preparing from hpreparing] at hphase
        cases hphase }
  seqs s' := by
    rcases eq_or_ne s' s with rfl | hne
    · rw [view_dequeue_self]
      exact .of_live ((h.seqs s').used hg) rfl (h.seqs s').room hlive
    · rw [view_dequeue_of_ne hne]
      exact h.seqs s'

theorem dequeue (h : EngineInv cfg limit σ) (hg : σ.live s = some g)
    (hphase : σ.phase = .collecting) (hcand : s ∉ σ.candidates) (terminated : Bool) :
    ∃ σ', σ.dequeue cfg s g terminated = .ok σ' ∧ EngineInv cfg limit σ' := by
  obtain ⟨real, c, hlive⟩ := (h.seqs s).live g hg
  obtain ⟨seq, hok, real', c', hlive'⟩ :=
    hlive.replace (place_parked hcand (h.tidy.collecting hphase))
  refine ⟨_, dequeue_eq hok terminated, ?_⟩
  cases terminated with
  | true => exact h.clear hg
  | false => exact h.take hg hphase hcand hlive'

theorem apply (h : EngineInv cfg limit σ) (hphase : σ.phase = .collecting) :
    EngineInv cfg limit { σ with phase := .applying } where
  tidy := { h.tidy with
    waiting := by simp
    collecting := by simp
    preparing := by simp }
  seqs s := by
    rw [view_apply hphase]
    exact h.seqs s

/-- A candidate leaves the candidates. -/
theorem Tidy.erase (h : Tidy limit σ) (hphase : σ.phase = .applying) (s : SequenceId) :
    Tidy limit { σ with candidates := σ.candidates.erase s } :=
  { h with
    candidates := h.candidates.erase s
    disjoint := fun e he hmem => h.disjoint e he (List.mem_of_mem_erase hmem)
    waiting := fun hwaiting => by
      rw [show σ.phase = .waiting from hwaiting] at hphase
      cases hphase
    preparing := fun hpreparing => by
      rw [show σ.phase = .preparing from hpreparing] at hphase
      cases hphase }

theorem entriesOf_candidate (h : Tidy limit σ) (hcand : s ∈ σ.candidates) :
    entriesOf σ.scheduled s = [] := by
  rw [entriesOf_eq_nil_iff]
  rintro e he rfl
  exact h.disjoint e he hcand

/-- A candidate goes to the batch. -/
theorem Tidy.concat (h : Tidy limit σ) (hphase : σ.phase = .applying) {e : BatchEntry}
    (hcand : e.seqId ∈ σ.candidates) :
    Tidy limit { σ with
      candidates := σ.candidates.erase e.seqId, scheduled := σ.scheduled ++ [e] } :=
  { Tidy.erase h hphase e.seqId with
    scheduled := by
      rw [List.map_append, List.nodup_append]
      refine ⟨h.scheduled, by simp, fun a ha b hb hab => ?_⟩
      obtain ⟨e', he', rfl⟩ := List.mem_map.mp ha
      obtain rfl : b = e.seqId := by simpa using hb
      exact entriesOf_eq_nil_iff.mp (entriesOf_candidate h hcand) e' he' hab
    disjoint := fun e' he' hmem => by
      rcases List.mem_append.mp he' with he' | he'
      · exact (Tidy.erase h hphase e.seqId).disjoint e' he' hmem
      · obtain rfl := List.mem_singleton.mp he'
        exact h.candidates.not_mem_erase hmem
    waiting := fun hwaiting => by
      rw [show σ.phase = .waiting from hwaiting] at hphase
      cases hphase
    collecting := fun hcollecting => by
      rw [show σ.phase = .collecting from hcollecting] at hphase
      cases hphase }

theorem schedule (hcfg : Coherent cfg limit) (h : EngineInv cfg limit σ) (hg : σ.live s = some g)
    (hphase : σ.phase = .applying) (hcand : s ∈ σ.candidates) {queue : QueueKind}
    {numCachedTokens : Nat} {budget : SchedulingBudget} (hstatus : g.firstSeq.status = queue.status)
    (hcached : numCachedTokens ≤ g.firstSeq.getLen)
    (hnothing : 1 < limit → g.firstSeq.stage = .prefill →
      outputsOf σ.outstanding s = [] ∧ tokensOf σ.seqIdToOutputTokenQueue s = []) :
    σ.schedule cfg s g queue numCachedTokens budget = .ok none ∨
      ∃ σ', σ.schedule cfg s g queue numCachedTokens budget = .ok (some σ') ∧
        EngineInv cfg limit σ' := by
  obtain ⟨real, c, hlive⟩ := (h.seqs s).live g hg
  have hplace : (σ.view s).place = .candidate := place_candidate hcand
  have hround : (σ.view s).inRound := .inr hphase
  rcases schedule_cases hcfg σ s budget hlive hstatus hcached with hnone | ⟨n, m, hok, hprefill, -⟩
  · exact .inl hnone
  · refine .inr ⟨_, hok, ?_⟩
    have hnone : (σ.view s).place.entry = none := by rw [hplace]; rfl
    obtain ⟨e, he⟩ : ∃ e : BatchEntry, e = ⟨s, m, decide (g.firstSeq.promptTokenIds.length ≤
      g.firstSeq.numComputedTokens + m)⟩ := ⟨_, rfl⟩
    have hsched := hlive.schedule hplace (e := e) (n := n) (by rw [he]) fun hstage => by
      obtain ⟨hn, hle, hwhole⟩ := hprefill hstage
      subst he
      refine ⟨hn, hle, fun hchunked => ?_, ?_⟩
      · -- a prompt that is not chunked comes from the waiting queue
        have hwaiting := (hlive.whole hstage hchunked).2 hnone
        rw [hwaiting] at hstatus
        refine hwhole ?_ hchunked
        cases queue with
        | waiting => rfl
        | running => cases hstatus
        | swapped => cases hstatus
      · rcases Nat.lt_or_ge 1 limit with hlimit | hlimit
        · exact hnothing hlimit hstage
        · exact (h.seqs s).nothing hround hlimit
    obtain ⟨g', rfl, hlive'⟩ := hsched
    have hs : e.seqId = s := by rw [he]
    have hes : entriesOf σ.scheduled e.seqId = [] :=
      entriesOf_candidate h.tidy (by rwa [hs])
    have htidy := Tidy.concat h.tidy hphase (e := e) (by rwa [hs])
    rw [← he]
    subst hs
    refine ⟨{ htidy with }, fun s' => ?_⟩
    rcases eq_or_ne s' e.seqId with rfl | hne
    · rw [view_schedule_self hphase h.tidy.candidates hes]
      exact .of_live ((h.seqs e.seqId).used hg) rfl (h.seqs e.seqId).room hlive'
    · rw [view_schedule_of_ne hne]
      exact h.seqs s'

/-- A running candidate goes back to the waiting queue. -/
theorem preempt (h : EngineInv cfg limit σ) (hg : σ.live s = some g) (hphase : σ.phase = .applying)
    (hcand : s ∈ σ.candidates) : EngineInv cfg limit (σ.preemptByRecompute s g) where
  tidy := { Tidy.erase h.tidy hphase s with }
  seqs s' := by
    rcases eq_or_ne s' s with rfl | hne
    · obtain ⟨real, c, hlive⟩ := (h.seqs s').live g hg
      rw [view_preempt_self h.tidy.candidates (entriesOf_candidate h.tidy hcand)]
      have houtputs : { g.firstSeq with status := .waiting }.resetStateForRecompute =
          { { g.firstSeq with status := .waiting }.resetStateForRecompute with
            outputTokenIds := real ++ [] } := by
        simp only [Sequence.resetStateForRecompute, hlive.outputs, List.append_nil,
          append_replicate_drop (noTrailing_of_forall hlive.realTokens)]
      have hlive' := hlive.preempt (place_candidate hcand) houtputs (by simp) (.inl rfl)
      rw [List.append_nil] at hlive'
      exact .of_live ((h.seqs s').used hg) rfl (h.seqs s').room hlive'
    · rw [view_preempt_of_ne hne]
      exact h.seqs s'

theorem stopThinking (hcfg : Coherent cfg limit) (h : EngineInv cfg limit σ)
    (hg : σ.live s = some g) (hphase : σ.phase = .applying) (hcand : s ∈ σ.candidates)
    (hstage : g.firstSeq.stage = .decode)
    (hqueued : 1 < limit → tokensOf σ.seqIdToOutputTokenQueue s = []) :
    EngineInv cfg limit (σ.updateStatusForRecompute cfg s g) where
  tidy := { Tidy.erase h.tidy hphase s with }
  seqs s' := by
    rcases eq_or_ne s' s with rfl | hne
    · obtain ⟨real, c, hlive⟩ := (h.seqs s').live g hg
      have hnothing : (σ.view s').queued = [] := by
        rcases Nat.lt_or_ge 1 limit with hlimit | hlimit
        · exact hqueued hlimit
        · exact ((h.seqs s').nothing (.inr hphase) hlimit).2
      have hreal := noTrailing_of_forall hlive.realTokens
      rw [view_stopThinking_self h.tidy.candidates (entriesOf_candidate h.tidy hcand)]
      have houtputs : { { g.firstSeq with
          outputTokenIds := g.firstSeq.outputTokenIds.rdropWhile (· = placeholderToken) ++
            cfg.earlyStoppingIds } with status := .waiting }.resetStateForRecompute =
          { { g.firstSeq with status := .waiting }.resetStateForRecompute with
            outputTokenIds := real ++ cfg.earlyStoppingIds } := by
        have hdrop := append_replicate_drop (c := 0) (hreal.append hcfg.earlyStopping)
        rw [List.replicate_zero, List.append_nil] at hdrop
        simp only [Sequence.resetStateForRecompute, hlive.outputs, append_replicate_drop hreal,
          hdrop]
      have hlive' := hlive.preempt (place_candidate hcand) houtputs hcfg.earlyStopping
        (.inr ⟨hstage, hnothing⟩)
      exact .of_live ((h.seqs s').used hg) rfl (h.seqs s').room hlive'
    · rw [view_stopThinking_of_ne hne]
      exact h.seqs s'

theorem swapOut (h : EngineInv cfg limit σ) (hg : σ.live s = some g) (hphase : σ.phase = .applying)
    (hcand : s ∈ σ.candidates) (hstatus : g.firstSeq.status = .running) :
    EngineInv cfg limit (σ.swapOut s g) where
  tidy := { Tidy.erase h.tidy hphase s with }
  seqs s' := by
    rcases eq_or_ne s' s with rfl | hne
    · obtain ⟨real, c, hlive⟩ := (h.seqs s').live g hg
      rw [EngineState.swapOut, view_erase_self h.tidy.candidates (entriesOf_candidate h.tidy hcand)]
      exact .of_live ((h.seqs s').used hg) rfl (h.seqs s').room
        (hlive.swapOut (place_candidate hcand) hstatus)
    · rw [EngineState.swapOut, view_erase_of_ne hne]
      exact h.seqs s'

theorem place_ne_issued (hphase : σ.phase = .applying) (e : BatchEntry) :
    (σ.view s).place ≠ .issued e := by
  simp only [view, placeOf, hphase, reduceCtorEq, if_false]
  split_ifs
  · simp
  · split <;> simp

theorem issue (h : EngineInv cfg limit σ) (hphase : σ.phase = .applying) (isPrefillBatch : Bool) :
    EngineInv cfg limit (σ.issue isPrefillBatch) where
  tidy := by
    unfold EngineState.issue
    split_ifs with hempty
    · exact { h.tidy with
        candidates := List.nodup_nil
        disjoint := by simp
        waiting := fun _ => ⟨rfl, hempty⟩
        collecting := by simp
        preparing := by simp }
    · exact { h.tidy with
        candidates := List.nodup_nil
        disjoint := by simp
        batches := fun b hb => by
          rcases List.mem_append.mp hb with hb | hb
          · exact h.tidy.batches b hb
          · obtain rfl := List.mem_singleton.mp hb
            exact h.tidy.scheduled
        waiting := by simp
        collecting := by simp
        preparing := fun _ => rfl }
  seqs s := by
    rw [view_issue hphase h.tidy.disjoint h.tidy.scheduled]
    exact (h.seqs s).issue (.inr hphase) (place_ne_issued hphase)

/-- Preparing the next round for the first entry that is left. -/
theorem prepareGroup (hcfg : Coherent cfg limit) {e : BatchEntry} {es : List BatchEntry}
    (h : EngineInv cfg limit σ) (hphase : σ.phase = .preparing) (hes : σ.scheduled = e :: es) :
    ∃ group, EngineState.prepareGroup cfg { σ with phase := .waiting, scheduled := [] } e = .ok
        { σ with
          phase := .waiting, scheduled := [], live := Function.update σ.live e.seqId group } ∧
      EngineInv cfg limit
        { σ with live := Function.update σ.live e.seqId group, scheduled := es } := by
  have hcand := h.tidy.preparing hphase
  have hnodup : ((e :: es).map BatchEntry.seqId).Nodup := hes ▸ h.tidy.scheduled
  have htidy : ∀ group, Tidy limit
      { σ with live := Function.update σ.live e.seqId group, scheduled := es } := fun group =>
    { h.tidy with
      scheduled := (List.nodup_cons.mp hnodup).2
      disjoint := by simp [hcand]
      waiting := fun hwaiting => by
        rw [show σ.phase = .waiting from hwaiting] at hphase
        cases hphase
      collecting := fun hcollecting => by
        rw [show σ.phase = .collecting from hcollecting] at hphase
        cases hphase }
  have hother : ∀ group, ∀ s ≠ e.seqId, SeqInv cfg limit
      (view { σ with live := Function.update σ.live e.seqId group, scheduled := es } s) := by
    intro group s hs
    rw [view_prepareGroup_of_ne hs hes]
    exact h.seqs s
  have hplace : (σ.view e.seqId).place = .issued e := by
    simp [view, placeOf, hcand, hes, entriesOf_cons_self, hphase]
  cases hlive : σ.live e.seqId with
  | none =>
    have hself : Function.update σ.live e.seqId none = σ.live := by
      rw [← hlive, Function.update_eq_self]
    refine ⟨none, by simp [EngineState.prepareGroup, hlive, hself], htidy _, fun s => ?_⟩
    rcases eq_or_ne s e.seqId with rfl | hs
    · rw [view_prepareGroup_self hnodup hcand]
      refine
        { unused := fun hu => ?_
          room := (h.seqs e.seqId).room
          live := by simp }
      obtain ⟨-, -, -, hparked, -⟩ := (h.seqs e.seqId).unused hu
      rw [hplace] at hparked
      cases hparked
    · exact hother _ s hs
  | some g =>
    obtain ⟨real, c, hinv⟩ := (h.seqs e.seqId).live g hlive
    obtain ⟨g', hok, c', hinv'⟩ := hinv.prepare hcfg hplace
    refine ⟨some (lwdPrepareGroup cfg σ.isPrefillBatch g'), ?_, htidy _, fun s => ?_⟩
    · simp [EngineState.prepareGroup, hlive, hok, bind, Except.bind, pure, Except.pure, setGroup]
    · rcases eq_or_ne s e.seqId with rfl | hs
      · rw [view_prepareGroup_self hnodup hcand]
        exact .of_live ((h.seqs e.seqId).used hlive) rfl (h.seqs e.seqId).room
          { hinv'.lwdPrepare σ.isPrefillBatch with }
      · exact hother _ s hs

/-- Preparing the next round, entry by entry: the entries that are left keep their place. -/
theorem prepare_foldlM (hcfg : Coherent cfg limit) {es : List BatchEntry}
    (h : EngineInv cfg limit σ) (hphase : σ.phase = .preparing) (hes : σ.scheduled = es) :
    ∃ live, es.foldlM (EngineState.prepareGroup cfg) { σ with phase := .waiting, scheduled := [] } =
        .ok { σ with phase := .waiting, scheduled := [], live := live } ∧
      EngineInv cfg limit { σ with scheduled := [], live := live } := by
  induction es generalizing σ with
  | nil =>
    refine ⟨σ.live, rfl, ?_⟩
    rw [← hes]
    exact h
  | cons e es ih =>
    obtain ⟨group, hok, hinv⟩ := h.prepareGroup hcfg hphase hes
    obtain ⟨live, hrest, hinv'⟩ := ih hinv hphase rfl
    refine ⟨live, ?_, hinv'⟩
    rw [List.foldlM_cons, hok]
    exact hrest

/-- Preparing the next round does not throw. -/
theorem prepare (hcfg : Coherent cfg limit) (h : EngineInv cfg limit σ)
    (hphase : σ.phase = .preparing) :
    ∃ σ', σ.prepare cfg = .ok σ' ∧ EngineInv cfg limit σ' := by
  obtain ⟨live, hok, hinv⟩ := h.prepare_foldlM hcfg hphase rfl
  have hcand := h.tidy.preparing hphase
  refine ⟨_, hok, { hinv.tidy with
    waiting := fun _ => ⟨hcand, rfl⟩
    collecting := fun _ => rfl
    preparing := fun _ => hcand }, fun s => ?_⟩
  have hview : view { σ with phase := .waiting, scheduled := [], live := live } s =
      view { σ with scheduled := [], live := live } s := by
    simp [view, placeOf, hphase]
  rw [hview]
  exact hinv.seqs s

/-! ## The steps of the callbacks -/

theorem handle (h : EngineInv cfg limit σ) {i : Nat} {b : OutstandingBatch} {e : BatchEntry}
    {others : List BatchEntry} {sample : SequenceOutput} (hb : σ.outstanding[i]? = some b)
    (houtputs : b.outputs = e :: others) (hsample : IsSample cfg sample)
    (hfirst : ∀ x ∈ σ.outstanding.take i, ∀ e' ∈ x.outputs, e'.seqId ≠ e.seqId) :
    EngineInv cfg limit (σ.handleOutput cfg i b e others sample) where
  tidy := by
    have hmem : b ∈ σ.outstanding := List.mem_of_getElem? hb
    have hothers : (others.map BatchEntry.seqId).Nodup := by
      have := h.tidy.batches b hmem
      rw [houtputs] at this
      exact (List.nodup_cons.mp this).2
    rw [handleOutput_eq]
    exact { h.tidy with
      batches := fun b' hb' => by
        rcases List.mem_or_eq_of_mem_set hb' with hb' | rfl
        · exact h.tidy.batches b' hb'
        · rwa [handledBatch_outputs] }
  seqs s := by
    have hin : ((σ.handleOutput cfg i b e others sample).view s).inDBatch → _ := inDBatch_handle hb
    rcases eq_or_ne s e.seqId with rfl | hne
    · obtain ⟨rest, hout, hview⟩ := view_handle_self cfg sample hb houtputs hfirst
      have hused : (σ.view e.seqId).used := by
        by_contra hu
        obtain ⟨-, -, hnil, -⟩ := (h.seqs e.seqId).unused hu
        rw [hout] at hnil
        cases hnil
      have hroom : (σ.view e.seqId).inRound → 0 < limit ∧ rest.length * cfg.tokenNumPerIter +
          ((σ.view e.seqId).queued ++ greedyTokens cfg sample).length ≤
            (limit - 1) * cfg.tokenNumPerIter := by
        intro hround
        obtain ⟨hpos, hroom⟩ := (h.seqs e.seqId).room hround
        have hle := hsample.tokens.2.1
        rw [hout, List.length_cons, Nat.succ_mul] at hroom
        rw [List.length_append]
        exact ⟨hpos, by omega⟩
      rw [hview]
      cases hlive : σ.live e.seqId with
      | none => exact { unused := fun hu => absurd hused hu, room := hroom, live := by simp }
      | some g =>
        obtain ⟨real, c, hinv⟩ := (h.seqs e.seqId).live g hlive
        have hinv' := hinv.handle hout hsample fun hin' => by
          rcases hin hin' with hin' | ⟨g', hg', hrunning⟩
          · exact .inl hin'
          · rw [hlive] at hg'
            cases hg'
            exact .inr hrunning
        exact .of_live hused rfl hroom hinv'
    · rw [view_handle_of_ne hb houtputs hfirst hne]
      exact (h.seqs s).setInDBatch hin

theorem finish (h : EngineInv cfg limit σ) {i : Nat} {b : OutstandingBatch}
    (hb : σ.outstanding[i]? = some b) (houtputs : b.outputs = []) :
    EngineInv cfg limit (σ.finishBatch i b) where
  tidy := by
    obtain ⟨hfields, -⟩ := finishBatch_eq σ i b
    rw [hfields]
    exact { h.tidy with
      batches := fun b' hb' => h.tidy.batches b' (List.mem_of_mem_eraseIdx hb') }
  seqs s := by
    obtain ⟨hview, hin, hgroup⟩ := view_finish (s := s) hb houtputs
    have hseq := (h.seqs s).setInDBatch fun hp => .inl (hin hp)
    rw [hview]
    rcases hgroup with hsame | ⟨hin', g, l, hg, hg'⟩
    · rw [hsame]
      exact hseq
    · -- only a sequence that has been preempted is marked
      have hrec : (σ.view s).recomputed := by
        obtain ⟨real, c, hinv⟩ := (h.seqs s).live g hg
        by_contra hrec
        exact (hinv.fresh hrec).2.2.1 hin'
      obtain ⟨real, c, hinv⟩ := hseq.live g hg
      rw [hg']
      exact .of_live ((h.seqs s).used hg) rfl (h.seqs s).room
        { hinv.setLayerwise (l := l) (fun hnot => absurd hrec hnot) with }

/-! ## All steps -/

theorem init : EngineInv cfg limit (.init : EngineState HashValue) where
  tidy :=
    { candidates := List.nodup_nil
      scheduled := List.nodup_nil
      disjoint := by simp [EngineState.init]
      batches := by simp [EngineState.init]
      waiting := fun _ => ⟨rfl, rfl⟩
      collecting := fun _ => rfl
      preparing := fun _ => rfl }
  seqs s :=
    { unused := fun _ => by simp [view, EngineState.init, placeOf]
      room := by simp [view, EngineState.init]
      live := by simp [view, EngineState.init] }

/-- **One step.** A safe step keeps the invariant and does not throw. -/
theorem step (hcfg : Coherent cfg limit) (h : EngineInv cfg limit σ) {op : EngineOp HashValue}
    (hsafe : Safe cfg limit σ op) {r : Except Exn (EngineState HashValue)}
    (hexec : σ.exec cfg limit op = some r) : ∃ σ', r = .ok σ' ∧ EngineInv cfg limit σ' := by
  cases op with
  | add g =>
    simp only [exec, Option.ite_none_right_eq_some, Option.some.injEq] at hexec
    obtain ⟨⟨hnew, hs⟩, rfl⟩ := hexec
    exact ⟨_, rfl, h.add hnew hs⟩
  | fetch =>
    simp only [exec, Option.ite_none_right_eq_some, Option.some.injEq] at hexec
    obtain ⟨⟨hphase, hroom⟩, rfl⟩ := hexec
    exact ⟨_, rfl, h.fetch hphase hroom hsafe⟩
  | dequeue s terminated =>
    simp only [exec] at hexec
    cases hg : σ.live s with
    | none => simp [hg] at hexec
    | some g =>
      simp only [hg, Option.ite_none_right_eq_some, Option.some.injEq] at hexec
      obtain ⟨⟨hphase, hcand⟩, rfl⟩ := hexec
      obtain ⟨σ', hok, hinv⟩ := h.dequeue hg hphase hcand terminated
      exact ⟨σ', hok, hinv⟩
  | apply =>
    simp only [exec, Option.ite_none_right_eq_some, Option.some.injEq] at hexec
    obtain ⟨hphase, rfl⟩ := hexec
    exact ⟨_, rfl, h.apply hphase⟩
  | schedule s queue numCachedTokens budget =>
    simp only [exec] at hexec
    cases hg : σ.live s with
    | none => simp [hg] at hexec
    | some g =>
      simp only [hg, Option.ite_none_right_eq_some] at hexec
      obtain ⟨⟨hphase, hcand, hstatus, hcached, -⟩, hexec⟩ := hexec
      rcases h.schedule hcfg hg hphase hcand hstatus hcached fun hlimit => hsafe hlimit g hg with
        hnone | ⟨σ', hok, hinv⟩
      · rw [hnone] at hexec
        cases hexec
      · rw [hok] at hexec
        obtain rfl := Option.some.inj hexec
        exact ⟨σ', rfl, hinv⟩
  | recompute s =>
    simp only [exec] at hexec
    cases hg : σ.live s with
    | none => simp [hg] at hexec
    | some g =>
      simp only [hg, Option.ite_none_right_eq_some, Option.some.injEq] at hexec
      obtain ⟨⟨hphase, hcand, -⟩, rfl⟩ := hexec
      exact ⟨_, rfl, h.preempt hg hphase hcand⟩
  | stopThinking s =>
    simp only [exec] at hexec
    cases hg : σ.live s with
    | none => simp [hg] at hexec
    | some g =>
      simp only [hg, Option.ite_none_right_eq_some, Option.some.injEq] at hexec
      obtain ⟨⟨hphase, hcand, -⟩, rfl⟩ := hexec
      obtain ⟨hstage, hqueued⟩ := hsafe g hg
      exact ⟨_, rfl, h.stopThinking hcfg hg hphase hcand hstage hqueued⟩
  | swapOut s =>
    simp only [exec] at hexec
    cases hg : σ.live s with
    | none => simp [hg] at hexec
    | some g =>
      simp only [hg, Option.ite_none_right_eq_some, Option.some.injEq] at hexec
      obtain ⟨⟨hphase, hcand, hstatus⟩, rfl⟩ := hexec
      exact ⟨_, rfl, h.swapOut hg hphase hcand hstatus⟩
  | issue isPrefillBatch =>
    simp only [exec, Option.ite_none_right_eq_some, Option.some.injEq] at hexec
    obtain ⟨hphase, rfl⟩ := hexec
    exact ⟨_, rfl, h.issue hphase isPrefillBatch⟩
  | prepare =>
    simp only [exec, Option.ite_none_right_eq_some, Option.some.injEq] at hexec
    obtain ⟨hphase, rfl⟩ := hexec
    exact h.prepare hcfg hphase
  | handle i sample =>
    simp only [exec] at hexec
    split at hexec
    · next e others isPrefillBatch lastForwardMode layerwiseNeedUpdate queue hb =>
      simp only [Option.ite_none_right_eq_some, Option.some.injEq] at hexec
      obtain ⟨⟨-, hsample, hfirst⟩, rfl⟩ := hexec
      exact ⟨_, rfl, h.handle hb rfl hsample hfirst⟩
    · cases hexec
  | finish i =>
    simp only [exec] at hexec
    split at hexec
    · next b hb =>
      simp only [Option.ite_none_right_eq_some, Option.some.injEq] at hexec
      obtain ⟨houtputs, rfl⟩ := hexec
      exact ⟨_, rfl, h.finish hb houtputs⟩
    · cases hexec

/-- A safe run keeps the invariant. -/
theorem of_run (hcfg : Coherent cfg limit) (h : EngineRun cfg limit (Safe cfg limit) σ) :
    EngineInv cfg limit σ := by
  induction h with
  | refl => exact init
  | tail _ hstep ih =>
    obtain ⟨op, hsafe, hexec⟩ := hstep
    obtain ⟨σ', hok, hinv⟩ := ih.step hcfg hsafe hexec
    cases hok
    exact hinv

end EngineInv

end

end MindieLLM
