import MindieLLM.BlockManager.BlockInfo

/-!
# When the evictor finds its candidates

`Evict` takes elements off the priority queue until one of them belongs to a candidate, which it
recognises by comparing access times. `Update` changes the time of a candidate and leaves the
queue alone. So a candidate can be found as long as the queue holds an element for it whose time
is close enough to its own.

## Main definitions

* `Recorded e b t`: the queue holds an element for `b` with a time close to `t`
* `Findable e`: every candidate is recorded with its own time
* `EvictorOp`, `Step`: the calls of an evictor, in any order

## Main results

* `evict_of_run`: in a run whose updates stay within the tolerance, eviction never fails while
  there is a candidate
* `drains_iff_findable`: evictions empty the evictor exactly if every candidate can be found
-/

namespace MindieLLM.LRUEvictor

open Program

variable {HashValue : Type}

section Runs

variable [TimeComparison]

/-- The queue holds an element for `b` whose time is close to `t`. -/
def Recorded (e : LRUEvictor HashValue) (b : BlockId) (t : TimeStamp) : Prop :=
  ∃ q ∈ e.priorityQueue, q.blockId = b ∧ isClose t q.lastAccessedTime = true

/-- Every candidate can be found from the queue. -/
def Findable (e : LRUEvictor HashValue) : Prop :=
  ∀ b d, e.candidates.lookup b = some d → e.Recorded b d.lastAccessedTime

/-- The eviction of a candidate `r.2` with the stored hash `r.1`. What the queue loses are elements
of `r.2` and elements under which no candidate was to be found. -/
structure Took (e : LRUEvictor HashValue) (r : HashValue × BlockId) (e' : LRUEvictor HashValue) :
    Prop where
  candidate : ∃ d, e.candidates.lookup r.2 = some d ∧ r.1 = d.prefixHash ∧
    e.Recorded r.2 d.lastAccessedTime
  erased : e'.candidates = e.candidates.erase r.2
  queue : ∀ q ∈ e'.priorityQueue, q ∈ e.priorityQueue
  kept : ∀ b d, b ≠ r.2 → e.candidates.lookup b = some d → e.Recorded b d.lastAccessedTime →
    e'.Recorded b d.lastAccessedTime

/-! ## Eviction -/

variable {e e' : LRUEvictor HashValue} {data : BlockMetaData HashValue}
  {rest : List (BlockMetaData HashValue)} {b : BlockId} {t : TimeStamp}

theorem Found.took {r : HashValue × BlockId} {q d : BlockMetaData HashValue}
    {skipped : List (BlockMetaData HashValue)} (h : e.Found r e' skipped q d) : e.Took r e' where
  candidate := ⟨d, h.lookup, h.prefixHash, q, h.queue.symm.subset (by simp), h.blockId, h.close⟩
  erased := h.erased
  queue q' hq' := h.queue.symm.subset (by simp [hq'])
  kept b d' hne hd' hrec := by
    obtain ⟨q', hmem, rfl, hclose⟩ := hrec
    exact ⟨q', h.mem_queue hmem ⟨d', hd', hclose⟩ hne, rfl, hclose⟩

/-- `Evict` fails only if there is no candidate, or if none of them is recorded. -/
theorem wp_evict_took (e : LRUEvictor HashValue) :
    wp evict e.Took
      (fun _ e' => e'.candidates = e.candidates ∧ (e.candidates.entries = [] → e' = e) ∧
        ∀ b d, e.candidates.lookup b = some d → ¬e.Recorded b d.lastAccessedTime) e := by
  unfold evict
  rw [wp_bind, wp_get]
  cases h : e.candidates.entries with
  | nil =>
    have hnone : ∀ b, e.candidates.lookup b = none := by
      intro b
      rw [AList.lookup_eq_none, AList.mem_keys, AList.keys, h]
      simp
    simp [hnone]
  | cons x xs =>
    simp only [List.isEmpty_cons, Bool.false_eq_true, if_false]
    refine wp_mono (wp_evictLoop _ e rfl) ?_ ?_
    · rintro r e' ⟨skipped, q, d, hfound⟩
      exact hfound.took
    · rintro _ e' ⟨hcand, hnone⟩
      refine ⟨hcand, nofun, ?_⟩
      rintro b d hd ⟨q, hmem, rfl, hclose⟩
      exact hnone q hmem ⟨d, hd, hclose⟩

/-- **Eviction finds a candidate.** If there is one that is recorded, eviction succeeds. -/
theorem Findable.evict_ok (h : e.Findable) (hne : e.candidates.entries ≠ []) :
    ∃ r e', LRUEvictor.evict e = .ok r e' ∧ e.Took r e' := by
  obtain ⟨⟨b, d⟩, hmem⟩ := List.exists_mem_of_ne_nil _ hne
  have hd : e.candidates.lookup b = some d := AList.mem_lookup_iff.mpr hmem
  exact exists_ok
    (wp_mono (wp_evict_took e) (fun _ _ h => h) fun _ _ hf => hf.2.2 b d hd (h b d hd))

theorem Took.findable {r : HashValue × BlockId} (h : e.Took r e') (hf : e.Findable) :
    e'.Findable := by
  intro b d hd
  rw [h.erased] at hd
  have hb : b ≠ r.2 := by
    rintro rfl
    rw [AList.lookup_erase] at hd
    cases hd
  rw [AList.lookup_erase_ne hb] at hd
  exact h.kept b d hb hd (hf b d hd)

/-! ## The other calls -/

theorem findable_new : (new : LRUEvictor HashValue).Findable := by
  intro b d hd
  simp [new] at hd

theorem findable_cleanup (e : LRUEvictor HashValue) (h : ∀ b d,
    e.candidates.lookup b = some d → d.blockId = b) : e.cleanup.Findable := by
  intro b d hd
  refine ⟨d, List.mem_map.mpr ⟨⟨b, d⟩, AList.mem_lookup_iff.mp hd, rfl⟩, h b d hd, isClose_self _⟩

/-- Every candidate is stored under its own id. -/
def Keyed (e : LRUEvictor HashValue) : Prop :=
  ∀ b d, e.candidates.lookup b = some d → d.blockId = b

omit [TimeComparison] in
theorem keyed_insert (h : e.Keyed) (data : BlockMetaData HashValue) (hb : data.blockId = b)
    (queue : List (BlockMetaData HashValue)) : Keyed ⟨e.candidates.insert b data, queue⟩ := by
  intro c d hd
  by_cases hc : c = b
  · subst hc
    rw [AList.lookup_insert, Option.some.injEq] at hd
    rw [← hd, hb]
  · rw [AList.lookup_insert_ne hc] at hd
    exact h c d hd

omit [TimeComparison] in
theorem keyed_erase (h : e.Keyed) (b : BlockId) (queue : List (BlockMetaData HashValue)) :
    Keyed ⟨e.candidates.erase b, queue⟩ := by
  intro c d hd
  have hc : c ≠ b := by
    rintro rfl
    rw [AList.lookup_erase] at hd
    cases hd
  rw [AList.lookup_erase_ne hc] at hd
  exact h c d hd

theorem findable_add (h : e.Findable) (hkeyed : e.Keyed) (b : BlockId) (prefixHash : HashValue)
    (numHashedTokens : Nat) (lastAccessedTime : TimeStamp) :
    (e.add b prefixHash numHashedTokens lastAccessedTime).Findable := by
  simp only [add]
  split
  · apply findable_cleanup
    exact keyed_insert hkeyed ⟨b, prefixHash, numHashedTokens, lastAccessedTime⟩ rfl []
  · intro c d hd
    by_cases hc : c = b
    · subst hc
      rw [AList.lookup_insert, Option.some.injEq] at hd
      subst hd
      exact ⟨_, List.mem_cons_self .., rfl, isClose_self _⟩
    · rw [AList.lookup_insert_ne hc] at hd
      obtain ⟨q, hq, hrec⟩ := h c d hd
      exact ⟨q, List.mem_cons_of_mem _ hq, hrec⟩

theorem findable_remove (h : e.Findable) (b : BlockId) : (e.remove b).Findable := by
  intro c d hd
  have hc : c ≠ b := by
    rintro rfl
    simp [remove] at hd
  rw [remove, AList.lookup_erase_ne hc] at hd
  exact h c d hd

/-- After an update the candidates can be found if the new time is recorded for the block. -/
theorem wp_update_findable (h : e.Findable) (hrec : e.Recorded b t) :
    wp (update b t) (fun _ e' => e'.Findable) (fun _ e' => e' = e) e := by
  unfold update
  rw [wp_bind, wp_get]
  cases hb : e.candidates.lookup b with
  | none => exact rfl
  | some d =>
    intro c d' hd'
    by_cases hc : c = b
    · subst hc
      rw [AList.lookup_insert, Option.some.injEq] at hd'
      subst hd'
      exact hrec
    · rw [AList.lookup_insert_ne hc] at hd'
      exact h c d' hd'

/-! ## Runs -/

/-- The calls of an evictor. -/
inductive EvictorOp (HashValue : Type)
  | add (b : BlockId) (prefixHash : HashValue) (numHashedTokens : Nat)
    (lastAccessedTime : TimeStamp)
  | update (b : BlockId) (lastAccessed : TimeStamp)
  | remove (b : BlockId)
  | evict

/-- The state a call leaves behind, whether it returns or throws. -/
def after {α : Type} (c : EStateM Exn (LRUEvictor HashValue) α) (e : LRUEvictor HashValue) :
    LRUEvictor HashValue :=
  match c e with
  | .ok _ e' => e'
  | .error _ e' => e'

omit [TimeComparison] in
theorem after_of_wp {α : Type} {c : EStateM Exn (LRUEvictor HashValue) α}
    {P : LRUEvictor HashValue → Prop} (h : wp c (fun _ e' => P e') (fun _ e' => P e') e) :
    P (after c e) := by
  unfold wp at h
  unfold after
  cases hc : c e <;> rw [hc] at h <;> exact h

namespace EvictorOp

def exec (e : LRUEvictor HashValue) : EvictorOp HashValue → LRUEvictor HashValue
  | .add b prefixHash n t => e.add b prefixHash n t
  | .update b t => after (LRUEvictor.update b t) e
  | .remove b => e.remove b
  | .evict => after LRUEvictor.evict e

/-- An id has to be a candidate to be updated or removed. -/
def Allowed (e : LRUEvictor HashValue) : EvictorOp HashValue → Prop
  | .update b _ => e.containsBlock b
  | .remove b => e.containsBlock b
  | _ => True

/-- An update leaves the candidate with an element of the queue. -/
def KeepsRecord (e : LRUEvictor HashValue) : EvictorOp HashValue → Prop
  | .update b t => e.Recorded b t
  | _ => True

end EvictorOp

/-- A call that meets the condition `P` and its precondition. -/
def Step (P : LRUEvictor HashValue → EvictorOp HashValue → Prop) (e e' : LRUEvictor HashValue) :
    Prop :=
  ∃ op : EvictorOp HashValue, op.Allowed e ∧ P e op ∧ e' = op.exec e

/-- A sequence of calls from a new evictor. -/
abbrev Run (P : LRUEvictor HashValue → EvictorOp HashValue → Prop) : LRUEvictor HashValue → Prop :=
  Relation.ReflTransGen (Step P) new

/-- A call keeps the candidates under their ids, and findable under its condition. -/
theorem step_findable (h : e.Keyed ∧ e.Findable)
    (hstep : Step (fun e op => op.KeepsRecord e) e e') : e'.Keyed ∧ e'.Findable := by
  obtain ⟨op, -, hrec, rfl⟩ := hstep
  cases op with
  | add b prefixHash n t =>
    refine ⟨?_, findable_add h.2 h.1 b prefixHash n t⟩
    intro c d hd
    rw [EvictorOp.exec, candidates_add] at hd
    exact keyed_insert h.1 ⟨b, prefixHash, n, t⟩ rfl [] c d hd
  | update b t =>
    constructor
    · apply after_of_wp (P := Keyed)
      unfold update
      rw [wp_bind, wp_get]
      cases hb : e.candidates.lookup b with
      | none => exact h.1
      | some d => exact keyed_insert h.1 { d with lastAccessedTime := t } (h.1 b d hb) _
    · exact after_of_wp (wp_mono (wp_update_findable h.2 hrec) (fun _ _ h => h)
        fun _ _ heq => heq ▸ h.2)
  | remove b => exact ⟨keyed_erase h.1 b _, findable_remove h.2 b⟩
  | evict =>
    have hwp : wp evict (fun _ e' => e'.Keyed ∧ e'.Findable) (fun _ e' => e'.Keyed ∧ e'.Findable)
        e := by
      refine wp_mono (wp_evict_took e) (fun r e' htook => ⟨?_, htook.findable h.2⟩) ?_
      · intro c d hd
        rw [htook.erased] at hd
        exact keyed_erase h.1 r.2 [] c d hd
      · rintro _ e' ⟨-, hsame, hnone⟩
        have hempty : e.candidates.entries = [] := by
          refine List.eq_nil_iff_forall_not_mem.mpr ?_
          rintro ⟨b, d⟩ hmem
          have hd : e.candidates.lookup b = some d := AList.mem_lookup_iff.mpr hmem
          exact hnone b d hd (h.2 b d hd)
        exact hsame hempty ▸ h
    exact after_of_wp (P := fun e' => e'.Keyed ∧ e'.Findable) hwp

theorem run_findable (h : Run (fun e op => op.KeepsRecord e) e) : e.Keyed ∧ e.Findable := by
  induction h with
  | refl => exact ⟨by intro b d hd; simp [new] at hd, findable_new⟩
  | tail _ hstep ih => exact step_findable ih hstep

/-! ## Emptying the evictor -/

/-- Evict `n` times. -/
def evictAll : Nat → EStateM Exn (LRUEvictor HashValue) Unit
  | 0 => pure ()
  | n + 1 => do
    let _ ← evict
    evictAll n

/-- Evictions empty the evictor. -/
def Drains (e : LRUEvictor HashValue) : Prop :=
  ∃ e', evictAll e.candidates.entries.length e = .ok () e'

theorem Took.length {r : HashValue × BlockId} (h : e.Took r e') :
    e.candidates.entries.length = e'.candidates.entries.length + 1 := by
  obtain ⟨d, hd, -⟩ := h.candidate
  have hmem : r.2 ∈ e.candidates.keys := by
    rw [← AList.mem_keys, ← AList.lookup_isSome, hd]
    rfl
  have hkeys : (e.candidates.erase r.2).keys = e.candidates.keys.erase r.2 := AList.keys_erase _ _
  have hlen : ∀ s : AList fun _ : BlockId => BlockMetaData HashValue,
      s.keys.length = s.entries.length := fun s => by simp [AList.keys, List.keys]
  rw [h.erased, ← hlen, ← hlen, hkeys, List.length_erase_of_mem hmem]
  have := List.length_pos_of_mem hmem
  omega

/-- A candidate that is not recorded stays. -/
theorem wp_evictAll_lost (n : Nat) {d : BlockMetaData HashValue}
    (hd : e.candidates.lookup b = some d) (hlost : ¬e.Recorded b d.lastAccessedTime) :
    wp (evictAll n)
      (fun _ e' => e'.candidates.lookup b = some d ∧
        e.candidates.entries.length = e'.candidates.entries.length + n)
      (fun _ _ => True) e := by
  induction n generalizing e with
  | zero => exact ⟨hd, rfl⟩
  | succ n ih =>
    unfold evictAll
    rw [wp_bind]
    refine wp_mono (wp_evict_took e) (fun r e' htook => ?_) fun _ _ _ => trivial
    have hb : b ≠ r.2 := by
      rintro rfl
      obtain ⟨d', hd', -, hrec⟩ := htook.candidate
      rw [hd, Option.some.injEq] at hd'
      exact hlost (hd' ▸ hrec)
    have hd' : e'.candidates.lookup b = some d := by
      rw [htook.erased, AList.lookup_erase_ne hb, hd]
    have hlost' : ¬e'.Recorded b d.lastAccessedTime := by
      rintro ⟨q, hq, hrec⟩
      exact hlost ⟨q, htook.queue q hq, hrec⟩
    refine wp_mono (ih hd' hlost') (fun _ e'' h => ⟨h.1, ?_⟩) fun _ _ h => h
    have := htook.length
    omega

theorem Findable.drains (h : e.Findable) : e.Drains := by
  unfold Drains
  generalize hn : e.candidates.entries.length = n
  induction n generalizing e with
  | zero => exact ⟨e, rfl⟩
  | succ n ih =>
    have hne : e.candidates.entries ≠ [] := by
      rw [← List.length_pos_iff]
      omega
    obtain ⟨r, e', hok, htook⟩ := h.evict_ok hne
    have := htook.length
    obtain ⟨e'', hok'⟩ := ih (htook.findable h) (by omega)
    refine ⟨e'', ?_⟩
    change (evict >>= fun _ => evictAll n) e = _
    simp only [bind, EStateM.bind, hok, hok']

/-- Evictions empty the evictor exactly if every candidate can be found from the queue. -/
theorem drains_iff_findable : e.Drains ↔ e.Findable := by
  refine ⟨fun ⟨e', hok⟩ b d hd => ?_, Findable.drains⟩
  by_contra hlost
  have h := wp_ok (wp_evictAll_lost _ hd hlost) hok
  have hempty : e'.candidates.entries = [] := by
    rw [← List.length_eq_zero_iff]
    omega
  have hmem := AList.mem_lookup_iff.mp h.1
  rw [hempty] at hmem
  cases hmem

/-! ## The main result -/

/-- **No candidate is stranded.** In a run whose updates leave the updated candidate an element of
the queue with a close time, eviction never fails while there is a candidate: it returns one, with
its stored hash, and removes it, and the queue is empty only if there is none. An update outside
this condition loses its candidate: evictions no longer empty the evictor. This is so however the
comparison of times rounds. -/
theorem evict_of_run (h : Run (fun e op => op.KeepsRecord e) e) :
    (e.candidates.entries ≠ [] → ∃ r e' d, evict e = .ok r e' ∧
      e.candidates.lookup r.2 = some d ∧ r.1 = d.prefixHash ∧
      e'.candidates = e.candidates.erase r.2) ∧
    (e.priorityQueue = [] → e.candidates.entries = []) ∧
    ∀ b t, e.containsBlock b → ((EvictorOp.exec e (.update b t)).Drains ↔ e.Recorded b t) := by
  obtain ⟨-, hf⟩ := run_findable h
  refine ⟨fun hne => ?_, fun hempty => ?_, fun b t hb => ?_⟩
  · obtain ⟨r, e', hok, htook⟩ := hf.evict_ok hne
    obtain ⟨d, hd, hhash, -⟩ := htook.candidate
    exact ⟨r, e', d, hok, hd, hhash, htook.erased⟩
  · by_contra hne
    obtain ⟨⟨b, d⟩, hmem⟩ := List.exists_mem_of_ne_nil _ hne
    obtain ⟨q, hq, -⟩ := hf b d (AList.mem_lookup_iff.mpr hmem)
    simp [hempty] at hq
  · obtain ⟨d, hd⟩ := Option.isSome_iff_exists.mp hb
    rw [drains_iff_findable]
    constructor
    · intro hf'
      have hwp : wp (update b t) (fun _ e' => e'.priorityQueue = e.priorityQueue ∧
          e'.candidates.lookup b = some { d with lastAccessedTime := t })
          (fun _ _ => False) e := by
        unfold update
        rw [wp_bind, wp_get, hd]
        exact ⟨rfl, AList.lookup_insert _⟩
      obtain ⟨hqueue, hlookup⟩ := after_of_wp (P := fun e' => e'.priorityQueue = e.priorityQueue ∧
        e'.candidates.lookup b = some { d with lastAccessedTime := t })
        (wp_mono hwp (fun _ _ h => h) fun _ _ h => h.elim)
      have hrec := hf' b _ hlookup
      rw [Recorded] at hrec ⊢
      rwa [← hqueue]
    · intro hrec
      exact after_of_wp (wp_mono (wp_update_findable hf hrec) (fun _ _ h => h)
        fun _ _ heq => heq ▸ hf)

end Runs

/-- Two candidates, one of them updated within the tolerance. -/
theorem evict_of_two :
    let e : LRUEvictor UInt64 := EvictorOp.exec ((new.add 0 7 1 10).add 1 8 1 20) (.update 0 10)
    (∃ r e' d, evict e = .ok r e' ∧ e.candidates.lookup r.2 = some d ∧ r.1 = d.prefixHash ∧
      e'.candidates = e.candidates.erase r.2) := by
  intro e
  have hadd₀ : Step (fun e op => op.KeepsRecord e) (new : LRUEvictor UInt64) (new.add 0 7 1 10) :=
    ⟨.add 0 7 1 10, trivial, trivial, rfl⟩
  have hadd₁ : Step (fun e op => op.KeepsRecord e) ((new : LRUEvictor UInt64).add 0 7 1 10)
      ((new.add 0 7 1 10).add 1 8 1 20) :=
    ⟨.add 1 8 1 20, trivial, trivial, rfl⟩
  have hupdate : Step (fun e op => op.KeepsRecord e)
      (((new : LRUEvictor UInt64).add 0 7 1 10).add 1 8 1 20) e :=
    ⟨.update 0 10, rfl, ⟨⟨0, 7, 1, 10⟩, by simp [new, add, lruEvictorCleanupThreshold], rfl,
      isClose_self _⟩, rfl⟩
  have hrun : Run (fun e op => op.KeepsRecord e) e :=
    ((Relation.ReflTransGen.single hadd₀).tail hadd₁).tail hupdate
  exact (evict_of_run hrun).1 (by decide)

/-- A candidate whose time has been updated is stranded: the queue holds its old time only, and
eviction fails although there is a candidate. -/
theorem evict_stranded : ∃ e : LRUEvictor UInt64, Run (fun _ _ => True) e ∧
    e.candidates.entries ≠ [] ∧ ∃ x e', evict e = .error x e' := by
  have hadd : Step (fun _ _ => True) (new : LRUEvictor UInt64) (new.add 0 7 1 10) :=
    ⟨.add 0 7 1 10, trivial, trivial, rfl⟩
  have hupdate : Step (fun _ _ => True) ((new : LRUEvictor UInt64).add 0 7 1 10)
      (EvictorOp.exec (new.add 0 7 1 10) (.update 0 11)) :=
    ⟨.update 0 11, rfl, trivial, rfl⟩
  refine ⟨_, (Relation.ReflTransGen.single hadd).tail hupdate, by decide, ?_⟩
  have hnone : valueOf evict
      (EvictorOp.exec ((new : LRUEvictor UInt64).add 0 7 1 10) (.update 0 11)) = none := by
    decide +kernel
  unfold valueOf at hnone
  cases hrun : evict (EvictorOp.exec ((new : LRUEvictor UInt64).add 0 7 1 10) (.update 0 11)) with
  | ok r e' => rw [hrun] at hnone; cases hnone
  | error x e' => exact ⟨x, e', rfl⟩

end MindieLLM.LRUEvictor
