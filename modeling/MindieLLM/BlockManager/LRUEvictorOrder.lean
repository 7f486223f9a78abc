import MindieLLM.BlockManager.LRUEvictorRuns

/-!
# In which order the evictor evicts

The queue of the evictor compares access times up to a tolerance, and the entries that a removed
candidate has left in it are told from the others by comparing times up to another tolerance. So the
first entry that seems to belong to a candidate need not be the entry of the oldest one.

## Main definitions

* `Older d d'`: by exact times and then by tokens, `d` is to be evicted before `d'`
* `EvictsOldest e`: eviction takes the oldest candidate, by its own entry
* `InOrder e`: the tolerances make no difference for the entries of the queue

## Main results

* `evictsOldest_of_run`: in a run without updates, an evictor in order evicts the oldest candidate
* `not_evictsOldest`: a candidate that was removed and added again goes before an older one
-/

namespace MindieLLM

open Program PriorityQueue

variable {HashValue : Type}

/-- By exact times, and among equal times by the number of tokens, `d` goes before `d'`. -/
def BlockMetaData.Older (d d' : BlockMetaData HashValue) : Prop :=
  d.lastAccessedTime < d'.lastAccessedTime ∨
    d.lastAccessedTime = d'.lastAccessedTime ∧ d'.hashedTokensNum < d.hashedTokensNum

instance (d d' : BlockMetaData HashValue) : Decidable (d.Older d') :=
  inferInstanceAs (Decidable (_ ∨ _))

namespace BlockMetaData

variable {d d' d'' : BlockMetaData HashValue}

theorem Older.asymm (h : d.Older d') : ¬d'.Older d := by
  rintro (h' | ⟨heq, hn⟩)
  · rcases h with h | ⟨heq, -⟩
    · exact lt_asymm h h'
    · exact h'.ne heq.symm
  · rcases h with h | ⟨-, hn'⟩
    · exact h.ne heq.symm
    · exact lt_asymm hn hn'

theorem not_older_trans (h : ¬d'.Older d) (h' : ¬d''.Older d') : ¬d''.Older d := by
  simp only [Older, not_or, not_and, not_lt] at h h' ⊢
  obtain ⟨hle, hn⟩ := h
  obtain ⟨hle', hn'⟩ := h'
  refine ⟨hle.trans hle', fun heq => ?_⟩
  -- equal ends make the middle equal
  have heq' : d'.lastAccessedTime = d.lastAccessedTime :=
    le_antisymm (hle'.trans heq.le) hle
  exact (hn' (heq.trans heq'.symm)).trans (hn heq')

/-- Of two that are as old as each other neither is older. -/
theorem eq_of_not_older (h : ¬d.Older d') (h' : ¬d'.Older d) :
    d.lastAccessedTime = d'.lastAccessedTime ∧ d.hashedTokensNum = d'.hashedTokensNum := by
  simp only [Older, not_or, not_and, not_lt] at h h'
  have htime := le_antisymm h'.1 h.1
  exact ⟨htime, le_antisymm (h.2 htime) (h'.2 htime.symm)⟩

end BlockMetaData

namespace LRUEvictor

variable {e e' : LRUEvictor HashValue} {q : BlockMetaData HashValue}

/-- Eviction takes a candidate that is as old as any, and finds it by an entry with the time and the
tokens that it has now. -/
def EvictsOldest (e : LRUEvictor HashValue) : Prop :=
  ∃ r e' d, evict e = .ok r e' ∧ e.candidates.lookup r.2 = some d ∧
    (∀ b d', e.candidates.lookup b = some d' → ¬d'.Older d) ∧
    ∃ skipped q, e.priorityQueue.Perm (skipped ++ q :: e'.priorityQueue) ∧
      (∀ q' ∈ skipped, ¬e.Usable q') ∧ q.blockId = r.2 ∧
      q.lastAccessedTime = d.lastAccessedTime ∧ q.hashedTokensNum = d.hashedTokensNum

/-- The entries of the queue are compared as their exact times would have it, and no entry that a
candidate has left behind goes before the candidate. -/
structure InOrder (e : LRUEvictor HashValue) : Prop where
  exact : ∀ q ∈ e.priorityQueue, ∀ q' ∈ e.priorityQueue,
    BlockMetaData.lt q q' = true ↔ q'.Older q
  current : ∀ q ∈ e.priorityQueue, ∀ d, e.candidates.lookup q.blockId = some d →
    isClose d.lastAccessedTime q.lastAccessedTime = true → ¬q.Older d

theorem InOrder.weakOrderOn (h : e.InOrder) :
    WeakOrderOn BlockMetaData.lt e.priorityQueue where
  asymm q hq q' hq' hlt := by
    rw [← Bool.not_eq_true, h.exact q' hq' q hq]
    exact ((h.exact q hq q' hq').mp hlt).asymm
  trans q hq q' hq' q'' hq'' hlt hlt' := by
    rw [← Bool.not_eq_true, h.exact _ ‹_› _ ‹_›] at hlt hlt' ⊢
    exact BlockMetaData.not_older_trans hlt hlt'

/-! ## Eviction -/

/-- An evictor in order evicts the oldest candidate. -/
theorem Covered.evictsOldest (hcovered : e.Covered) (horder : e.InOrder)
    (hne : e.candidates.entries ≠ []) : e.EvictsOldest := by
  have husable : ∀ b d, e.candidates.lookup b = some d → d ∈ e.priorityQueue ∧ e.Usable d := by
    intro b d hd
    obtain ⟨hb, hmem⟩ := hcovered b d hd
    exact ⟨hmem, d, hb.symm ▸ hd, isClose_self _⟩
  have hloop := wp_evictLoop _ e rfl
  obtain ⟨⟨b, d⟩, hentry⟩ := List.exists_mem_of_ne_nil _ hne
  have hd := AList.mem_lookup_iff.mpr hentry
  have hevict : evict e = evictLoop e.priorityQueue.length e := by
    rcases e with ⟨⟨_ | ⟨x, xs⟩, hnodup⟩, queue⟩
    · exact absurd rfl hne
    · rfl
  cases hrun : evictLoop e.priorityQueue.length e with
  | error x e' =>
    have hnone := wp_error hloop hrun
    exact absurd (husable b d hd).2 (hnone.2 d (husable b d hd).1)
  | ok r e' =>
    obtain ⟨skipped, q, d, hfound⟩ := wp_ok hloop hrun
    obtain ⟨hperm, hskipped, hq, hd, hclose, -, -, hgreatest⟩ := hfound
    have hmem : q ∈ e.priorityQueue :=
      hperm.symm.subset (List.mem_append_right _ List.mem_cons_self)
    -- a candidate's own entry is not passed over, so it is not older than the entry found
    have hold : ∀ b d', e.candidates.lookup b = some d' → ¬d'.Older q := by
      intro b d' hd'
      obtain ⟨hmem', husable'⟩ := husable b d' hd'
      rw [← horder.exact q hmem d' hmem', Bool.not_eq_true]
      exact hgreatest horder.weakOrderOn d' hmem' fun hskip => hskipped d' hskip husable'
    have hsame := BlockMetaData.eq_of_not_older (horder.current q hmem d (hq.symm ▸ hd) hclose)
      (hold r.2 d hd)
    refine ⟨r, e', d, hevict.trans hrun, hd, fun b d' hd' holder => ?_,
      skipped, q, hperm, hskipped, hq, hsame.1, hsame.2⟩
    refine hold b d' hd' ?_
    rw [BlockMetaData.Older, hsame.1, hsame.2]
    exact holder

/-! ## Runs -/

/-- The call is no `Update`. A `Remove` of an id that is no candidate would change nothing. -/
def EvictorOp.NoUpdate : EvictorOp HashValue → Prop
  | .update _ _ => False
  | _ => True

theorem covered_of_candidates_eq_nil (h : e.candidates.entries = []) : e.Covered := by
  intro b d hd
  have hmem := AList.mem_lookup_iff.mp hd
  rw [h] at hmem
  cases hmem

theorem step_covered (h : e.Covered) (hstep : Step (fun _ op => op.NoUpdate) e e') :
    e'.Covered := by
  obtain ⟨op, -, hop, rfl⟩ := hstep
  cases op with
  | add b prefixHash n t =>
    apply covered_add
    exact h
  | update b t => exact hop.elim
  | remove b =>
    apply covered_remove
    exact h
  | evict =>
    apply after_of_wp (P := Covered)
    refine wp_mono (wp_and (wp_evict e) (wp_evict_took e)) ?_ ?_
    · rintro r e' ⟨⟨-, -, hcovered⟩, -⟩
      exact hcovered h
    · -- it fails only if there is no candidate, and then it changes none
      rintro x e' ⟨hempty, hsame, -⟩
      apply covered_of_candidates_eq_nil
      rw [hsame]
      exact hempty h

theorem run_covered (h : Run (fun _ op => op.NoUpdate) e) : e.Covered := by
  induction h with
  | refl => exact covered_new
  | tail _ hstep ih => exact step_covered ih hstep

/-- **Eviction in order.** In every run of `Add`, `Remove` and `Evict`, an eviction from candidates
in order takes one that was accessed least recently, and among those one with the most tokens, and
finds it by the entry it was last added with and not by one that an earlier `Add` has left. -/
theorem evictsOldest_of_run (hrun : Run (fun _ op => op.NoUpdate) e) (horder : e.InOrder)
    (hne : e.candidates.entries ≠ []) : e.EvictsOldest :=
  (run_covered hrun).evictsOldest horder hne

/-- Two candidates whose times differ, with their own entries only. -/
theorem evictsOldest_two :
    EvictsOldest ((new.add 0 7 10 1).add 1 8 20 2 : LRUEvictor UInt64) := by
  have hadd₀ : Step (fun _ op => op.NoUpdate) (new : LRUEvictor UInt64) (new.add 0 7 10 1) :=
    ⟨.add 0 7 10 1, trivial, trivial, rfl⟩
  have hadd₁ : Step (fun _ op => op.NoUpdate) ((new : LRUEvictor UInt64).add 0 7 10 1)
      ((new.add 0 7 10 1).add 1 8 20 2) :=
    ⟨.add 1 8 20 2, trivial, trivial, rfl⟩
  apply evictsOldest_of_run ((Relation.ReflTransGen.single hadd₀).tail hadd₁)
  · constructor
    · decide +kernel
    · have hcurrent : ∀ q ∈ ((new.add 0 7 10 1).add 1 8 20 2 : LRUEvictor UInt64).priorityQueue,
          ∀ d ∈ ((new.add 0 7 10 1).add 1 8 20 2 : LRUEvictor UInt64).candidates.lookup q.blockId,
            isClose d.lastAccessedTime q.lastAccessedTime = true → ¬q.Older d := by
        decide +kernel
      exact hcurrent
  · decide

/-- Block 0 is removed and added again with fewer tokens. The entry that its first `Add` has left
is the first of the queue, and its time is that of the second `Add`: block 0 is evicted by it,
before block 1, which has more tokens. -/
theorem not_evictsOldest : ∃ e : LRUEvictor UInt64, Run (fun _ op => op.NoUpdate) e ∧
    e.candidates.entries ≠ [] ∧ ¬e.EvictsOldest := by
  have hadd₀ : Step (fun _ op => op.NoUpdate) (new : LRUEvictor UInt64) (new.add 0 7 50 1) :=
    ⟨.add 0 7 50 1, trivial, trivial, rfl⟩
  have hremove : Step (fun _ op => op.NoUpdate) ((new : LRUEvictor UInt64).add 0 7 50 1)
      ((new.add 0 7 50 1).remove 0) :=
    ⟨.remove 0, rfl, trivial, rfl⟩
  have hadd₁ : Step (fun _ op => op.NoUpdate) (((new : LRUEvictor UInt64).add 0 7 50 1).remove 0)
      (((new.add 0 7 50 1).remove 0).add 0 7 10 1) :=
    ⟨.add 0 7 10 1, trivial, trivial, rfl⟩
  have hadd₂ : Step (fun _ op => op.NoUpdate)
      ((((new : LRUEvictor UInt64).add 0 7 50 1).remove 0).add 0 7 10 1)
      ((((new.add 0 7 50 1).remove 0).add 0 7 10 1).add 1 8 20 1) :=
    ⟨.add 1 8 20 1, trivial, trivial, rfl⟩
  refine ⟨_, (((Relation.ReflTransGen.single hadd₀).tail hremove).tail hadd₁).tail hadd₂,
    by decide, ?_⟩
  rintro ⟨r, e', d, hevict, hd, hleast, -⟩
  have hvalue := valueOf_eq_some_iff.mpr ⟨e', hevict⟩
  have hrun : valueOf evict ((((new : LRUEvictor UInt64).add 0 7 50 1).remove 0).add 0 7 10 1
      |>.add 1 8 20 1) = some (7, 0) := by
    decide +kernel
  rw [hrun, Option.some.injEq] at hvalue
  subst hvalue
  have hd₀ : d = ⟨0, 7, 10, 1⟩ := (Option.some.inj hd).symm
  subst hd₀
  apply hleast 1 ⟨1, 8, 20, 1⟩ rfl
  exact .inr ⟨rfl, by decide⟩

end LRUEvictor

end MindieLLM
