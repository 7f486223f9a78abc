import MindieLLM.BlockManager.PrefixHash
import Mathlib.Data.Finset.Card

/-!
# Ownership of block objects

A caller owns the objects it has taken from the pool and not given back. `Tracks pool used` is
the discipline the allocators keep: an owned object is not on the stack of free ones.

## Main results

* `wp_acquireObj`: an acquired object was owned by nobody
* `wp_freeObj`: an owned object can always be given back
* `carried_insert`, `carried_congr`: the block ids the owned objects carry
-/

namespace MindieLLM

open Program

variable {HashValue : Type}

/-- The objects in `used` are in use: created, and not on the stack. -/
structure ObjPool.Tracks (pool : ObjPool) (used : Finset Ptr) : Prop where
  nodup : pool.stack.Nodup
  notMem : ∀ p ∈ used, p ∉ pool.stack
  stack_lt : ∀ p ∈ pool.stack, p < pool.poolSize
  used_lt : ∀ p ∈ used, p < pool.poolSize

namespace ObjPool.Tracks

variable {pool : ObjPool} {used : Finset Ptr}

theorem new [PrefixHasher HashValue] (poolSize : Nat) :
    (Mem.new poolSize : Mem HashValue).pool.Tracks ∅ where
  nodup := List.nodup_reverse.mpr List.nodup_range
  notMem := by simp
  stack_lt := by simp [Mem.new]
  used_lt := by simp

theorem mono (h : pool.Tracks used) {used' : Finset Ptr} (hsub : used' ⊆ used) :
    pool.Tracks used' where
  nodup := h.nodup
  notMem p hp := h.notMem p (hsub hp)
  stack_lt := h.stack_lt
  used_lt p hp := h.used_lt p (hsub hp)

theorem length_lt (h : pool.Tracks used) {p : Ptr} (hp : p ∈ used) :
    pool.stack.length < pool.poolSize := by
  have hnodup : (p :: pool.stack).Nodup := List.nodup_cons.mpr ⟨h.notMem p hp, h.nodup⟩
  have hsub : (p :: pool.stack).toFinset ⊆ Finset.range pool.poolSize := by
    intro q hq
    rw [List.mem_toFinset, List.mem_cons] at hq
    rw [Finset.mem_range]
    rcases hq with rfl | hq
    · exact h.used_lt q hp
    · exact h.stack_lt q hq
  have := Finset.card_le_card hsub
  rw [List.toFinset_card_of_nodup hnodup, Finset.card_range, List.length_cons] at this
  lia

end ObjPool.Tracks

theorem wp_acquireObj {m : Mem HashValue} {used : Finset Ptr} (h : m.pool.Tracks used) :
    wp acquireObj
      (fun p m' => p ∉ used ∧ m'.obj = m.obj ∧ m'.pool.Tracks (insert p used) ∧
        m.pool.poolSize ≤ m'.pool.poolSize ∧ ∀ q, m.pool.stack.head? = some q → p = q)
      (fun _ _ => m.pool.poolSize = 0) m := by
  unfold acquireObj
  rw [wp_bind, wp_get]
  cases hs : m.pool.stack with
  | cons p rest =>
    simp only [wp_bind, wp_set, wp_pure]
    have hnodup := h.nodup
    rw [hs, List.nodup_cons] at hnodup
    have hp : p ∉ used := fun hp => h.notMem p hp (by simp [hs])
    refine ⟨hp, trivial, ⟨hnodup.2, ?_, ?_, ?_⟩, le_rfl, by simp⟩
    · intro q hq
      rcases Finset.mem_insert.mp hq with rfl | hq
      · exact hnodup.1
      · exact fun hr => h.notMem q hq (by simp [hs, hr])
    · exact fun q hq => h.stack_lt q (by simp [hs, hq])
    · intro q hq
      rcases Finset.mem_insert.mp hq with rfl | hq
      · exact h.stack_lt q (by simp [hs])
      · exact h.used_lt q hq
  | nil =>
    generalize hn : m.pool.poolSize = n
    cases hr : (List.range' n n).reverse with
    | nil =>
      simp only [List.reverse_eq_nil_iff, List.range'_eq_nil_iff] at hr
      simp [hr]
    | cons p rest =>
      have hmem : ∀ q ∈ p :: rest, n ≤ q ∧ q < 2 * n := by
        intro q hq
        rw [← hr, List.mem_reverse, List.mem_range'_1] at hq
        lia
      have hnodup : (p :: rest).Nodup := by
        rw [← hr]
        exact List.nodup_reverse.mpr List.nodup_range'
      rw [List.nodup_cons] at hnodup
      have hused : ∀ q ∈ used, q < n := fun q hq => hn ▸ h.used_lt q hq
      simp only [hr, wp_bind, wp_set, wp_pure]
      refine ⟨?_, trivial, ⟨hnodup.2, ?_, ?_, ?_⟩, by lia, by simp⟩
      · intro hp
        have := hused p hp
        have := (hmem p (by simp)).1
        lia
      · intro q hq hr'
        rcases Finset.mem_insert.mp hq with rfl | hq
        · exact hnodup.1 hr'
        · have := hused q hq
          have := (hmem q (by simp [hr'])).1
          lia
      · exact fun q hq => (hmem q (by simp [hq])).2
      · intro q hq
        rcases Finset.mem_insert.mp hq with rfl | hq
        · exact (hmem q (by simp)).2
        · have := hused q hq
          lia

theorem wp_freeObj {reset : BlockObj HashValue → BlockObj HashValue} {m : Mem HashValue}
    {used : Finset Ptr} {p : Ptr} (h : m.pool.Tracks used) (hp : p ∈ used) :
    wp (freeObj reset p)
      (fun _ m' => m'.obj = Function.update m.obj p (reset (m.obj p)) ∧
        m'.pool = { m.pool with stack := p :: m.pool.stack } ∧ m'.pool.Tracks (used.erase p))
      (fun _ _ => False) m := by
  unfold freeObj
  have hlen := h.length_lt hp
  simp only [wp_bind, wp_get]
  rw [wp_ite]
  refine ⟨fun heq => by lia, fun _ => ?_⟩
  simp only [wp_bind, wp_zoom, wp_modify, Mem.objAt_get, Mem.objAt_put, Mem.setObj_pool]
  refine ⟨rfl, trivial, ⟨List.nodup_cons.mpr ⟨h.notMem p hp, h.nodup⟩, ?_, ?_, ?_⟩⟩
  · intro q hq
    rw [Finset.mem_erase] at hq
    simpa [hq.1] using h.notMem q hq.2
  · intro q hq
    rcases List.mem_cons.mp hq with rfl | hq
    · exact h.used_lt q hp
    · exact h.stack_lt q hq
  · exact fun q hq => h.used_lt q (Finset.mem_of_mem_erase hq)

theorem ObjPool.Tracks.card_le {pool : ObjPool} {used : Finset Ptr} (h : pool.Tracks used) :
    used.card ≤ pool.poolSize := by
  have hsub : used ⊆ Finset.range pool.poolSize :=
    fun p hp => Finset.mem_range.mpr (h.used_lt p hp)
  simpa using Finset.card_le_card hsub

/-! ## Chains of objects in use -/

/-- The chain of `p` consists of at most `n` objects in use. -/
def ChainWithin (m : Mem HashValue) (used : Finset Ptr) : Ptr → Nat → Prop
  | _, 0 => False
  | p, n + 1 => p ∈ used ∧ ∀ q, (m.obj p).prevBlock = some q → ChainWithin m used q n

/-- The chain starting at `prev` consists of objects in use. -/
def PrevWithin (m : Mem HashValue) (used : Finset Ptr) (prev : Option Ptr) : Prop :=
  ∀ q, prev = some q → ∃ n ≤ used.card, ChainWithin m used q n

theorem ChainWithin.chainEnds {m m' : Mem HashValue} {used : Finset Ptr} {p : Ptr} {n n' : Nat}
    (h : ChainWithin m used p n) (hle : n ≤ n')
    (hprev : ∀ q ∈ used, (m'.obj q).prevBlock = (m.obj q).prevBlock) : ChainEnds m' p n' := by
  induction n generalizing p n' with
  | zero => exact h.elim
  | succ n ih =>
    obtain ⟨k, rfl⟩ : ∃ k, n' = k + 1 := ⟨n' - 1, by omega⟩
    intro q hq
    rw [hprev p h.1] at hq
    exact ih (h.2 q hq) (by omega)

theorem ChainWithin.mem {m : Mem HashValue} {used : Finset Ptr} {p : Ptr} {n : Nat}
    (h : ChainWithin m used p n) : p ∈ used := by
  cases n with
  | zero => exact h.elim
  | succ n => exact h.1

theorem ChainWithin.prev {m : Mem HashValue} {used : Finset Ptr} {p q : Ptr} {n : Nat}
    (h : ChainWithin m used p n) (hq : (m.obj p).prevBlock = some q) :
    ∃ k, ChainWithin m used q k := by
  cases n with
  | zero => exact h.elim
  | succ n => exact ⟨n, h.2 q hq⟩

/-- The whole chain is in use. -/
theorem ChainWithin.of_onChain {m m' : Mem HashValue} {used : Finset Ptr} {p r : Ptr} {n : Nat}
    (h : ChainWithin m used p n)
    (hprev : ∀ q ∈ used, (m'.obj q).prevBlock = (m.obj q).prevBlock) (hr : OnChain m' p r) :
    ∃ k, ChainWithin m used r k := by
  induction hr with
  | refl => exact ⟨n, h⟩
  | prev _ hq ih =>
    obtain ⟨k, hk⟩ := ih
    rw [hprev _ hk.mem] at hq
    exact hk.prev hq

theorem ChainWithin.congr {m m' : Mem HashValue} {used used' : Finset Ptr} {p : Ptr} {n : Nat}
    (h : ChainWithin m used p n) (hsub : used ⊆ used')
    (hprev : ∀ q ∈ used, (m'.obj q).prevBlock = (m.obj q).prevBlock) :
    ChainWithin m' used' p n := by
  induction n generalizing p with
  | zero => exact h
  | succ n ih =>
    refine ⟨hsub h.1, fun r hr => ?_⟩
    rw [hprev p h.1] at hr
    exact ih (h.2 r hr)

theorem PrevWithin.congr {m m' : Mem HashValue} {used used' : Finset Ptr} {prev : Option Ptr}
    (h : PrevWithin m used prev) (hsub : used ⊆ used')
    (hprev : ∀ q ∈ used, (m'.obj q).prevBlock = (m.obj q).prevBlock) :
    PrevWithin m' used' prev := by
  intro q hq
  obtain ⟨n, hn, hchain⟩ := h q hq
  exact ⟨n, hn.trans (Finset.card_le_card hsub), hchain.congr hsub hprev⟩

/-! ## The ids that objects carry -/

/-- The block ids carried by the objects in use, with multiplicity. A block that is swapped out
carries none. -/
def carried (m : Mem HashValue) (used : Finset Ptr) : Multiset BlockId :=
  (used.val.map fun p => (m.obj p).blockId).filter (· ≠ invalidBlockId)

theorem carried_insert {m : Mem HashValue} {used : Finset Ptr} {p : Ptr} (hp : p ∉ used)
    (hid : (m.obj p).blockId ≠ invalidBlockId) :
    carried m (insert p used) = (m.obj p).blockId ::ₘ carried m used := by
  rw [carried, Finset.insert_val_of_notMem hp, Multiset.map_cons,
    Multiset.filter_cons_of_pos (p := (· ≠ invalidBlockId)) _ hid]
  rfl

theorem carried_insert_invalid {m : Mem HashValue} {used : Finset Ptr} {p : Ptr} (hp : p ∉ used)
    (hid : (m.obj p).blockId = invalidBlockId) :
    carried m (insert p used) = carried m used := by
  rw [carried, Finset.insert_val_of_notMem hp, Multiset.map_cons,
    Multiset.filter_cons_of_neg (p := (· ≠ invalidBlockId)) _ (not_not.mpr hid)]
  rfl

theorem carried_erase {m : Mem HashValue} {used : Finset Ptr} {p : Ptr} (hp : p ∈ used)
    (hid : (m.obj p).blockId ≠ invalidBlockId) :
    carried m used = (m.obj p).blockId ::ₘ carried m (used.erase p) := by
  rw [← carried_insert (Finset.notMem_erase p used) hid, Finset.insert_erase hp]

theorem carried_erase_invalid {m : Mem HashValue} {used : Finset Ptr} {p : Ptr} (hp : p ∈ used)
    (hid : (m.obj p).blockId = invalidBlockId) :
    carried m used = carried m (used.erase p) := by
  rw [← carried_insert_invalid (Finset.notMem_erase p used) hid, Finset.insert_erase hp]

theorem carried_congr {m m' : Mem HashValue} {used : Finset Ptr}
    (h : ∀ p ∈ used, (m'.obj p).blockId = (m.obj p).blockId) :
    carried m' used = carried m used :=
  congrArg _ (Multiset.map_congr rfl h)

theorem mem_carried {m : Mem HashValue} {used : Finset Ptr} {b : BlockId} :
    b ∈ carried m used ↔ b ≠ invalidBlockId ∧ ∃ p ∈ used, (m.obj p).blockId = b := by
  simp [carried, and_comm]

theorem count_carried {m : Mem HashValue} {used : Finset Ptr} {b : BlockId}
    (hb : b ≠ invalidBlockId) :
    (carried m used).count b = (used.filter fun p => (m.obj p).blockId = b).card := by
  rw [carried, Multiset.count_filter_of_pos (p := (· ≠ invalidBlockId)) hb, Multiset.count_map]
  simp only [eq_comm (a := b)]
  rfl

end MindieLLM
