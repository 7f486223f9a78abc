import MindieLLM.BlockManager.PrefixCacheBlockAllocator
import MindieLLM.BlockManager.ObjPool

/-!
# The life of a block id

An id moves between the free list, the blocks that use it and the evictor. The operations of the
allocator are built from a few moves of single ids, `IdStep`; every invariant of the allocator is
proved for the moves and holds of the operations because they are made of them. A ledger is the
allocator's state together with the ids that are in use, each as often as it is used.

## Main definitions

* `Ledger`, `IdStep R`, `IdSteps R`: the moves; `R` restricts giving up the last use of a
  registered id
* `Consistent`: free list, evictor, reference counts, flags and hash map agree with the ledger

## Main results

* `Consistent.idStep`, `Consistent.idSteps`: the moves keep the ledger consistent
* `Consistent.getNumFreeBlock_eq`: the free ids are those not in use
-/

namespace MindieLLM.PrefixCacheBlockAllocator

open Program

variable {HashValue : Type} [DecidableEq HashValue] [PrefixHasher HashValue]

/-! ## Moves -/

section Moves

variable (a : PrefixCacheBlockAllocator HashValue) (b : BlockId)

def setCount (n : RefCount) : PrefixCacheBlockAllocator HashValue :=
  { a with refCounter := a.refCounter.setCount b n }

def setInfo (i : BlockInfo) : PrefixCacheBlockAllocator HashValue :=
  { a with blockComputedAttr := a.blockComputedAttr.updateInfo b fun _ => i }

/-- The free id `b` comes into use. -/
def claimFree (rest : List BlockId) : PrefixCacheBlockAllocator HashValue :=
  { (a.setCount b 1).setInfo b { active := true } with freeBlockIndices := rest }

/-- The id `b` is evicted and comes into use. -/
def claimEvicted (key : HashValue) (e : LRUEvictor HashValue) :
    PrefixCacheBlockAllocator HashValue :=
  { (a.setCount b 1).setInfo b { active := true } with
    evictor := e
    cachedBlocks := Function.update a.cachedBlocks key none }

/-- The id `b` becomes free. -/
def releaseFree : PrefixCacheBlockAllocator HashValue :=
  { (a.setCount b 0).setInfo b {} with freeBlockIndices := a.freeBlockIndices ++ [b] }

/-- The id `b` goes to the evictor. -/
def releaseCached (key : HashValue) (numTokens : Nat) : PrefixCacheBlockAllocator HashValue :=
  { (a.setCount b 0).setInfo b {} with
    evictor := a.evictor.add b key numTokens (a.blockComputedAttr.blockInfos b).lastAccessed }

/-- The id `b` comes back from the evictor with its contents. -/
def revive : PrefixCacheBlockAllocator HashValue :=
  { (a.setCount b 1).setInfo b { active := true, computed := true } with
    evictor := a.evictor.remove b }

/-- The id `b` becomes the one that holds the contents with hash `key`. -/
def register (key : HashValue) : PrefixCacheBlockAllocator HashValue :=
  { a with
    cachedBlocks := Function.update a.cachedBlocks key (some b)
    touchedBlocks := a.touchedBlocks.insert b }

/-- No content is registered for the id. -/
def Unregistered : Prop := ∀ h, a.cachedBlocks h ≠ some b

end Moves

/-- The allocator and the ids in use, each as often as it is used. -/
abbrev Ledger (HashValue : Type) := PrefixCacheBlockAllocator HashValue × Multiset BlockId

/-- The moves of a single id. `R a b` has to hold where the last use of a registered id `b` is
given up. -/
inductive IdStep (R : PrefixCacheBlockAllocator HashValue → BlockId → Prop) :
    Ledger HashValue → Ledger HashValue → Prop
  | claimFree {a own b rest} (hfree : a.freeBlockIndices = b :: rest) :
    IdStep R (a, own) (a.claimFree b rest, b ::ₘ own)
  | claimEvicted {a own b key e} (hfree : a.freeBlockIndices = [])
    (hev : a.evictor.Evicted (key, b) e) :
    IdStep R (a, own) (a.claimEvicted b key e, b ::ₘ own)
  | share {a own b} (hb : b ∈ a.allBlockIndices) (hown : b ∈ own) :
    IdStep R (a, own) (a.setCount b (own.count b + 1), b ::ₘ own)
  | drop {a own b} (hb : b ∈ a.allBlockIndices) (hown : b ∈ own) :
    IdStep R (a, b ::ₘ own) (a.setCount b (own.count b), own)
  | releaseFree {a own b} (hb : b ∈ a.allBlockIndices) (hown : b ∉ own)
    (hreg : a.Unregistered b) :
    IdStep R (a, b ::ₘ own) (a.releaseFree b, own)
  | releaseCached {a own b key numTokens} (hown : b ∉ own) (hreg : a.cachedBlocks key = some b)
    (hR : R a b) :
    IdStep R (a, b ::ₘ own) (a.releaseCached b key numTokens, own)
  | revive {a own b key} (hown : b ∉ own) (hreg : a.cachedBlocks key = some b) :
    IdStep R (a, own) (a.revive b, b ::ₘ own)
  | register {a own b key} (hown : own.count b = 1) (hb : b ∈ a.allBlockIndices)
    (hreg : a.Unregistered b)
    (hkey : a.cachedBlocks key = none) (hvalid : key ≠ invalidHashValue) :
    IdStep R (a, own) (a.register b key, own)
  | note {a own cow rate} :
    IdStep R (a, own) ({ a with cowTracker := cow, hitRateCalculator := rate }, own)

/-- A sequence of moves. -/
abbrev IdSteps (R : PrefixCacheBlockAllocator HashValue → BlockId → Prop) :
    Ledger HashValue → Ledger HashValue → Prop :=
  Relation.ReflTransGen (IdStep R)

/-- The constants of an allocator do not change. -/
theorem IdSteps.const {R : PrefixCacheBlockAllocator HashValue → BlockId → Prop}
    {l l' : Ledger HashValue} (h : IdSteps R l l') :
    l'.1.allBlockIndices = l.1.allBlockIndices ∧ l'.1.blockSize = l.1.blockSize := by
  induction h with
  | refl => exact ⟨rfl, rfl⟩
  | tail _ hstep ih =>
    rw [← ih.1, ← ih.2]
    cases hstep <;> exact ⟨rfl, rfl⟩

/-! ## Consistency -/

/-- The parts of the allocator agree with each other and with the ids in use. -/
structure Consistent (a : PrefixCacheBlockAllocator HashValue) (own : Multiset BlockId) :
    Prop where
  indices : a.allBlockIndices = blockIndices a.beginBlockId a.numBlocks
  begin_nonneg : 0 ≤ a.beginBlockId
  attr_begin : a.blockComputedAttr.beginBlockId = a.beginBlockId
  attr_num : a.blockComputedAttr.numBlocks = a.numBlocks
  refCounts : ∀ b, a.refCounter.refCounts b =
    if b ∈ a.allBlockIndices then some (own.count b : RefCount) else none
  active : ∀ b ∈ a.allBlockIndices, ((a.blockComputedAttr.blockInfos b).active = true ↔ b ∈ own)
  free_nodup : a.freeBlockIndices.Nodup
  free : ∀ b, b ∈ a.freeBlockIndices ↔
    b ∈ a.allBlockIndices ∧ b ∉ own ∧ a.evictor.candidates.lookup b = none
  evictor : ∀ b d, a.evictor.candidates.lookup b = some d →
    b ∈ a.allBlockIndices ∧ b ∉ own ∧ a.cachedBlocks d.prefixHash = some b
  covered : a.evictor.Covered
  cached : ∀ h b, a.cachedBlocks h = some b →
    b ∈ a.allBlockIndices ∧ b ∉ a.freeBlockIndices ∧ h ≠ invalidHashValue
  cached_inj : ∀ h h' b, a.cachedBlocks h = some b → a.cachedBlocks h' = some b → h = h'

omit [DecidableEq HashValue] in
theorem Consistent.new {beginBlockId : BlockId} (hbegin : 0 ≤ beginBlockId)
    (numBlocks blockSize : Nat) :
    Consistent (.new beginBlockId numBlocks blockSize : PrefixCacheBlockAllocator HashValue)
      0 where
  indices := rfl
  begin_nonneg := hbegin
  attr_begin := rfl
  attr_num := rfl
  refCounts := by simp [PrefixCacheBlockAllocator.new, RefCounter.make]
  active := by simp [PrefixCacheBlockAllocator.new, BlockComputedAttr.new]
  free_nodup := nodup_blockIndices _ _
  free := by simp [PrefixCacheBlockAllocator.new, LRUEvictor.new]
  evictor := by simp [PrefixCacheBlockAllocator.new, LRUEvictor.new]
  covered := LRUEvictor.covered_new
  cached := by simp [PrefixCacheBlockAllocator.new]
  cached_inj := by simp [PrefixCacheBlockAllocator.new]

namespace Consistent

variable {a a' : PrefixCacheBlockAllocator HashValue} {own own' : Multiset BlockId} {b : BlockId}
  {R : PrefixCacheBlockAllocator HashValue → BlockId → Prop}

section

omit [DecidableEq HashValue]

theorem valid_iff (h : Consistent a own) :
    a.blockComputedAttr.Valid b ↔ b ∈ a.allBlockIndices := by
  rw [h.indices, mem_blockIndices, BlockComputedAttr.Valid, h.attr_begin, h.attr_num]

theorem ne_invalid (h : Consistent a own) (hb : b ∈ a.allBlockIndices) :
    b ≠ invalidBlockId := by
  rw [h.indices, mem_blockIndices] at hb
  have := h.begin_nonneg
  rintro rfl
  simp only [invalidBlockId] at hb
  lia

/-- Only the count of `b` changes. -/
theorem refCounts_setCount (h : Consistent a own) (hb : b ∈ a.allBlockIndices)
    (hne : ∀ c, c ≠ b → own'.count c = own.count c) {n : RefCount} (hn : n = own'.count b)
    (c : BlockId) :
    (a.refCounter.setCount b n).refCounts c =
      if c ∈ a.allBlockIndices then some (own'.count c : RefCount) else none := by
  by_cases hc : c = b
  · subst hc; simp [hb, hn]
  · rw [RefCounter.setCount_ne _ _ hc, h.refCounts, hne c hc]

/-- Only the flags of `b` change. -/
theorem active_updateInfo (h : Consistent a own) (hne : ∀ c, c ≠ b → (c ∈ own' ↔ c ∈ own))
    {i : BlockInfo} (hi : i.active = true ↔ b ∈ own') (c : BlockId)
    (hc : c ∈ a.allBlockIndices) :
    ((a.blockComputedAttr.updateInfo b fun _ => i).blockInfos c).active = true ↔ c ∈ own' := by
  rw [BlockComputedAttr.updateInfo_blockInfos]
  split
  · rename_i hcb; rw [hcb, hi]
  · rename_i hcb; rw [h.active c hc, hne c hcb]

/-- A registered id is in use or a candidate for eviction. -/
theorem lookup_of_cached (h : Consistent a own) {key : HashValue}
    (hreg : a.cachedBlocks key = some b) (hown : b ∉ own) :
    ∃ d, a.evictor.candidates.lookup b = some d ∧ d.prefixHash = key := by
  obtain ⟨hb, hfree, -⟩ := h.cached key b hreg
  cases hd : a.evictor.candidates.lookup b with
  | none => exact absurd ((h.free b).mpr ⟨hb, hown, hd⟩) hfree
  | some d => exact ⟨d, rfl, h.cached_inj _ _ b (h.evictor b d hd).2.2 hreg⟩

theorem claimFree (h : Consistent a own) {rest : List BlockId}
    (hfree : a.freeBlockIndices = b :: rest) :
    Consistent (a.claimFree b rest) (b ::ₘ own) := by
  obtain ⟨hb, hown, hev⟩ := (h.free b).mp (by simp [hfree])
  have hnodup := h.free_nodup
  rw [hfree, List.nodup_cons] at hnodup
  have hmem (c : BlockId) : c ∈ rest ↔ c ∈ a.freeBlockIndices ∧ c ≠ b := by
    rw [hfree, List.mem_cons]
    constructor
    · exact fun hc => ⟨.inr hc, fun heq => hnodup.1 (heq ▸ hc)⟩
    · exact fun ⟨hc, hne⟩ => hc.resolve_left hne
  refine ⟨h.indices, h.begin_nonneg, h.attr_begin, h.attr_num, ?_, ?_, hnodup.2, ?_, ?_,
    h.covered, ?_, h.cached_inj⟩
  · exact h.refCounts_setCount hb (fun c hc => Multiset.count_cons_of_ne hc _)
      (by simp [Multiset.count_eq_zero.mpr hown])
  · exact h.active_updateInfo (fun c hc => by simp [hc]) (by simp)
  · intro c
    change c ∈ rest ↔ c ∈ a.allBlockIndices ∧ c ∉ b ::ₘ own ∧ _
    rw [hmem, h.free, Multiset.mem_cons]
    tauto
  · intro c d hd
    obtain ⟨h₁, h₂, h₃⟩ := h.evictor c d hd
    refine ⟨h₁, ?_, h₃⟩
    rw [Multiset.mem_cons]
    rintro (rfl | hc)
    · exact absurd (hev.symm.trans hd) (by simp)
    · exact h₂ hc
  · intro key c hc
    obtain ⟨h₁, h₂, h₃⟩ := h.cached key c hc
    exact ⟨h₁, fun hc' => h₂ ((hmem c).mp hc').1, h₃⟩

end

theorem claimEvicted (h : Consistent a own) {key : HashValue} {e : LRUEvictor HashValue}
    (hev : a.evictor.Evicted (key, b) e) :
    Consistent (a.claimEvicted b key e) (b ::ₘ own) := by
  obtain ⟨⟨d, hd, hkey⟩, hcand, hcov⟩ := hev
  obtain ⟨hb, hown, hreg⟩ := h.evictor b d hd
  dsimp only at hkey hcand hd
  rw [← hkey] at hreg
  have hlookup (c : BlockId) (hc : c ≠ b) :
      e.candidates.lookup c = a.evictor.candidates.lookup c := by
    rw [hcand, AList.lookup_erase_ne hc]
  have hb' : e.candidates.lookup b = none := by rw [hcand, AList.lookup_erase]
  refine ⟨h.indices, h.begin_nonneg, h.attr_begin, h.attr_num, ?_, ?_, h.free_nodup, ?_, ?_,
    hcov h.covered, ?_, ?_⟩
  · exact h.refCounts_setCount hb (fun c hc => Multiset.count_cons_of_ne hc _)
      (by simp [Multiset.count_eq_zero.mpr hown])
  · exact h.active_updateInfo (fun c hc => by simp [hc]) (by simp)
  · intro c
    change c ∈ a.freeBlockIndices ↔ c ∈ a.allBlockIndices ∧ c ∉ b ::ₘ own ∧
      e.candidates.lookup c = none
    rw [h.free, Multiset.mem_cons]
    by_cases hc : c = b
    · subst hc; simp [hd]
    · simp [hc, hlookup]
  · intro c d' hd'
    change e.candidates.lookup c = some d' at hd'
    have hc : c ≠ b := by rintro rfl; rw [hb'] at hd'; cases hd'
    rw [hlookup c hc] at hd'
    obtain ⟨h₁, h₂, h₃⟩ := h.evictor c d' hd'
    refine ⟨h₁, by simp [hc, h₂], ?_⟩
    change Function.update a.cachedBlocks key none _ = _
    rw [Function.update_of_ne, h₃]
    rintro rfl
    rw [h₃, Option.some.injEq] at hreg
    exact hc hreg
  · intro key' c hc
    change Function.update a.cachedBlocks key none key' = _ at hc
    rw [Function.update_apply] at hc
    split at hc
    · cases hc
    · exact h.cached key' c hc
  · intro k k' c hk hk'
    change Function.update a.cachedBlocks key none _ = _ at hk hk'
    rw [Function.update_apply] at hk hk'
    split at hk <;> split at hk' <;> first | cases hk | cases hk' | exact h.cached_inj _ _ c hk hk'

section

omit [DecidableEq HashValue]

/-- Counts that stay positive. -/
theorem recount (h : Consistent a own) (hb : b ∈ a.allBlockIndices)
    (hne : ∀ c, c ≠ b → own'.count c = own.count c) (hown : b ∈ own) (hown' : b ∈ own') :
    Consistent (a.setCount b (own'.count b)) own' := by
  have hmem (c : BlockId) : c ∈ own' ↔ c ∈ own := by
    by_cases hc : c = b
    · subst hc; simp [hown, hown']
    · rw [← Multiset.count_pos, ← Multiset.count_pos, hne c hc]
  refine ⟨h.indices, h.begin_nonneg, h.attr_begin, h.attr_num, ?_, ?_, h.free_nodup, ?_, ?_,
    h.covered, h.cached, h.cached_inj⟩
  · exact h.refCounts_setCount hb hne rfl
  · intro c hc
    rw [hmem]
    exact h.active c hc
  · intro c
    rw [hmem]
    exact h.free c
  · intro c d hd
    rw [hmem]
    exact h.evictor c d hd

theorem releaseFree (h : Consistent a (b ::ₘ own)) (hb : b ∈ a.allBlockIndices) (hown : b ∉ own)
    (hreg : a.Unregistered b) : Consistent (a.releaseFree b) own := by
  have hbfree : b ∉ a.freeBlockIndices := fun hc => ((h.free b).mp hc).2.1 (by simp)
  have hlookup : a.evictor.candidates.lookup b = none := by
    cases hd : a.evictor.candidates.lookup b with
    | none => rfl
    | some d => exact absurd (Multiset.mem_cons_self b own) (h.evictor b d hd).2.1
  refine ⟨h.indices, h.begin_nonneg, h.attr_begin, h.attr_num, ?_, ?_, ?_, ?_, ?_, h.covered, ?_,
    h.cached_inj⟩
  · exact h.refCounts_setCount hb (fun c hc => (Multiset.count_cons_of_ne hc _).symm)
      (by simp [Multiset.count_eq_zero.mpr hown])
  · exact h.active_updateInfo (fun c hc => by simp [hc]) (by simp [hown])
  · exact h.free_nodup.append (by simp) (by simpa using hbfree)
  · intro c
    change c ∈ a.freeBlockIndices ++ [b] ↔ c ∈ a.allBlockIndices ∧ c ∉ own ∧
      a.evictor.candidates.lookup c = none
    rw [List.mem_append, List.mem_singleton, h.free, Multiset.mem_cons]
    by_cases hc : c = b
    · subst hc; simp [hb, hown, hlookup]
    · simp [hc]
  · intro c d hd
    obtain ⟨h₁, h₂, h₃⟩ := h.evictor c d hd
    exact ⟨h₁, fun hc => h₂ (Multiset.mem_cons_of_mem hc), h₃⟩
  · intro key c hc
    obtain ⟨h₁, h₂, h₃⟩ := h.cached key c hc
    refine ⟨h₁, ?_, h₃⟩
    change c ∉ a.freeBlockIndices ++ [b]
    simp only [List.mem_append, List.mem_singleton, not_or]
    exact ⟨h₂, fun heq => hreg key (heq ▸ hc)⟩

theorem releaseCached (h : Consistent a (b ::ₘ own)) (hown : b ∉ own) {key : HashValue}
    (hreg : a.cachedBlocks key = some b) (numTokens : Nat) :
    Consistent (a.releaseCached b key numTokens) own := by
  obtain ⟨hb, hbfree, -⟩ := h.cached key b hreg
  refine ⟨h.indices, h.begin_nonneg, h.attr_begin, h.attr_num, ?_, ?_, h.free_nodup, ?_, ?_,
    LRUEvictor.covered_add h.covered _ _ _ _, h.cached, h.cached_inj⟩
  · exact h.refCounts_setCount hb (fun c hc => (Multiset.count_cons_of_ne hc _).symm)
      (by simp [Multiset.count_eq_zero.mpr hown])
  · exact h.active_updateInfo (fun c hc => by simp [hc]) (by simp [hown])
  · intro c
    simp only [PrefixCacheBlockAllocator.releaseCached, LRUEvictor.candidates_add]
    change c ∈ a.freeBlockIndices ↔ c ∈ a.allBlockIndices ∧ _
    by_cases hc : c = b
    · subst hc; simp [hbfree]
    · rw [AList.lookup_insert_ne hc, h.free, Multiset.mem_cons]
      simp [hc]
  · intro c d hd
    simp only [PrefixCacheBlockAllocator.releaseCached, LRUEvictor.candidates_add] at hd
    change c ∈ a.allBlockIndices ∧ c ∉ own ∧ a.cachedBlocks d.prefixHash = some c
    by_cases hc : c = b
    · subst hc
      rw [AList.lookup_insert, Option.some.injEq] at hd
      subst hd
      exact ⟨hb, hown, hreg⟩
    · rw [AList.lookup_insert_ne hc] at hd
      obtain ⟨h₁, h₂, h₃⟩ := h.evictor c d hd
      exact ⟨h₁, fun hc => h₂ (Multiset.mem_cons_of_mem hc), h₃⟩

theorem revive (h : Consistent a own) (hown : b ∉ own) {key : HashValue}
    (hreg : a.cachedBlocks key = some b) : Consistent (a.revive b) (b ::ₘ own) := by
  obtain ⟨hb, hbfree, -⟩ := h.cached key b hreg
  obtain ⟨d, hd, -⟩ := h.lookup_of_cached hreg hown
  refine ⟨h.indices, h.begin_nonneg, h.attr_begin, h.attr_num, ?_, ?_, h.free_nodup, ?_, ?_,
    LRUEvictor.covered_remove h.covered b, h.cached, h.cached_inj⟩
  · exact h.refCounts_setCount hb (fun c hc => Multiset.count_cons_of_ne hc _)
      (by simp [Multiset.count_eq_zero.mpr hown])
  · exact h.active_updateInfo (fun c hc => by simp [hc]) (by simp)
  · intro c
    simp only [PrefixCacheBlockAllocator.revive, LRUEvictor.candidates_remove]
    change c ∈ a.freeBlockIndices ↔ c ∈ a.allBlockIndices ∧ _
    by_cases hc : c = b
    · subst hc; simp [hbfree]
    · rw [AList.lookup_erase_ne hc, h.free, Multiset.mem_cons]
      simp [hc]
  · intro c d' hd'
    simp only [PrefixCacheBlockAllocator.revive, LRUEvictor.candidates_remove] at hd'
    have hc : c ≠ b := by rintro rfl; rw [AList.lookup_erase] at hd'; cases hd'
    rw [AList.lookup_erase_ne hc] at hd'
    obtain ⟨h₁, h₂, h₃⟩ := h.evictor c d' hd'
    exact ⟨h₁, by simp [hc, h₂], h₃⟩

end

theorem register (h : Consistent a own) (hown : b ∈ own) (hb : b ∈ a.allBlockIndices)
    (hreg : a.Unregistered b) {key : HashValue} (hkey : a.cachedBlocks key = none)
    (hvalid : key ≠ invalidHashValue) : Consistent (a.register b key) own := by
  refine ⟨h.indices, h.begin_nonneg, h.attr_begin, h.attr_num, h.refCounts, h.active,
    h.free_nodup, h.free, ?_, h.covered, ?_, ?_⟩
  · intro c d hd
    obtain ⟨h₁, h₂, h₃⟩ := h.evictor c d hd
    refine ⟨h₁, h₂, ?_⟩
    change Function.update a.cachedBlocks key (some b) _ = _
    rw [Function.update_of_ne, h₃]
    rintro rfl
    rw [hkey] at h₃
    cases h₃
  · intro k c hc
    change Function.update a.cachedBlocks key (some b) _ = _ at hc
    rw [Function.update_apply] at hc
    split at hc
    · rename_i hk
      subst hk
      rw [Option.some.injEq] at hc
      subst hc
      exact ⟨hb, fun hfree => ((h.free b).mp hfree).2.1 hown, hvalid⟩
    · exact h.cached k c hc
  · intro k k' c hk hk'
    change Function.update a.cachedBlocks key (some b) _ = _ at hk hk'
    rw [Function.update_apply] at hk hk'
    split at hk <;> split at hk'
    · simp_all
    · rw [Option.some.injEq] at hk
      exact absurd hk' (hk ▸ hreg k')
    · rw [Option.some.injEq] at hk'
      exact absurd hk (hk' ▸ hreg k)
    · exact h.cached_inj _ _ c hk hk'

omit [DecidableEq HashValue] in
/-- Only the counts of managed ids matter. -/
theorem congr (h : Consistent a own)
    (hcount : ∀ b ∈ a.allBlockIndices, own'.count b = own.count b) : Consistent a own' := by
  have hmem : ∀ b ∈ a.allBlockIndices, (b ∈ own' ↔ b ∈ own) := by
    intro b hb
    rw [← Multiset.count_pos, ← Multiset.count_pos, hcount b hb]
  refine ⟨h.indices, h.begin_nonneg, h.attr_begin, h.attr_num, fun b => ?_, fun b hb => ?_,
    h.free_nodup, fun b => ?_, fun b d hd => ?_, h.covered, h.cached, h.cached_inj⟩
  · rw [h.refCounts]
    split
    · rename_i hb
      rw [hcount b hb]
    · rfl
  · rw [hmem b hb]
    exact h.active b hb
  · rw [h.free]
    exact and_congr_right fun hb => by rw [hmem b hb]
  · obtain ⟨hb, hown, hreg⟩ := h.evictor b d hd
    exact ⟨hb, by rwa [hmem b hb], hreg⟩

omit [DecidableEq HashValue] in
/-- The invalid id is not managed. -/
theorem cons_invalid (h : Consistent a own) : Consistent a (invalidBlockId ::ₘ own) :=
  h.congr fun _ hb => Multiset.count_cons_of_ne (h.ne_invalid hb) _

/-- **Consistency.** Every move keeps the ledger consistent. -/
theorem idStep {l l' : Ledger HashValue} (h : Consistent l.1 l.2) (hstep : IdStep R l l') :
    Consistent l'.1 l'.2 := by
  cases hstep with
  | claimFree hfree => exact h.claimFree hfree
  | claimEvicted hfree hev => exact h.claimEvicted hev
  | @share a own b hb hown =>
    have := h.recount hb (fun c hc => Multiset.count_cons_of_ne hc own) hown
      (Multiset.mem_cons_self b own)
    simpa using this
  | @drop a own b hb hown =>
    exact h.recount hb (fun c hc => (Multiset.count_cons_of_ne hc _).symm)
      (Multiset.mem_cons_self b own) hown
  | releaseFree hb hown hreg => exact h.releaseFree hb hown hreg
  | releaseCached hown hreg hR => exact h.releaseCached hown hreg _
  | revive hown hreg => exact h.revive hown hreg
  | register hown hb hreg hkey hvalid =>
    exact h.register (Multiset.count_pos.mp (by rw [hown]; exact Nat.one_pos)) hb hreg hkey hvalid
  | note => exact ⟨h.1, h.2, h.3, h.4, h.5, h.6, h.7, h.8, h.9, h.10, h.11, h.12⟩

theorem idSteps {l l' : Ledger HashValue} (h : Consistent l.1 l.2) (hsteps : IdSteps R l l') :
    Consistent l'.1 l'.2 := by
  induction hsteps with
  | refl => exact h
  | tail _ hstep ih => exact ih.idStep hstep

omit [DecidableEq HashValue] in
/-- The free ids are those that are not in use: they are on the free list or in the evictor. -/
theorem getNumFreeBlock_eq (h : Consistent a own) :
    a.getNumFreeBlock = (a.allBlockIndices.filter (· ∉ own)).length := by
  have hnodup : a.allBlockIndices.Nodup := h.indices ▸ nodup_blockIndices _ _
  have hkeys : a.evictor.getNumblocks = a.evictor.candidates.keys.length := by
    rw [LRUEvictor.getNumblocks, AList.keys, List.keys, List.length_map]
  have hmem (b : BlockId) : b ∈ a.evictor.candidates.keys ↔
      b ∈ a.allBlockIndices ∧ b ∉ own ∧ a.evictor.candidates.lookup b ≠ none := by
    rw [← AList.mem_keys, ← AList.lookup_isSome]
    constructor
    · intro hs
      obtain ⟨d, hd⟩ := Option.isSome_iff_exists.mp hs
      exact ⟨(h.evictor b d hd).1, (h.evictor b d hd).2.1, by simp [hd]⟩
    · exact fun hs => Option.isSome_iff_ne_none.mpr hs.2.2
  rw [getNumFreeBlock, hkeys, ← List.length_append]
  refine (List.perm_of_nodup_nodup_toFinset_eq ?_ (hnodup.filter _) ?_).length_eq
  · refine h.free_nodup.append a.evictor.candidates.keys_nodup fun b hb hb' => ?_
    exact ((hmem b).mp hb').2.2 ((h.free b).mp hb).2.2
  · ext b
    simp only [List.mem_toFinset, List.mem_append, List.mem_filter, hmem, h.free,
      decide_eq_true_eq]
    by_cases hl : a.evictor.candidates.lookup b = none <;> simp [hl]

omit [DecidableEq HashValue] in
/-- A block takes at most one free id. -/
theorem getNumFreeBlock_le {a' : PrefixCacheBlockAllocator HashValue} {b : BlockId}
    (h : Consistent a own) (h' : Consistent a' (b ::ₘ own))
    (hall : a'.allBlockIndices = a.allBlockIndices) :
    a.getNumFreeBlock ≤ a'.getNumFreeBlock + 1 := by
  have hnodup : a.allBlockIndices.Nodup := h.indices ▸ nodup_blockIndices _ _
  have herase : a.allBlockIndices.filter (· ∉ b ::ₘ own) =
      (a.allBlockIndices.filter (· ∉ own)).erase b := by
    rw [(hnodup.filter _).erase_eq_filter, List.filter_filter]
    refine List.filter_congr fun c _ => ?_
    simp only [Multiset.mem_cons, not_or, Bool.decide_and, decide_not]
    rfl
  rw [h.getNumFreeBlock_eq, h'.getNumFreeBlock_eq, hall, herase]
  have := (a.allBlockIndices.filter (· ∉ own)).le_length_erase (a := b)
  omega

end Consistent

end MindieLLM.PrefixCacheBlockAllocator
