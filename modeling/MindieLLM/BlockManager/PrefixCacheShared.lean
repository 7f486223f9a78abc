import MindieLLM.BlockManager.PrefixCacheRuns

/-!
# Ids shared by contents

As long as blocks are only allocated, appended to and freed, a block that carries a registered id
has memoised the hash the id is registered under, and an id that two blocks carry is registered. So
two blocks share an id only if their prefix hashes are equal, and every id can be released when its
last block gives it up.

## Main definitions

* `SharedByContents`: the invariant
* `Op.Plain`: allocating, appending and freeing

## Main results

* `SharedByContents.safeRelease`: every release is safe
* `plainRun_safe`: plain runs are safe
-/

namespace MindieLLM.PrefixCacheBlockAllocator

open Program

variable {HashValue : Type} [PrefixHasher HashValue] [DecidableEq HashValue]
  {R : PrefixCacheBlockAllocator HashValue → BlockId → Prop}

/-- A block that carries a registered id has memoised its hash, and an id two blocks carry is
registered. -/
structure SharedByContents (w : World HashValue (PrefixCacheBlockAllocator HashValue))
    (live : Finset Ptr) : Prop where
  registered : ∀ p ∈ live, ∀ key, w.alloc.cachedBlocks key = some (w.mem.obj p).blockId →
    (w.mem.obj p).cachedPrefixHash = key
  shared : ∀ p ∈ live, ∀ q ∈ live, p ≠ q → (w.mem.obj p).blockId = (w.mem.obj q).blockId →
    (w.mem.obj p).blockId ≠ invalidBlockId →
    ∃ key, w.alloc.cachedBlocks key = some (w.mem.obj p).blockId

namespace SharedByContents

variable {w w' : World HashValue (PrefixCacheBlockAllocator HashValue)} {live others : Finset Ptr}
  {p : Ptr}

omit [PrefixHasher HashValue] [DecidableEq HashValue] in
theorem empty (w : World HashValue (PrefixCacheBlockAllocator HashValue)) :
    SharedByContents w ∅ := ⟨by simp, by simp⟩

omit [DecidableEq HashValue] in
/-- What has been memoised for a block with a registered id is a valid hash. -/
theorem hash_ne_invalid (h : SharedByContents w live) (htidy : Tidy w live) (hp : p ∈ live)
    {key : HashValue} (hreg : w.alloc.cachedBlocks key = some (w.mem.obj p).blockId) :
    (w.mem.obj p).cachedPrefixHash ≠ invalidHashValue := by
  rw [h.registered p hp key hreg]
  exact (htidy.consistent.cached _ _ hreg).2.2

/-- Every block can give up its id. -/
theorem safeRelease (h : SharedByContents w live) (htidy : Tidy w live) (hp : p ∈ live) :
    SafeRelease (fun _ _ => True) w live p := by
  refine fun _ => ⟨fun m' hinv key hreg => ?_, fun _ _ _ _ => trivial⟩
  have hvalid := h.hash_ne_invalid htidy hp hreg
  obtain ⟨hmem, hhash, -⟩ := wp_ok (PrefixCachingBlockObj.wp_prefixHash p w.mem) hinv
  rw [hmem.hash_stable hvalid] at hhash
  exact hvalid hhash.symm

omit [DecidableEq HashValue] in
/-- The blocks that are left alone. -/
theorem frame (h : SharedByContents w live) (htidy : Tidy w live) (hsub : others ⊆ live)
    (hframe : ∀ q ∈ others, SameButHash (w.mem.obj q) (w'.mem.obj q))
    (hstable : ∀ q ∈ others, (w.mem.obj q).cachedPrefixHash ≠ invalidHashValue →
      (w'.mem.obj q).cachedPrefixHash = (w.mem.obj q).cachedPrefixHash)
    (hcached : ∀ key c, c ∈ carried w.mem others → w'.alloc.cachedBlocks key = some c →
      w.alloc.cachedBlocks key = some c)
    (hinvalid : ∀ key, w'.alloc.cachedBlocks key ≠ some invalidBlockId)
    (hkept : ∀ key c, c ∈ carried w.mem others → w.alloc.cachedBlocks key = some c →
      w'.alloc.cachedBlocks key = some c) :
    SharedByContents w' others := by
  have hmem : ∀ q ∈ others, (w.mem.obj q).blockId ≠ invalidBlockId →
      (w.mem.obj q).blockId ∈ carried w.mem others :=
    fun q hq hne => mem_carried.mpr ⟨hne, q, hq, rfl⟩
  refine ⟨fun q hq key hkey => ?_, fun q hq r hr hqr heq hne => ?_⟩
  · rw [(hframe q hq).blockId] at hkey
    have hne : (w.mem.obj q).blockId ≠ invalidBlockId := fun heq => hinvalid key (heq ▸ hkey)
    have hold := hcached key _ (hmem q hq hne) hkey
    rw [hstable q hq (h.hash_ne_invalid htidy (hsub hq) hold)]
    exact h.registered q (hsub hq) key hold
  · rw [(hframe q hq).blockId] at heq hne ⊢
    rw [(hframe r hr).blockId] at heq
    obtain ⟨key, hkey⟩ := h.shared q (hsub hq) r (hsub hr) hqr heq hne
    exact ⟨key, hkept key _ (hmem q hq hne) hkey⟩

omit [PrefixHasher HashValue] [DecidableEq HashValue] in
/-- A block joins the others. -/
theorem insert (h : SharedByContents w' others) (hp : p ∉ others)
    (hreg : ∀ key, w'.alloc.cachedBlocks key = some (w'.mem.obj p).blockId →
      (w'.mem.obj p).cachedPrefixHash = key)
    (hshared : (w'.mem.obj p).blockId ∈ carried w'.mem others →
      ∃ key, w'.alloc.cachedBlocks key = some (w'.mem.obj p).blockId) :
    SharedByContents w' (insert p others) := by
  have hjoin : ∀ q ∈ others, (w'.mem.obj q).blockId = (w'.mem.obj p).blockId →
      (w'.mem.obj p).blockId ≠ invalidBlockId →
      ∃ key, w'.alloc.cachedBlocks key = some (w'.mem.obj p).blockId :=
    fun q hq heq hne => hshared (mem_carried.mpr ⟨hne, q, hq, heq⟩)
  refine ⟨fun q hq => ?_, fun q hq r hr hqr heq hne => ?_⟩
  · rcases Finset.mem_insert.mp hq with rfl | hq
    · exact hreg
    · exact h.registered q hq
  · obtain rfl | hq' := Finset.mem_insert.mp hq <;> obtain rfl | hr' := Finset.mem_insert.mp hr
    · exact absurd rfl hqr
    · exact hjoin r hr' heq.symm hne
    · rw [heq] at hne ⊢
      exact hjoin q hq' heq hne
    · exact h.shared q hq' r hr' hqr heq hne

end SharedByContents

variable {w w' : World HashValue (PrefixCacheBlockAllocator HashValue)} {live : Finset Ptr}
  {p : Ptr}

theorem Appended.shared {tokenIds : List TokenId} {o : BlockObj HashValue}
    (h : SharedByContents w live) (htidy : Tidy w live) (hp : p ∈ live)
    (happ : Appended R w (carried w.mem (live.erase p)) p (w.mem.obj p).blockId tokenIds w' o) :
    SharedByContents w' live := by
  have htidy' := (happ.moved htidy hp).tidy
  have hself : SameButHash o (w'.mem.obj p) := by
    have := happ.mem.obj p
    rwa [Mem.setObj_obj_same] at this
  have hframe : ∀ q ∈ live.erase p, SameButHash (w.mem.obj q) (w'.mem.obj q) := by
    intro q hq
    have := happ.mem.obj q
    rwa [Mem.setObj_obj_ne _ _ (Finset.ne_of_mem_erase hq)] at this
  have hcarried : carried w'.mem (live.erase p) = carried w.mem (live.erase p) :=
    carried_congr fun q hq => (hframe q hq).blockId
  have hothers : SharedByContents w' (live.erase p) := by
    refine h.frame htidy (Finset.erase_subset p live) hframe (fun q hq hvalid => ?_)
      (fun key c hc hk => ?_) (fun key hk => ?_) happ.kept
    · have hne := Finset.ne_of_mem_erase hq
      have := happ.mem.hash_stable (q := q)
      rw [Mem.setObj_obj_ne _ _ hne] at this
      exact this hvalid
    · exact (happ.cached key c hk).resolve_right fun hnew => hnew.2.2 hc
    · exact htidy'.consistent.ne_invalid (htidy'.consistent.cached key _ hk).1 rfl
  rw [← Finset.insert_erase hp]
  refine hothers.insert (Finset.notMem_erase p live) (fun key hkey => ?_) fun hown => ?_
  · rw [hself.blockId] at hkey
    by_cases hhash : (w'.mem.obj p).cachedPrefixHash = invalidHashValue
    · obtain ⟨-, heq | hunreg⟩ := happ.unregistered hhash
      · rcases happ.cached key _ hkey with hold | ⟨rfl, -, -⟩
        · have hvalid := h.hash_ne_invalid htidy hp (heq ▸ hold)
          exact absurd (.memo hvalid) happ.not_hashable
        · rfl
      · exact absurd hkey (hunreg key)
    · exact htidy'.consistent.cached_inj _ _ _ (happ.registered hhash) hkey
  · rw [hself.blockId, hcarried] at hown
    rw [hself.blockId]
    exact ⟨_, happ.registered fun hinv => (happ.unregistered hinv).1 hown⟩

theorem Allocated.shared {tokenIds : List TokenId} {prev : Option Ptr} {extraHash : HashValue}
    {o : BlockObj HashValue} (h : SharedByContents w live) (htidy : Tidy w live)
    (hal : Allocated R w live (carried w.mem live) tokenIds prev extraHash p w' o) :
    SharedByContents w' (insert p live) := by
  have htidy' := (hal.moved htidy).tidy
  have hself := hal.self
  have hframe : ∀ q ∈ live, SameButHash (w.mem.obj q) (w'.mem.obj q) :=
    fun q hq => hal.frame q fun heq => hal.fresh (heq ▸ hq)
  have hcarried : carried w'.mem live = carried w.mem live :=
    carried_congr fun q hq => (hframe q hq).blockId
  have hothers : SharedByContents w' live := by
    refine h.frame htidy (Finset.Subset.refl live) hframe
      (fun q hq => hal.stable q fun heq => hal.fresh (heq ▸ hq)) (fun key c hc hk => ?_)
      (fun key hk => ?_) hal.kept
    · exact (hal.cached key c hk).resolve_right fun hnew => hnew.2.2 hc
    · exact htidy'.consistent.ne_invalid (htidy'.consistent.cached key _ hk).1 rfl
  refine hothers.insert hal.fresh (fun key hkey => ?_) fun hown => ?_
  · rw [hself.blockId] at hkey
    by_cases hhash : (w'.mem.obj p).cachedPrefixHash = invalidHashValue
    · exact absurd hkey ((hal.unregistered hhash).2 key)
    · exact htidy'.consistent.cached_inj _ _ _ (hal.registered hhash) hkey
  · rw [hself.blockId, hcarried] at hown
    rw [hself.blockId]
    exact ⟨_, hal.registered fun hinv => (hal.unregistered hinv).1 hown⟩

/-- The rest of the blocks, when `p` gives up its id. -/
theorem Dropped.shared (h : SharedByContents w live) (htidy : Tidy w live)
    (htidy' : Tidy w' live)
    (hdrop : Dropped R w (carried w.mem (live.erase p)) p (w.mem.obj p).blockId w') :
    SharedByContents w' (live.erase p) := by
  have hne : ∀ q ∈ live.erase p, q ≠ p := fun q hq => Finset.ne_of_mem_erase hq
  refine h.frame htidy (Finset.erase_subset p live) (fun q hq => ?_) (fun q hq hvalid => ?_)
    (fun key c _ hk => hdrop.cached ▸ hk) (fun key hk => ?_) fun key c _ hk => hdrop.cached ▸ hk
  · have := hdrop.mem.obj q
    rwa [Mem.setId, Mem.setObj_obj_ne _ _ (hne q hq)] at this
  · have := hdrop.mem.hash_stable (q := q)
    rw [Mem.setId_hash] at this
    exact this hvalid
  · exact htidy'.consistent.ne_invalid (htidy'.consistent.cached key _ hk).1 rfl

theorem wp_freeBlockId_shared (h : SharedByContents w live) (htidy : Tidy w live) (hp : p ∈ live) :
    wp (freeBlockId p)
      (fun _ w' => Tidy w' live ∧ SharedByContents w' (live.erase p) ∧
        (w'.mem.obj p).blockId = invalidBlockId)
      (fun _ _ => True) w := by
  have hsafe := h.safeRelease htidy hp
  by_cases hid : (w.mem.obj p).blockId = invalidBlockId
  · -- the call throws
    have hcons := htidy.consistent
    refine wp_mono (wp_freeBlockId (R := fun _ _ => True) hcons.cons_invalid.cons_invalid hid
      fun hno => absurd (Multiset.mem_cons_self _ _) hno) ?_ fun _ _ _ => trivial
    rintro _ w' hdrop
    exact absurd rfl (hcons.ne_invalid hdrop.managed)
  · refine wp_mono (wp_and (wp_freeBlockId_moved htidy hp hsafe)
      (wp_freeBlockId (htidy.consistent_cons hp) rfl fun hno => hsafe (.of_notMem hid hno))) ?_
      fun _ _ _ => trivial
    rintro _ w' ⟨⟨hmoved, hid'⟩, hdrop⟩
    exact ⟨hmoved.tidy, hdrop.shared h htidy hmoved.tidy, hid'⟩

theorem wp_free_shared (h : SharedByContents w live) (htidy : Tidy w live) (hp : p ∈ live)
    (keepBlockObj : Bool) :
    wp (free p keepBlockObj)
      (fun _ w' => SharedByContents w' (if keepBlockObj then live else live.erase p))
      (fun _ _ => True) w := by
  unfold free
  rw [wp_bind]
  refine wp_mono (wp_freeBlockId_shared h htidy hp) ?_ fun _ _ _ => trivial
  rintro _ w₁ ⟨htidy₁, hshared, hid⟩
  have hinvalid : ∀ key, w₁.alloc.cachedBlocks key ≠ some invalidBlockId := fun key hk =>
    htidy₁.consistent.ne_invalid (htidy₁.consistent.cached key _ hk).1 rfl
  cases keepBlockObj
  · simp only [Bool.not_false, if_true, Bool.false_eq_true, if_false, freeObj, wp_zoom,
      World.memLens_get, World.memLens_put]
    refine wp_mono (wp_freeObj htidy₁.tracks hp) ?_ fun _ _ _ => trivial
    rintro _ m ⟨hobj, -, -⟩
    have hsame : ∀ q ∈ live.erase p, m.obj q = w₁.mem.obj q := fun q hq => by
      rw [hobj, Function.update_of_ne (Finset.ne_of_mem_erase hq)]
    have htidy' : Tidy w₁ (live.erase p) :=
      ⟨htidy₁.tracks.mono (Finset.erase_subset p live), by
        rw [← carried_erase_invalid hp hid]; exact htidy₁.consistent,
        fun q hq => htidy₁.managed q (Finset.mem_of_mem_erase hq),
        fun q hq => htidy₁.size q (Finset.mem_of_mem_erase hq),
        fun q hq => htidy₁.full q (Finset.mem_of_mem_erase hq)⟩
    exact hshared.frame htidy' (Finset.Subset.refl _)
      (fun q hq => by rw [hsame q hq]; exact .refl _) (fun q hq _ => by rw [hsame q hq])
      (fun _ _ _ hk => hk) hinvalid fun _ _ _ hk => hk
  · simp only [Bool.not_true, Bool.false_eq_true, if_false, wp_pure, if_true]
    rw [← Finset.insert_erase hp]
    refine hshared.insert (Finset.notMem_erase p live) (fun key hk => ?_) fun hown => ?_
    · exact absurd (hid ▸ hk) (hinvalid key)
    · exact absurd (hid ▸ hown) fun hmem => (mem_carried.mp hmem).1 rfl

/-! ## Plain runs -/

/-- Allocating blocks, appending to them and freeing them. -/
def Op.Plain : Op HashValue → Prop
  | .allocateMutableBlock .. => True
  | .allocateImmutableBlock .. => True
  | .allocateImmutableBlocks .. => True
  | .appendTokenIds .. => True
  | .free .. => True
  | _ => False

theorem wp_allocateImmutableBlocks_shared (h : SharedByContents w live) (htidy : Tidy w live)
    (tokenIds : List (List TokenId)) (prev : Option Ptr) (extraHash : HashValue) :
    wp (allocateImmutableBlocks tokenIds prev extraHash)
      (fun ps w' => SharedByContents w' (live ∪ ps.toFinset)) (fun _ _ => True) w := by
  induction tokenIds generalizing w live prev with
  | nil => simpa [allocateImmutableBlocks] using h
  | cons tokens rest ih =>
    unfold allocateImmutableBlocks
    rw [wp_bind]
    refine wp_mono (wp_allocateImmutableBlock (R := fun _ _ => True) htidy.consistent htidy.tracks
      tokens prev extraHash) ?_ fun _ _ _ => trivial
    rintro p w₁ ⟨o, hal⟩
    rw [wp_bind]
    refine wp_mono (ih (hal.shared h htidy) (hal.moved htidy).tidy (some p)) ?_
      fun _ _ _ => trivial
    intro ps w₂ hshared
    rw [wp_pure]
    rwa [Finset.insert_union, ← Finset.union_insert, ← List.toFinset_cons] at hshared

/-- **Step lemma.** A plain call keeps ids shared by contents only. -/
theorem wp_exec_shared {c : Client HashValue} (h : SharedByContents c.world c.live)
    (htidy : Tidy c.world c.live) {op : Op HashValue} (hallowed : op.Allowed c)
    (hplain : op.Plain) :
    wp (op.exec c.live) (fun live' w' => SharedByContents w' live') (fun _ _ => True) c.world := by
  cases op with
  | allocateMutableBlock tokenIds prevBlock extraHash =>
    refine (wp_bind _ _).mpr (wp_mono (wp_allocateMutableBlock (R := fun _ _ => True)
      htidy.consistent htidy.tracks tokenIds prevBlock extraHash) ?_ fun _ _ _ => trivial)
    rintro p w' ⟨o, hal⟩
    exact hal.shared h htidy
  | allocateImmutableBlock tokenIds prevBlock extraHash =>
    refine (wp_bind _ _).mpr (wp_mono (wp_allocateImmutableBlock (R := fun _ _ => True)
      htidy.consistent htidy.tracks tokenIds prevBlock extraHash) ?_ fun _ _ _ => trivial)
    rintro p w' ⟨o, hal⟩
    exact hal.shared h htidy
  | allocateImmutableBlocks tokenIds prevBlock extraHash =>
    exact (wp_bind _ _).mpr (wp_allocateImmutableBlocks_shared h htidy tokenIds prevBlock extraHash)
  | appendTokenIds p tokenIds =>
    refine (wp_bind _ _).mpr (wp_mono (wp_appendTokenIds (R := fun _ _ => True)
      (htidy.consistent_cons hallowed) rfl (fun key hkey => htidy.full p hallowed key hkey)
      tokenIds) ?_ fun _ _ _ => trivial)
    rintro _ w' ⟨o, happ⟩
    exact happ.shared h htidy hallowed
  | free p keepBlockObj => exact (wp_bind _ _).mpr (wp_free_shared h htidy hallowed keepBlockObj)
  | _ => exact hplain.elim

/-- **Run lemma.** In a plain run every id can be released when it is given up. -/
theorem plainRun_safe {c c' : Client HashValue} {ops : List (Op HashValue)}
    (h : SharedByContents c.world c.live) (htidy : Tidy c.world c.live)
    (hplain : ∀ op ∈ ops, op.Plain) (hrun : run c ops = some c') :
    Tidy c'.world c'.live ∧ SharedByContents c'.world c'.live ∧
      c'.world.alloc.allBlockIndices = c.world.alloc.allBlockIndices := by
  induction ops generalizing c with
  | nil =>
    obtain rfl := Option.some.inj hrun
    exact ⟨htidy, h, rfl⟩
  | cons op ops ih =>
    obtain ⟨c₁, hstep, hrest⟩ := Option.bind_eq_some_iff.mp hrun
    have hop := hplain op (by simp)
    have hstep' := hstep
    unfold step at hstep
    split at hstep
    swap
    · cases hstep
    rename_i hallowed
    cases hexec : op.exec c.live c.world with
    | error e w => rw [hexec] at hstep; cases hstep
    | ok live w =>
      rw [hexec] at hstep
      obtain rfl := Option.some.inj hstep
      have hsafe : op.Safe (fun _ _ => True) c := by
        cases op with
        | free p keepBlockObj => exact h.safeRelease htidy hallowed
        | swapOut blocks => exact hop.elim
        | _ => trivial
      have hshared := wp_ok (wp_exec_shared h htidy hallowed hop) hexec
      obtain ⟨htidy', hshared', hall⟩ := ih hshared (step_tidy htidy hsafe hstep')
        (fun o ho => hplain o (by simp [ho])) hrest
      exact ⟨htidy', hshared', hall.trans (step_allBlockIndices htidy hsafe hstep')⟩

end MindieLLM.PrefixCacheBlockAllocator
