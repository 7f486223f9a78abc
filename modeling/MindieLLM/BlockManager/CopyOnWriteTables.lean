import MindieLLM.BlockManager.CopyOnWriteAppend
import MindieLLM.BlockManager.CopyOnWriteSwap
import MindieLLM.Program.Reaches

/-!
# Tables that share ids

Sequences have a block table each, over the same hash-less allocators with one rank. Whatever is
done to the tables, the blocks in use are those of the tables, each in one of them, and the
allocators agree with their ids.

## Main definitions

* `Sequences`: the tables and the allocators
* `Action`, `step`: what is done to the tables
* `InOrder`: the blocks in use are those of the tables

## Main results

* `inOrder_of_reaches`: the tables are in order whatever has been done to them
* `idsCounted_of_reaches`: no id is lost, or free while a table has it
-/

namespace MindieLLM

open Program HashLessBlockAllocator

variable {HashValue : Type}

namespace BlockTable

variable {s s' : HashLessTable HashValue} {used : Finset Ptr}

/-- With one rank the blocks of a table are those of rank 0. -/
theorem getBlockObjs_of_one {t : BlockTable} (h : t.rankSize = 1) :
    t.getBlockObjs = t.blockObjs 0 := by
  rw [getBlockObjs, h]
  simp

theorem isAllocated_iff {t : BlockTable} (h : t.rankSize = 1) :
    t.isAllocated = true ↔ t.blockObjs 0 ≠ [] := by
  rw [isAllocated, getBlockObjs_of_one h]
  simp

/-- A table of one rank that lists blocks of rank 0. -/
theorem listing_blockObjs (t : BlockTable) {m : Mem HashValue} (ps : List Ptr)
    (hrank : ∀ p, (m.obj p).rankIdx = 0) : (listing t m ps).blockObjs 0 = ps :=
  List.filter_eq_self.mpr fun p _ => decide_eq_true (hrank p)

/-! ## Prompts -/

section Prompt

/-- A block that joins a chain has an id that the chain does not have. -/
theorem nodup_ids_snoc {w₁ w₂ : Devices HashValue} {prev : Option Ptr} {ps : List Ptr}
    {p : Ptr} (hids : (ps.map fun p => (w₁.mem.obj p).blockId).Nodup)
    (htake : Takes w₁ (used ∪ ps.toFinset) p prev w₂) :
    ((ps ++ [p]).map fun p => (w₂.mem.obj p).blockId).Nodup := by
  have hne : ∀ q ∈ ps, q ≠ p := fun q hq heq =>
    htake.took.fresh (heq ▸ Finset.mem_union_right _ (List.mem_toFinset.mpr hq))
  have hold : ps.map (fun p => (w₂.mem.obj p).blockId) = ps.map fun p => (w₁.mem.obj p).blockId :=
    List.map_congr_left fun q hq => by rw [htake.frame q (hne q hq)]
  rw [List.map_append, hold, List.map_singleton]
  refine List.nodup_append.mpr ⟨hids, List.nodup_singleton _, fun b hb c hc heq => ?_⟩
  obtain ⟨q, hq, rfl⟩ := List.mem_map.mp hb
  rw [List.mem_singleton] at hc
  exact htake.took.alone ⟨q, Finset.mem_union_right _ (List.mem_toFinset.mpr hq), hne q hq,
    heq.trans hc⟩

variable [PrefixHasher HashValue]

theorem wp_allocateBlocksForTokenIds_joins (h : Sound s.world used) (tokenIds : List TokenId)
    (device : DeviceType) (extraHash : HashValue) :
    wp (allocateBlocksForTokenIds tokenIds device extraHash)
      (fun ps s' => s'.table = s.table ∧ Joins s.world used none ps s'.world ∧
        (ps.map fun p => (s'.world.mem.obj p).blockId).Nodup)
      (fun _ _ => True) s := by
  unfold allocateBlocksForTokenIds ofTable
  simp only [wp_bind, wp_get]
  cases chunkTokensForAllocate tokenIds s.table.blockSize with
  | error e => trivial
  | ok blockedTokenIds =>
    simp only [wp_pure]
    have hrest : ∀ (nonFull : List TokenId) (newBlocks : List Ptr) (s₁ : HashLessTable HashValue),
        s₁.table = s.table → Joins s.world used none newBlocks s₁.world →
        (newBlocks.map fun p => (s₁.world.mem.obj p).blockId).Nodup →
        wp (do
            if nonFull.isEmpty then
              return newBlocks
            let block ← onWorld (CpuNpuBlockAllocator.allocateMutableBlock device nonFull
              newBlocks.getLast? extraHash 0)
            return newBlocks ++ [block])
          (fun ps s' => s'.table = s.table ∧ Joins s.world used none ps s'.world ∧
            (ps.map fun p => (s'.world.mem.obj p).blockId).Nodup)
          (fun _ _ => True) s₁ := by
      intro nonFull newBlocks s₁ htable hjoins hids
      refine (wp_ite _ _ _).mpr ⟨fun _ => ⟨htable, hjoins, hids⟩, fun _ => ?_⟩
      rw [wp_bind, wp_zoom]
      refine wp_mono (wp_allocateMutableBlock_takes hjoins.sound nonFull _ extraHash) ?_
        fun _ _ _ => trivial
      intro p w htake
      rw [wp_pure]
      refine ⟨htable, hjoins.append ?_, nodup_ids_snoc hids htake⟩
      rw [Option.or_none]
      exact htake.joins
    refine (wp_ite _ _ _).mpr ⟨fun _ => ?_, fun _ => ?_⟩
    · exact hrest _ [] s rfl (.nil h) List.nodup_nil
    · rw [wp_bind, wp_zoom]
      refine wp_mono (wp_allocateImmutableBlocks_joins h device _ none extraHash) ?_
        fun _ _ _ => trivial
      rintro ps w ⟨hjoins, hids⟩
      exact hrest _ ps ⟨s.table, w⟩ rfl hjoins hids

/-- A prompt gives a table its blocks. -/
theorem wp_allocate_joins (h : Sound s.world used) (hrank : s.table.rankSize = 1)
    (tokenIds : List TokenId) (device : DeviceType) (extraHash : HashValue) :
    wp (allocate tokenIds device extraHash)
      (fun _ s' => s.table.blockObjs 0 = [] ∧ s'.table.rankSize = s.table.rankSize ∧
        s'.table.blockSize = s.table.blockSize ∧
        Joins s.world used none (s'.table.blockObjs 0) s'.world ∧
        ((s'.table.blockObjs 0).map fun p => (s'.world.mem.obj p).blockId).Nodup)
      (fun _ _ => True) s := by
  unfold allocate
  rw [wp_bind, wp_get]
  refine (wp_ite _ _ _).mpr ⟨fun _ => trivial, fun hno => ?_⟩
  rw [isAllocated_iff hrank, not_not] at hno
  rw [wp_bind]
  refine wp_mono (wp_allocateBlocksForTokenIds_joins h tokenIds device extraHash) ?_
    fun _ _ _ => trivial
  rintro ps s₁ ⟨htable, hjoins, hids⟩
  rw [wp_bind]
  refine wp_mono (wp_update ps fun p _ => ?_) ?_ fun _ _ _ => trivial
  · rw [hjoins.sound.rankIdx, htable, hrank]
    exact Nat.one_pos
  rintro _ _ rfl
  rw [modifyTable, wp_modify]
  have hobjs := listing_blockObjs s₁.table ps hjoins.sound.rankIdx
  refine ⟨hno, ?_, ?_, ?_, ?_⟩
  · change s₁.table.rankSize = s.table.rankSize
    rw [htable]
  · change s₁.table.blockSize = s.table.blockSize
    rw [htable]
  · change Joins s.world used none ((listing s₁.table s₁.world.mem ps).blockObjs 0) s₁.world
    rwa [hobjs]
  · change (((listing s₁.table s₁.world.mem ps).blockObjs 0).map _).Nodup
    rwa [hobjs]

end Prompt

/-! ## Other operations -/

section Operations

/-- The tokens of blocks change, but nothing else. -/
structure Retains (s : HashLessTable HashValue) (used : Finset Ptr) (s' : HashLessTable HashValue) :
    Prop where
  sound : Sound s'.world used
  blockObjs : s'.table.blockObjs = s.table.blockObjs
  rankSize : s'.table.rankSize = s.table.rankSize
  blockSize : s'.table.blockSize = s.table.blockSize
  frame : ∀ q, q ∉ s.table.blockObjs 0 → s'.world.mem.obj q = s.world.mem.obj q
  blockId : ∀ q, (s'.world.mem.obj q).blockId = (s.world.mem.obj q).blockId
  prevBlock : ∀ q, (s'.world.mem.obj q).prevBlock = (s.world.mem.obj q).prevBlock

theorem Retains.trans {s₁ s₂ : HashLessTable HashValue} (h : Retains s used s₁)
    (h' : Retains s₁ used s₂) : Retains s used s₂ where
  sound := h'.sound
  blockObjs := h'.blockObjs.trans h.blockObjs
  rankSize := h'.rankSize.trans h.rankSize
  blockSize := h'.blockSize.trans h.blockSize
  frame q hq := (h'.frame q (h.blockObjs ▸ hq)).trans (h.frame q hq)
  blockId q := (h'.blockId q).trans (h.blockId q)
  prevBlock q := (h'.prevBlock q).trans (h.prevBlock q)

theorem Retains.refl (h : Sound s.world used) : Retains s used s :=
  ⟨h, rfl, rfl, rfl, fun _ _ => rfl, fun _ => rfl, fun _ => rfl⟩

variable [PrefixHasher HashValue]

/-- A table that is freed gives all its blocks back. -/
theorem wp_free_leaves (h : Kept (owner s used)) (hrank : s.table.rankSize = 1)
    (hids : ∀ p ∈ s.table.blockObjs 0, (s.world.mem.obj p).blockId ≠ invalidBlockId) :
    wp BlockTable.free
      (fun _ s' => s'.table.blockObjs 0 = [] ∧ s'.table.rankSize = s.table.rankSize ∧
        s'.table.blockSize = s.table.blockSize ∧
        Sound s'.world (used \ (s.table.blockObjs 0).toFinset) ∧
        ∀ p, p ∉ s.table.blockObjs 0 → s'.world.mem.obj p = s.world.mem.obj p)
      (fun _ _ => True) s := by
  have hloop : ∀ (ps : List Ptr) (s₁ : HashLessTable HashValue) (used₁ : Finset Ptr),
      s₁.table = s.table → Sound s₁.world used₁ → ps.Nodup → (∀ p ∈ ps, p ∈ used₁) →
      (∀ p ∈ ps, (s₁.world.mem.obj p).blockId ≠ invalidBlockId) →
      wp (forM ps fun p => onWorld (CpuNpuBlockAllocator.free p))
        (fun _ s' => s'.table = s.table ∧ Sound s'.world (used₁ \ ps.toFinset) ∧
          ∀ p, p ∉ ps → s'.world.mem.obj p = s₁.world.mem.obj p)
        (fun _ _ => True) s₁ := by
    intro ps
    induction ps with
    | nil =>
      intro s₁ used₁ htable hsound _ _ _
      exact ⟨htable, by simpa using hsound, fun _ _ => rfl⟩
    | cons p rest ih =>
      intro s₁ used₁ htable hsound hnodup hsub hvalid
      rw [List.nodup_cons] at hnodup
      rw [wp_forM_cons, wp_zoom]
      refine wp_mono (HashLessBlockAllocator.wp_free_leaves hsound (hsub p List.mem_cons_self)
        (hvalid p List.mem_cons_self)) ?_ fun _ _ _ => trivial
      rintro _ w ⟨hsound₁, hframe⟩
      have hne : ∀ q ∈ rest, q ≠ p := fun q hq heq => hnodup.1 (heq ▸ hq)
      refine wp_mono (ih ⟨s₁.table, w⟩ (used₁.erase p) htable hsound₁ hnodup.2
        (fun q hq => Finset.mem_erase.mpr ⟨hne q hq, hsub q (List.mem_cons_of_mem p hq)⟩)
        fun q hq => ?_) ?_ fun _ _ h => h
      · change (w.mem.obj q).blockId ≠ invalidBlockId
        rw [hframe q (hne q hq)]
        exact hvalid q (List.mem_cons_of_mem p hq)
      · rintro _ s₂ ⟨htable₂, hsound₂, hframe₂⟩
        refine ⟨htable₂, ?_, fun q hq => ?_⟩
        · rwa [List.toFinset_cons, Finset.sdiff_insert, ← Finset.erase_sdiff_comm]
        · rw [List.mem_cons, not_or] at hq
          exact (hframe₂ q hq.2).trans (hframe q hq.1)
  unfold BlockTable.free
  rw [wp_bind, wp_get]
  dsimp only
  rw [wp_bind, getBlockObjs_of_one hrank]
  refine wp_mono (hloop _ s used rfl h.sound h.nodup h.subset hids) ?_ fun _ _ _ => trivial
  rintro _ s₁ ⟨htable, hsound, hframe⟩
  rw [modifyTable, wp_modify]
  refine ⟨rfl, ?_, ?_, hsound, hframe⟩
  · change s₁.table.rankSize = s.table.rankSize
    rw [htable]
  · change s₁.table.blockSize = s.table.blockSize
    rw [htable]

/-- `SwapIn` and `SwapOut` of a table: its blocks are swapped and listed again. -/
def swap (srcDevice dstDevice : DeviceType) :
    TableM HashValue (HashLessBlockAllocator HashValue) Unit := do
  let blocks := (← get).table.getBlockObjs
  let _ ← onWorld (CpuNpuBlockAllocator.swap blocks srcDevice dstDevice)
  update blocks

theorem wp_swap_relabels (h : Kept (owner s used)) (hrank : s.table.rankSize = 1)
    (hids : ∀ p ∈ s.table.blockObjs 0, (s.world.mem.obj p).blockId ≠ invalidBlockId)
    (srcDevice dstDevice : DeviceType) :
    wp (swap srcDevice dstDevice)
      (fun _ s' => s'.table.blockObjs 0 = s.table.blockObjs 0 ∧
        s'.table.rankSize = s.table.rankSize ∧ s'.table.blockSize = s.table.blockSize ∧
        Relabels s.world used (s.table.blockObjs 0) s'.world)
      (fun _ _ => True) s := by
  unfold swap
  rw [wp_bind, wp_get]
  dsimp only
  rw [getBlockObjs_of_one hrank, wp_bind, wp_zoom]
  refine wp_mono (HashLessBlockAllocator.wp_swap_relabels h.sound h.nodup
    (fun p hp => ⟨h.subset p hp, hids p hp⟩) srcDevice dstDevice) ?_ fun _ _ _ => trivial
  intro _ w hrel
  refine wp_mono (wp_update (s := ⟨s.table, w⟩) _ fun p _ => ?_) ?_ fun _ _ _ => trivial
  · change (w.mem.obj p).rankIdx < s.table.rankSize
    rw [hrel.sound.rankIdx, hrank]
    exact Nat.one_pos
  rintro _ _ rfl
  exact ⟨listing_blockObjs s.table _ hrel.sound.rankIdx, rfl, rfl, hrel⟩

theorem wp_replaceLoop_retains (h : Sound s.world used) (slot : ℕ) (newTokenIds : List TokenId) :
    wp (replaceLoop 0 slot newTokenIds) (fun _ s' => Retains s used s') (fun _ _ => True) s := by
  induction newTokenIds generalizing slot s with
  | nil => exact .refl h
  | cons newToken rest ih =>
    unfold replaceLoop
    rw [wp_bind, wp_get, wp_bind]
    refine wp_mono (wp_tokenAt 0 _) ?_ fun _ _ _ => trivial
    rintro _ _ rfl
    refine (wp_ite _ _ _).mpr ⟨fun _ => trivial, fun _ => ?_⟩
    rw [wp_bind]
    refine wp_mono (wp_tokenAt 0 _) ?_ fun _ _ _ => trivial
    rintro _ s₁ rfl
    refine (wp_ite _ _ _).mpr ⟨fun _ => trivial, fun _ => ?_⟩
    cases hblock : (s₁.table.blockObjs 0)[slot / s₁.table.blockSize]? with
    | none => trivial
    | some p =>
      have hp : p ∈ s₁.table.blockObjs 0 := List.mem_of_getElem? hblock
      dsimp only
      simp only [wp_bind, wp_zoom, worldLens_get, worldLens_put, loadBlock, World.memLens_get,
        World.memLens_put, wp_load]
      refine wp_mono (wp_replaceToken_keeps h _ newToken) ?_ fun _ _ _ => trivial
      rintro _ w ⟨hsound, hframe, hid, hprev⟩
      have hretains : ∀ ids, Retains s₁ used ⟨{ s₁.table with blockIds := ids }, w⟩ := by
        intro ids
        refine ⟨hsound, rfl, rfl, rfl, fun q hq => hframe q fun heq => hq (heq ▸ hp),
          fun q => ?_, fun q => ?_⟩
        · by_cases hq : q = p
          · rw [hq, hid]
          · exact congrArg BlockObj.blockId (hframe q hq)
        · by_cases hq : q = p
          · rw [hq, hprev]
          · exact congrArg BlockObj.prevBlock (hframe q hq)
      have hrest : ∀ ids, wp (replaceLoop 0 (slot + 1) rest)
          (fun _ s' => Retains s₁ used s') (fun _ _ => True)
          ⟨{ s₁.table with blockIds := ids }, w⟩ := fun ids =>
        wp_mono (ih (s := ⟨{ s₁.table with blockIds := ids }, w⟩) hsound (slot + 1))
          (fun _ _ h₂ => (hretains ids).trans h₂) fun _ _ h => h
      refine (wp_ite _ _ _).mpr ⟨fun _ => ?_, fun _ => hrest s₁.table.blockIds⟩
      rw [wp_bind]
      refine wp_mono (wp_setBlockId (s := ⟨s₁.table, w⟩) _) ?_ fun _ _ _ => trivial
      rintro _ _ rfl
      exact hrest _

theorem wp_replaceTrailingPlaceHolder_retains (h : Sound s.world used) (tokenIds : List TokenId)
    (trailingPlaceHolderNum replacedPlaceHolderNum : ℕ) :
    wp (replaceTrailingPlaceHolder tokenIds trailingPlaceHolderNum replacedPlaceHolderNum 0)
      (fun _ s' => Retains s used s') (fun _ _ => True) s := by
  unfold replaceTrailingPlaceHolder
  rw [wp_bind]
  refine wp_mono wp_getNumTokenIds ?_ fun _ _ _ => trivial
  rintro n _ rfl
  refine (wp_ite _ _ _).mpr ⟨fun _ => trivial, fun _ => ?_⟩
  refine (wp_ite _ _ _).mpr ⟨fun _ => trivial, fun _ => ?_⟩
  exact (wp_ite _ _ _).mpr ⟨fun _ => trivial, fun _ => wp_replaceLoop_retains h _ _⟩

omit [PrefixHasher HashValue] in
/-- A table of given blocks lists them, and nothing else changes. -/
theorem wp_ofBlockObjs {w : Devices HashValue} (blockSize rankSize : ℕ) (blocks : List Ptr) :
    wp (ofBlockObjs blockSize rankSize blocks)
      (fun t w' => w' = w ∧ t.blockObjs 0 = blocks ∧
        t.blockIds = blocks.map (fun p => (w.mem.obj p).blockId) ∧ t.rankSize = rankSize ∧
        t.blockSize = blockSize)
      (fun _ _ => True) w := by
  have hload : ∀ (blocks : List Ptr) (Q : List (BlockObj HashValue) → Devices HashValue → Prop),
      Q (blocks.map w.mem.obj) w →
      wp (blocks.mapM fun p => onMem (load p)) Q (fun _ _ => True) w := by
    intro blocks
    induction blocks with
    | nil => exact fun _ hQ => hQ
    | cons p rest ih =>
      intro Q hQ
      rw [List.mapM_cons]
      simp only [wp_bind, wp_zoom, World.memLens_get, World.memLens_put, wp_load]
      exact ih _ hQ
  unfold ofBlockObjs
  rw [wp_bind]
  refine hload blocks _ ?_
  refine (wp_ite _ _ _).mpr ⟨fun _ => trivial, fun _ => ?_⟩
  rw [wp_pure]
  refine ⟨rfl, ?_, ?_, rfl, rfl⟩
  · simp only [Function.update_self]
  · simp only [List.map_map, Function.comp_def]

/-- **A fork** is a table of new blocks with the ids and the tokens of the blocks it is a fork
of. -/
theorem wp_fork_joins (h : Kept (owner s used)) (hrank : s.table.rankSize = 1) :
    wp BlockTable.fork
      (fun t s' => s.table.blockObjs 0 ≠ [] ∧ Joins s.world used none (t.blockObjs 0) s'.world ∧
        (t.blockObjs 0).map (cell s'.world.mem) = (s.table.blockObjs 0).map (cell s.world.mem) ∧
        t.blockIds = (t.blockObjs 0).map (fun p => (s'.world.mem.obj p).blockId) ∧
        t.rankSize = 1 ∧ t.blockSize = s.table.blockSize)
      (fun _ _ => True) s := by
  unfold BlockTable.fork
  rw [wp_bind, wp_get]
  refine (wp_ite _ _ _).mpr ⟨fun _ => trivial, fun _ => ?_⟩
  refine (wp_ite _ _ _).mpr ⟨fun _ => trivial, fun _ => ?_⟩
  rcases List.eq_nil_or_concat (s.table.blockObjs 0) with hnil | ⟨ps, p, hps⟩
  · rw [hnil]
    trivial
  · rw [List.concat_eq_append] at hps
    have hlinked := h.linked
    have hsubset := h.subset
    change BlockTable.Linked s.world.mem none (s.table.blockObjs 0) at hlinked
    change ∀ p ∈ s.table.blockObjs 0, p ∈ used at hsubset
    rw [hps] at hlinked hsubset
    rw [hps, List.getLast?_concat]
    dsimp only
    rw [wp_bind, wp_zoom]
    refine wp_mono (HashLessBlockAllocator.wp_fork_joins h.sound hlinked hsubset) ?_
      fun _ _ _ => trivial
    rintro fs w ⟨hjoins, hcells, -⟩
    rw [wp_zoom]
    refine wp_mono (wp_ofBlockObjs _ _ fs) ?_ fun _ _ _ => trivial
    rintro t _ ⟨rfl, rfl, hids, hsize, hblock⟩
    exact ⟨List.concat_ne_nil p ps, hjoins, hcells, hids, hsize.trans hrank, hblock⟩

end Operations

end BlockTable

/-! ## Sequences -/

open BlockTable

/-- Sequences have a table each, over the same allocators. -/
structure Sequences (HashValue : Type) where
  world : Devices HashValue
  tables : ℕ → BlockTable

namespace Sequences

/-- What is done to the tables. -/
inductive Action (HashValue : Type)
  | allocate (i : ℕ) (tokenIds : List TokenId) (device : DeviceType) (extraHash : HashValue)
  | appendTokenIds (i : ℕ) (tokenIds : List TokenId) (extraHash : HashValue)
      (numLookaheadSlots : ℕ)
  | fork (i j : ℕ)
  | free (i : ℕ)
  | swap (i : ℕ) (srcDevice dstDevice : DeviceType)
  | replaceTrailingPlaceHolder (i : ℕ) (tokenIds : List TokenId)
      (trailingPlaceHolderNum replacedPlaceHolderNum : ℕ)

/-- A table is replaced. -/
def setTable (x : Sequences HashValue) (i : ℕ) (t : BlockTable) (w : Devices HashValue) :
    Sequences HashValue :=
  ⟨w, Function.update x.tables i t⟩

/-- An operation of one table that returns. -/
def onTable (x : Sequences HashValue) (i : ℕ)
    (c : TableM HashValue (HashLessBlockAllocator HashValue) Unit) :
    Option (Sequences HashValue) :=
  match c ⟨x.tables i, x.world⟩ with
  | .ok _ s => some (x.setTable i s.table s.world)
  | .error _ _ => none

variable [PrefixHasher HashValue]

/-- What an action does. A fork goes to a table that has no blocks. -/
def step (x : Sequences HashValue) : Action HashValue → Option (Sequences HashValue)
  | .allocate i tokenIds device extraHash =>
    x.onTable i (BlockTable.allocate tokenIds device extraHash)
  | .appendTokenIds i tokenIds extraHash numLookaheadSlots =>
    x.onTable i (BlockTable.appendTokenIds tokenIds extraHash numLookaheadSlots)
  | .fork i j =>
    if (x.tables j).isAllocated then none
    else
      match BlockTable.fork ⟨x.tables i, x.world⟩ with
      | .ok t s => some (x.setTable j t s.world)
      | .error _ _ => none
  | .free i => x.onTable i BlockTable.free
  | .swap i srcDevice dstDevice => x.onTable i (BlockTable.swap srcDevice dstDevice)
  | .replaceTrailingPlaceHolder i tokenIds trailingPlaceHolderNum replacedPlaceHolderNum =>
    x.onTable i (BlockTable.replaceTrailingPlaceHolder tokenIds trailingPlaceHolderNum
      replacedPlaceHolderNum 0)

/-- The blocks in use are those of the tables, each in one of them. -/
structure InOrder (x : Sequences HashValue) (used : Finset Ptr) : Prop where
  kept : ∀ i, Kept (owner ⟨x.tables i, x.world⟩ used)
  mem_used : ∀ p, p ∈ used ↔ ∃ i, p ∈ (x.tables i).blockObjs 0
  disjoint : ∀ i j p, p ∈ (x.tables i).blockObjs 0 → p ∈ (x.tables j).blockObjs 0 → i = j
  ne_invalid : ∀ p ∈ used, (x.world.mem.obj p).blockId ≠ invalidBlockId
  rankSize : ∀ i, (x.tables i).rankSize = 1
  blockSize : ∀ i, 0 < (x.tables i).blockSize

section InOrder

variable {x : Sequences HashValue} {used used' : Finset Ptr} {i : ℕ} {t : BlockTable}
  {w : Devices HashValue}

section

omit [PrefixHasher HashValue]

/-- One table changes, and nothing happens to the blocks of the others. -/
theorem InOrder.setTable (h : InOrder x used) (hkept : Kept (owner ⟨t, w⟩ used'))
    (hnew : ∀ p ∈ t.blockObjs 0, p ∈ used → p ∈ (x.tables i).blockObjs 0)
    (hused : ∀ p, p ∈ used' ↔
      p ∈ t.blockObjs 0 ∨ p ∈ used ∧ p ∉ (x.tables i).blockObjs 0)
    (hframe : ∀ p ∈ used, p ∉ (x.tables i).blockObjs 0 → w.mem.obj p = x.world.mem.obj p)
    (hvalid : ∀ p ∈ t.blockObjs 0, (w.mem.obj p).blockId ≠ invalidBlockId)
    (hrank : t.rankSize = 1) (hsize : 0 < t.blockSize) : InOrder (x.setTable i t w) used' := by
  have hother : ∀ j, j ≠ i → ∀ p ∈ (x.tables j).blockObjs 0,
      p ∈ used ∧ p ∉ (x.tables i).blockObjs 0 := fun j hj p hp =>
    ⟨(h.mem_used p).mpr ⟨j, hp⟩, fun hmem => hj (h.disjoint j i p hp hmem)⟩
  have hself : (x.setTable i t w).tables i = t := Function.update_self ..
  have hne : ∀ j, j ≠ i → (x.setTable i t w).tables j = x.tables j :=
    fun j hj => Function.update_of_ne hj ..
  refine ⟨fun j => ?_, fun p => ?_, fun j k p hj hk => ?_, fun p hp => ?_, fun j => ?_,
    fun j => ?_⟩
  · by_cases hj : j = i
    · rw [hj, hself]
      exact hkept
    · rw [hne j hj]
      exact (h.kept j).congr hkept.sound (fun p hp => (hused p).mpr (.inr (hother j hj p hp)))
        fun p hp => hframe p (hother j hj p hp).1 (hother j hj p hp).2
  · rw [hused]
    constructor
    · rintro (hp | ⟨hp, hno⟩)
      · exact ⟨i, by rwa [hself]⟩
      · obtain ⟨j, hj⟩ := (h.mem_used p).mp hp
        have hji : j ≠ i := fun heq => hno (heq ▸ hj)
        exact ⟨j, by rwa [hne j hji]⟩
    · rintro ⟨j, hj⟩
      by_cases hji : j = i
      · rw [hji, hself] at hj
        exact .inl hj
      · rw [hne j hji] at hj
        exact .inr (hother j hji p hj)
  · by_cases hji : j = i
    · by_cases hki : k = i
      · rw [hji, hki]
      · rw [hji, hself] at hj
        rw [hne k hki] at hk
        obtain ⟨hp, hno⟩ := hother k hki p hk
        exact absurd (hnew p hj hp) hno
    · rw [hne j hji] at hj
      by_cases hki : k = i
      · rw [hki, hself] at hk
        obtain ⟨hp, hno⟩ := hother j hji p hj
        exact absurd (hnew p hk hp) hno
      · rw [hne k hki] at hk
        exact h.disjoint j k p hj hk
  · rcases (hused p).mp hp with hp | ⟨hp, hno⟩
    · exact hvalid p hp
    · change (w.mem.obj p).blockId ≠ invalidBlockId
      rw [hframe p hp hno]
      exact h.ne_invalid p hp
  · by_cases hj : j = i
    · rw [hj, hself, hrank]
    · rw [hne j hj, h.rankSize]
  · by_cases hj : j = i
    · rw [hj, hself]
      exact hsize
    · rw [hne j hj]
      exact h.blockSize j

/-- No two blocks of a table have the same id. -/
theorem InOrder.nodup_ids (h : InOrder x used) (i : ℕ) :
    (((x.tables i).blockObjs 0).map fun p => (x.world.mem.obj p).blockId).Nodup := by
  refine List.Nodup.map_on (fun p hp q hq heq => ?_) (h.kept i).nodup
  by_contra hne
  exact h.ne_invalid q ((h.mem_used q).mpr ⟨i, hq⟩) ((h.kept i).distinct q hq p hp hne heq)

/-- Blocks that are alike have the same ids. -/
theorem nodup_ids_of_cells {m m' : Mem HashValue} {ps qs : List Ptr}
    (hcells : ps.map (cell m) = qs.map (cell m'))
    (hids : (qs.map fun q => (m'.obj q).blockId).Nodup) :
    (ps.map fun p => (m.obj p).blockId).Nodup := by
  have hfst := congrArg (List.map Prod.fst) hcells
  rw [List.map_map, List.map_map] at hfst
  exact hfst ▸ hids

/-- A chain of new blocks comes into a table that has none. -/
theorem InOrder.joins (h : InOrder x used) (hempty : (x.tables i).blockObjs 0 = [])
    (hjoins : Joins x.world used none (t.blockObjs 0) w)
    (hids : ((t.blockObjs 0).map fun p => (w.mem.obj p).blockId).Nodup) (hrank : t.rankSize = 1)
    (hsize : 0 < t.blockSize) :
    InOrder (x.setTable i t w) (used ∪ (t.blockObjs 0).toFinset) := by
  refine h.setTable ⟨hjoins.sound, fun p hp => ?_, hjoins.nodup, hjoins.linked,
    fun p hp q hq hne heq => ?_⟩ (fun p hp hmem => ?_) (fun p => ?_) (fun p hp _ => ?_)
    hjoins.ne_invalid hrank hsize
  · exact Finset.mem_union_right _ (List.mem_toFinset.mpr hp)
  · exact absurd (List.inj_on_of_nodup_map hids hq hp heq) hne
  · exact absurd hmem (hjoins.fresh p hp)
  · rw [Finset.mem_union, List.mem_toFinset, hempty]
    simp [or_comm]
  · exact hjoins.frame p fun hmem => hjoins.fresh p hmem hp

/-- An operation that returns does what it does when it returns. -/
theorem onTable_cases {x' : Sequences HashValue}
    {c : TableM HashValue (HashLessBlockAllocator HashValue) Unit}
    {Q : HashLessTable HashValue → Prop}
    {T : Exn → HashLessTable HashValue → Prop}
    (hc : wp c (fun _ s' => Q s') T ⟨x.tables i, x.world⟩)
    (h : x.onTable i c = some x') : ∃ s', Q s' ∧ x' = x.setTable i s'.table s'.world := by
  unfold onTable at h
  cases hrun : c ⟨x.tables i, x.world⟩ with
  | ok _ s' =>
    rw [hrun] at h
    exact ⟨s', wp_ok hc hrun, (Option.some.inj h).symm⟩
  | error e s' =>
    rw [hrun] at h
    cases h

/-- An append that returns leaves the tables in order. -/
theorem InOrder.returns {s' : HashLessTable HashValue} (h : InOrder x used)
    (hret : Returns ⟨x.tables i, x.world⟩ used s') :
    ∃ used', InOrder (x.setTable i s'.table s'.world) used' := by
  obtain ⟨used', hgrows, hkeeps⟩ := hret
  have hext := Steps.extended (h.kept i) hgrows.steps
  obtain ⟨qs, hqs, hnew⟩ := hext.new
  change s'.table.blockObjs 0 = (x.tables i).blockObjs 0 ++ qs at hqs
  have hused : ∀ p, p ∈ used' ↔ p ∈ used ∨ p ∈ s'.table.blockObjs 0 := hext.used
  refine ⟨used', h.setTable (hgrows.kept (h.kept i)) (fun p hp hmem => ?_) (fun p => ?_)
    hext.frame (fun p hp hid => ?_) (hgrows.rankSize.trans (h.rankSize i)) ?_⟩
  · rw [hqs, List.mem_append] at hp
    exact hp.resolve_right fun hq => hnew p hq hmem
  · rw [hused]
    by_cases hp : p ∈ (x.tables i).blockObjs 0
    · have hmem : p ∈ s'.table.blockObjs 0 := hqs ▸ List.mem_append_left qs hp
      exact iff_of_true (.inr hmem) (.inl hmem)
    · rw [or_comm, and_iff_left hp]
  · obtain ⟨hmem, hlost⟩ := hkeeps p ((hused p).mpr (.inr hp)) hid
    exact h.ne_invalid p hmem hlost
  · exact (h.blockSize i).trans_eq hgrows.blockSize.symm

/-- A table keeps its blocks, and no two of them have the same id afterwards. -/
theorem InOrder.sameBlocks (h : InOrder x used) (hobjs : t.blockObjs 0 = (x.tables i).blockObjs 0)
    (hrank : t.rankSize = (x.tables i).rankSize) (hsize : t.blockSize = (x.tables i).blockSize)
    (hsound : Sound w used)
    (hframe : ∀ p ∈ used, p ∉ (x.tables i).blockObjs 0 → w.mem.obj p = x.world.mem.obj p)
    (hprev : ∀ p ∈ used, (w.mem.obj p).prevBlock = (x.world.mem.obj p).prevBlock)
    (hvalid : ∀ p ∈ (x.tables i).blockObjs 0, (w.mem.obj p).blockId ≠ invalidBlockId)
    (hdistinct : ∀ p ∈ (x.tables i).blockObjs 0, ∀ q ∈ (x.tables i).blockObjs 0, q ≠ p →
      (w.mem.obj q).blockId ≠ (w.mem.obj p).blockId) : InOrder (x.setTable i t w) used := by
  have hused : ∀ p ∈ (x.tables i).blockObjs 0, p ∈ used :=
    fun p hp => (h.mem_used p).mpr ⟨i, hp⟩
  have hkept : Kept (owner ⟨t, w⟩ used) := by
    rw [owner, hobjs]
    exact ⟨hsound, hused, (h.kept i).nodup,
      (h.kept i).linked.congr fun p hp => hprev p (hused p hp),
      fun p hp q hq hne heq => absurd heq (hdistinct p hp q hq hne)⟩
  refine h.setTable hkept (fun p hp _ => hobjs ▸ hp) (fun p => ?_) hframe
    (fun p hp => hvalid p (hobjs ▸ hp)) (hrank.trans (h.rankSize i))
    ((h.blockSize i).trans_eq hsize.symm)
  rw [hobjs]
  by_cases hp : p ∈ (x.tables i).blockObjs 0
  · simp [hp, hused p hp]
  · simp [hp]

end

/-- **Whatever is done to the tables, they stay in order.** -/
theorem step_inOrder {x' : Sequences HashValue} {a : Action HashValue} (h : InOrder x used)
    (hstep : step x a = some x') : ∃ used', InOrder x' used' := by
  have hvalid : ∀ i, ∀ p ∈ (x.tables i).blockObjs 0, (x.world.mem.obj p).blockId ≠ invalidBlockId :=
    fun i p hp => h.ne_invalid p ((h.mem_used p).mpr ⟨i, hp⟩)
  cases a with
  | allocate i tokenIds device extraHash =>
    obtain ⟨s', ⟨hempty, hrank, hsize, hjoins, hids⟩, rfl⟩ := onTable_cases
      (wp_allocate_joins (h.kept i).sound (h.rankSize i) tokenIds device extraHash) hstep
    exact ⟨_, h.joins hempty hjoins hids (hrank.trans (h.rankSize i))
      ((h.blockSize i).trans_eq hsize.symm)⟩
  | appendTokenIds i tokenIds extraHash numLookaheadSlots =>
    by_cases hused : used.Nonempty
    · obtain ⟨s', hret, rfl⟩ := onTable_cases (wp_appendTokenIds_steps (h.kept i) hused
        (h.blockSize i) tokenIds extraHash numLookaheadSlots) hstep
      exact h.returns hret
    · -- a table without blocks is not appended to
      have hempty : (x.tables i).isAllocated = false := by
        rw [← Bool.not_eq_true, isAllocated_iff (h.rankSize i), not_not]
        refine List.eq_nil_iff_forall_not_mem.mpr fun p hp => hused ⟨p, ?_⟩
        exact (h.mem_used p).mpr ⟨i, hp⟩
      have hthrow : wp (BlockTable.appendTokenIds tokenIds extraHash numLookaheadSlots)
          (fun _ _ => False) (fun _ _ => True)
          (⟨x.tables i, x.world⟩ : HashLessTable HashValue) := by
        unfold BlockTable.appendTokenIds
        rw [wp_bind, wp_get]
        exact (wp_ite _ _ _).mpr ⟨fun _ => trivial, fun hno => absurd (by simp [hempty]) hno⟩
      obtain ⟨_, hfalse, -⟩ := onTable_cases hthrow hstep
      exact hfalse.elim
  | fork i j =>
    simp only [step] at hstep
    split_ifs at hstep with halloc
    rw [isAllocated_iff (h.rankSize j), not_not] at halloc
    cases hrun : BlockTable.fork (⟨x.tables i, x.world⟩ : HashLessTable HashValue) with
    | error e s' =>
      rw [hrun] at hstep
      cases hstep
    | ok t s' =>
      rw [hrun] at hstep
      obtain rfl := Option.some.inj hstep
      obtain ⟨-, hjoins, hcells, -, hrank, hsize⟩ :=
        wp_ok (wp_fork_joins (h.kept i) (h.rankSize i)) hrun
      exact ⟨_, h.joins halloc hjoins (nodup_ids_of_cells hcells (h.nodup_ids i)) hrank
        ((h.blockSize i).trans_eq hsize.symm)⟩
  | free i =>
    obtain ⟨s', ⟨hempty, hrank, hsize, hsound, hframe⟩, rfl⟩ := onTable_cases
      (BlockTable.wp_free_leaves (h.kept i) (h.rankSize i) (hvalid i)) hstep
    refine ⟨used \ ((x.tables i).blockObjs 0).toFinset, h.setTable ?_ ?_ (fun p => ?_)
      (fun p _ hno => hframe p hno) ?_ (hrank.trans (h.rankSize i))
      ((h.blockSize i).trans_eq hsize.symm)⟩
    · refine ⟨hsound, ?_, ?_, ?_, ?_⟩ <;> simp [owner, hempty, BlockTable.Linked]
    · simp [hempty]
    · simp [hempty]
    · simp [hempty]
  | swap i srcDevice dstDevice =>
    obtain ⟨s', ⟨hobjs, hrank, hsize, hrel⟩, rfl⟩ := onTable_cases
      (BlockTable.wp_swap_relabels (h.kept i) (h.rankSize i) (hvalid i) srcDevice dstDevice) hstep
    have hused : ∀ p ∈ (x.tables i).blockObjs 0, p ∈ used :=
      fun p hp => (h.mem_used p).mpr ⟨i, hp⟩
    exact ⟨used, h.sameBlocks hobjs hrank hsize hrel.sound hrel.frame hrel.prevBlock hrel.ne_invalid
      fun p hp q hq hne => hrel.unshared p hp q (hused q hq) hne⟩
  | replaceTrailingPlaceHolder i tokenIds trailingPlaceHolderNum replacedPlaceHolderNum =>
    obtain ⟨s', hret, rfl⟩ := onTable_cases (wp_replaceTrailingPlaceHolder_retains (h.kept i).sound
      tokenIds trailingPlaceHolderNum replacedPlaceHolderNum) hstep
    refine ⟨used, h.sameBlocks (congrFun hret.blockObjs 0) hret.rankSize hret.blockSize hret.sound
      (fun p _ hno => hret.frame p hno) (fun p _ => hret.prevBlock p) (fun p hp => ?_)
      fun p hp q hq hne heq => ?_⟩
    · rw [hret.blockId p]
      exact hvalid i p hp
    · rw [hret.blockId p, hret.blockId q] at heq
      exact hvalid i p hp ((h.kept i).distinct p hp q hq hne heq)

end InOrder

/-- Tables without blocks over new allocators are in order. -/
theorem InOrder.new {config : AllocatorConfig} {w : Devices HashValue} {t : BlockTable}
    (hrank : config.rankSize = 1) (hw : CpuNpuBlockAllocator.new config = .ok w)
    (ht : BlockTable.new config.blockSize config.rankSize = .ok t) :
    InOrder ⟨w, fun _ => t⟩ ∅ := by
  have hsound := Sound.new hw
  unfold BlockTable.new at ht
  split_ifs at ht with hsize
  obtain rfl := Except.ok.inj ht
  have hkept : Kept ⟨w, ∅, []⟩ := ⟨hsound, by simp, List.nodup_nil, trivial, by simp⟩
  exact ⟨fun _ => hkept, by simp, by simp, by simp, fun _ => hrank,
    fun _ => Nat.pos_of_ne_zero hsize⟩

/-- **The tables are in order whatever has been done to them.** -/
theorem inOrder_of_reaches {config : AllocatorConfig} {w : Devices HashValue} {t : BlockTable}
    {x : Sequences HashValue} (hrank : config.rankSize = 1)
    (hw : CpuNpuBlockAllocator.new config = .ok w)
    (ht : BlockTable.new config.blockSize config.rankSize = .ok t)
    (h : Reaches step (fun _ _ => True) ⟨w, fun _ => t⟩ x) : ∃ used, InOrder x used :=
  h.invariant (I := fun x => ∃ used, InOrder x used) ⟨∅, .new hrank hw ht⟩
    fun _ _ _ ⟨_, h⟩ _ hstep => step_inOrder h hstep

/-- An allocator counts the blocks of the tables, and the ids that none of them has are free. -/
structure Counts (x : Sequences HashValue) (a : HashLessBlockAllocator HashValue)
    (blocks : Finset Ptr) : Prop where
  mem_blocks : ∀ p, p ∈ blocks ↔ ∃ i, p ∈ (x.tables i).blockObjs 0
  free_nodup : a.freeBlockIndices.Nodup
  free : ∀ b, b ∈ a.freeBlockIndices ↔
    b ∈ a.allBlockIndices ∧ ∀ p ∈ blocks, (x.world.mem.obj p).blockId ≠ b
  refCounts : ∀ b ∈ a.allBlockIndices, a.refCounter.refCounts b =
    some ((blocks.filter fun p => (x.world.mem.obj p).blockId = b).card : RefCount)

/-- **No id is lost, or free while a table has it**, whatever has been done to the tables. -/
theorem idsCounted_of_reaches {config : AllocatorConfig} {w : Devices HashValue} {t : BlockTable}
    {x : Sequences HashValue} (hrank : config.rankSize = 1)
    (hw : CpuNpuBlockAllocator.new config = .ok w)
    (ht : BlockTable.new config.blockSize config.rankSize = .ok t)
    (h : Reaches step (fun _ _ => True) ⟨w, fun _ => t⟩ x) (device : DeviceType) :
    ∃ blocks, x.Counts (x.world.alloc.allocators device 0) blocks := by
  obtain ⟨used, hx⟩ := inOrder_of_reaches hrank hw ht h
  have hsound : Sound x.world used := (hx.kept 0).sound
  have hcons := hsound.consistent device
  have hcount : ∀ b ∈ (x.world.alloc.allocators device 0).allBlockIndices,
      (idsOn x.world device (carried x.world.mem used)).count b =
        (used.filter fun p => (x.world.mem.obj p).blockId = b).card := by
    intro b hb
    rw [idsOn, Multiset.count_filter, if_pos (hsound.located device b hb), carried,
      Multiset.count_filter, if_pos (hcons.ne_invalid hb), Multiset.count_map]
    simp only [eq_comm]
    rfl
  refine ⟨used, hx.mem_used, hcons.free_nodup, fun b => ?_, fun b hb => ?_⟩
  · rw [hcons.free]
    refine and_congr_right fun hb => ?_
    rw [← Multiset.count_eq_zero, hcount b hb, Finset.card_eq_zero, Finset.filter_eq_empty_iff]
  · rw [hcons.refCounts, if_pos hb, hcount b hb]

/-- A table and its fork. -/
theorem idsCounted_of_reaches_fork : ∃ (x : Sequences UInt64) (blocks : Finset Ptr),
    (x.tables 1).isAllocated ∧ x.Counts (x.world.alloc.allocators .npu 0) blocks := by
  have hrun : ∀ (w : Devices UInt64) (t : BlockTable),
      CpuNpuBlockAllocator.new ⟨0, 8, 2, 1, 1⟩ = .ok w → BlockTable.new 2 1 = .ok t →
      ((execAll step (fun _ _ => True) ⟨w, fun _ => t⟩
        [.allocate 0 [1, 2, 3] .npu 0, .fork 0 1]).map fun x => (x.tables 1).isAllocated) =
        some true := by
    rintro _ _ ⟨⟩ ⟨⟩
    decide +kernel
  obtain ⟨x, hx, hfork⟩ := Option.map_eq_some_iff.mp (hrun _ _ rfl rfl)
  have hrank : (⟨0, 8, 2, 1, 1⟩ : AllocatorConfig).rankSize = 1 := rfl
  obtain ⟨blocks, h⟩ := idsCounted_of_reaches hrank rfl rfl (reaches_of_execAll hx) .npu
  exact ⟨x, blocks, hfork, h⟩

end Sequences

end MindieLLM
