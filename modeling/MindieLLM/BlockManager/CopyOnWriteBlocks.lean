import MindieLLM.BlockManager.CopyOnWriteWorld
import MindieLLM.BlockManager.SmallRankFirstPlaced

/-!
# Chains of blocks that share ids

The blocks of a table follow each other. A prompt takes a chain of new blocks with ids of their own;
a fork takes a chain of new blocks that share the ids of another chain; a table that is freed gives
its blocks back one by one.

## Main definitions

* `Joins`: a chain of blocks that comes into use

## Main results

* `wp_allocateImmutableBlocks_joins`: the full blocks of a prompt
* `wp_fork_joins`: the blocks of a fork
* `wp_free_leaves`, `wp_replaceToken_keeps`: a block that is given back, and one that is changed
-/

namespace MindieLLM

open Program

variable {HashValue : Type}

namespace BlockTable

variable {m m' : Mem HashValue} {prev : Option Ptr} {p : Ptr} {ps qs : List Ptr}

theorem Linked.congr (h : Linked m prev ps)
    (hprev : ∀ p ∈ ps, (m'.obj p).prevBlock = (m.obj p).prevBlock) : Linked m' prev ps := by
  induction ps generalizing prev with
  | nil => trivial
  | cons p ps ih =>
    refine ⟨(hprev p List.mem_cons_self).trans h.1, ih h.2 fun q hq => ?_⟩
    exact hprev q (List.mem_cons_of_mem p hq)

theorem linked_append : Linked m prev (ps ++ qs) ↔
    Linked m prev ps ∧ Linked m (ps.getLast?.or prev) qs := by
  induction ps generalizing prev with
  | nil => simp [Linked]
  | cons p ps ih =>
    rw [List.cons_append, Linked, Linked, ih, and_assoc]
    cases ps with
    | nil => rfl
    | cons q ps =>
      have hlast : (p :: q :: ps).getLast?.or prev = (q :: ps).getLast?.or (some p) := by
        rw [List.getLast?_cons_cons, List.getLast?_eq_some_getLast (List.cons_ne_nil q ps)]
        rfl
      rw [hlast]

/-- The source blocks of a fork are the chain of the last block. -/
theorem Linked.wp_sourceBlocks (h : Linked m none (ps ++ [p])) (fuel : ℕ) :
    wp (sourceBlocks fuel p) (fun qs m' => qs = ps ++ [p] ∧ m' = m) (fun _ _ => True) m := by
  induction fuel generalizing ps p with
  | zero => trivial
  | succ fuel ih =>
    unfold sourceBlocks
    simp only [wp_bind, wp_load]
    rw [linked_append] at h
    have hprev : (m.obj p).prevBlock = ps.getLast? := by simpa using h.2.1
    rcases List.eq_nil_or_concat ps with rfl | ⟨qs, q, rfl⟩
    · rw [hprev]
      exact ⟨rfl, rfl⟩
    · rw [hprev, List.concat_eq_append, List.getLast?_concat]
      rw [List.concat_eq_append] at h
      simp only [wp_bind]
      refine wp_mono (ih h.1) ?_ fun _ _ h => h
      rintro _ _ ⟨rfl, rfl⟩
      exact ⟨rfl, rfl⟩

end BlockTable

namespace HashLessBlockAllocator

open CpuNpuBlockAllocator BlockTable

/-! ## New chains -/

/-- The blocks `ps` come into use, one following the other. -/
structure Joins (w : Devices HashValue) (used : Finset Ptr) (prev : Option Ptr) (ps : List Ptr)
    (w' : Devices HashValue) : Prop where
  sound : Sound w' (used ∪ ps.toFinset)
  fresh : ∀ p ∈ ps, p ∉ used
  nodup : ps.Nodup
  frame : ∀ q, q ∉ ps → w'.mem.obj q = w.mem.obj q
  linked : BlockTable.Linked w'.mem prev ps
  ne_invalid : ∀ p ∈ ps, (w'.mem.obj p).blockId ≠ invalidBlockId

section Joins

variable {w w' w'' : Devices HashValue} {used : Finset Ptr} {prev : Option Ptr} {p : Ptr}
  {ps qs : List Ptr}

theorem Joins.nil (h : Sound w used) : Joins w used prev [] w where
  sound := by simpa using h
  fresh := by simp
  nodup := List.nodup_nil
  frame _ _ := rfl
  linked := trivial
  ne_invalid := by simp

theorem Joins.append (h : Joins w used prev ps w')
    (h' : Joins w' (used ∪ ps.toFinset) (ps.getLast?.or prev) qs w'') :
    Joins w used prev (ps ++ qs) w'' := by
  have hnot : ∀ q ∈ ps, q ∉ qs := fun q hq hmem =>
    h'.fresh q hmem (Finset.mem_union_right _ (List.mem_toFinset.mpr hq))
  have hframe : ∀ q ∈ ps, w''.mem.obj q = w'.mem.obj q := fun q hq => h'.frame q (hnot q hq)
  refine ⟨?_, fun q hq => ?_, ?_, fun q hq => ?_, linked_append.mpr ⟨?_, h'.linked⟩,
    fun q hq => ?_⟩
  · rw [List.toFinset_append, ← Finset.union_assoc]
    exact h'.sound
  · rcases List.mem_append.mp hq with hq | hq
    · exact h.fresh q hq
    · exact fun hmem => h'.fresh q hq (Finset.mem_union_left _ hmem)
  · exact List.nodup_append.mpr ⟨h.nodup, h'.nodup, fun q hq r hr heq => hnot q hq (heq ▸ hr)⟩
  · rw [List.mem_append, not_or] at hq
    rw [h'.frame q hq.2, h.frame q hq.1]
  · exact h.linked.congr fun q hq => by rw [hframe q hq]
  · rcases List.mem_append.mp hq with hq | hq
    · rw [hframe q hq]
      exact h.ne_invalid q hq
    · exact h'.ne_invalid q hq

theorem Takes.joins (h : Takes w used p prev w') : Joins w used prev [p] w' where
  sound := by
    have hsound := h.sound
    rwa [Finset.insert_eq, Finset.union_comm] at hsound
  fresh q hq := List.mem_singleton.mp hq ▸ h.took.fresh
  nodup := List.nodup_singleton p
  frame q hq := h.frame q fun heq => hq (List.mem_singleton.mpr heq)
  linked := ⟨h.prevBlock, trivial⟩
  ne_invalid q hq := List.mem_singleton.mp hq ▸ h.took.ne_lost

end Joins

/-- Ids that several blocks carry. -/
theorem carried_union {m : Mem HashValue} {used : Finset Ptr} {ps : List Ptr} (hnodup : ps.Nodup)
    (hfresh : ∀ p ∈ ps, p ∉ used) (hid : ∀ p ∈ ps, (m.obj p).blockId ≠ invalidBlockId) :
    carried m (used ∪ ps.toFinset) =
      ((ps.map fun p => (m.obj p).blockId : List BlockId) : Multiset BlockId) + carried m used := by
  induction ps with
  | nil => simp
  | cons p ps ih =>
    rw [List.nodup_cons] at hnodup
    have hp : p ∉ used ∪ ps.toFinset := by
      rw [Finset.mem_union, List.mem_toFinset, not_or]
      exact ⟨hfresh p List.mem_cons_self, hnodup.1⟩
    rw [List.toFinset_cons, Finset.union_insert, carried_insert hp (hid p List.mem_cons_self),
      ih hnodup.2 (fun q hq => hfresh q (List.mem_cons_of_mem p hq))
        fun q hq => hid q (List.mem_cons_of_mem p hq), List.map_cons, ← Multiset.cons_coe,
      Multiset.cons_add]

/-! ## The full blocks of a prompt -/

theorem wp_allocateBlockIds {a : HashLessBlockAllocator HashValue} {own : Multiset BlockId}
    (h : Consistent a own) (chunks : List (List TokenId)) :
    wp (chunks.mapM fun _ => allocateBlockId)
      (fun bs a' => bs.length = chunks.length ∧ bs.Nodup ∧
        (∀ b ∈ bs, b ∉ own ∧ b ∈ a.allBlockIndices) ∧ Consistent a' (↑bs + own) ∧
        a'.allBlockIndices = a.allBlockIndices ∧ a'.cowTracker = a.cowTracker)
      (fun _ _ => True) a := by
  induction chunks generalizing a own with
  | nil => exact ⟨rfl, List.nodup_nil, by simp, by simpa using h, rfl, rfl⟩
  | cons tokens chunks ih =>
    rw [List.mapM_cons, wp_bind]
    refine wp_mono (wp_allocateBlockId h) ?_ fun _ _ _ => trivial
    rintro b a₁ ⟨hown, hall, hcons, rest, -, rfl⟩
    rw [wp_bind]
    refine wp_mono (ih hcons) ?_ fun _ _ h => h
    rintro bs a₂ ⟨hlength, hnodup, hbs, hcons₂, hall₂, htracker₂⟩
    refine ⟨by rw [List.length_cons, List.length_cons, hlength], ?_, fun c hc => ?_, ?_, hall₂,
      htracker₂⟩
    · exact List.nodup_cons.mpr ⟨fun hmem => (hbs b hmem).1 (Multiset.mem_cons_self b own), hnodup⟩
    · rcases List.mem_cons.mp hc with rfl | hc
      · exact ⟨hown, hall⟩
      · exact ⟨fun hmem => (hbs c hc).1 (Multiset.mem_cons_of_mem hmem), (hbs c hc).2⟩
    · rwa [Multiset.add_cons, ← Multiset.cons_add, Multiset.cons_coe] at hcons₂

variable [PrefixHasher HashValue]

/-- A chain of blocks is taken from the pool, with ids that are in use already. -/
structure Acquired (v : World HashValue (HashLessBlockAllocator HashValue)) (used : Finset Ptr)
    (prev : Option Ptr) (bs : List BlockId) (ps : List Ptr)
    (v' : World HashValue (HashLessBlockAllocator HashValue)) : Prop where
  alloc : v'.alloc = v.alloc
  tracks : v'.mem.pool.Tracks (used ∪ ps.toFinset)
  fresh : ∀ p ∈ ps, p ∉ used
  nodup : ps.Nodup
  frame : ∀ q, q ∉ ps → v'.mem.obj q = v.mem.obj q
  linked : BlockTable.Linked v'.mem prev ps
  ids : ps.map (fun p => (v'.mem.obj p).blockId) = bs
  rankIdx : ∀ p, (v'.mem.obj p).rankIdx = (v.mem.obj p).rankIdx

theorem wp_acquireBlocks {v : World HashValue (HashLessBlockAllocator HashValue)}
    {used : Finset Ptr} (htracks : v.mem.pool.Tracks used) (chunks : List (List TokenId))
    (bs : List BlockId) (hlength : bs.length = chunks.length) (prev : Option Ptr) :
    wp (acquireBlocks chunks bs prev) (fun ps v' => Acquired v used prev bs ps v')
      (fun _ _ => True) v := by
  induction chunks generalizing v used bs prev with
  | nil =>
    obtain rfl := List.eq_nil_of_length_eq_zero hlength
    exact ⟨rfl, by simpa using htracks, by simp, List.nodup_nil, fun _ _ => rfl, trivial, rfl,
      fun _ => rfl⟩
  | cons tokens chunks ih =>
    cases bs with
    | nil => cases hlength
    | cons b bs =>
      unfold acquireBlocks
      rw [wp_bind]
      refine wp_mono (wp_acquireBlock htracks tokens prev b) ?_ fun _ _ _ => trivial
      rintro p v₁ ⟨hp, halloc, htracks₁, -, hframe, hprev, -, -, hid, hrank⟩
      rw [wp_bind]
      refine wp_mono (ih htracks₁ bs (Nat.succ.inj hlength) (some p)) ?_ fun _ _ h => h
      intro ps v₂ hacq
      have hpps : p ∉ ps := fun hmem => hacq.fresh p hmem (Finset.mem_insert_self p used)
      have hsame := hacq.frame p hpps
      rw [wp_pure]
      refine ⟨hacq.alloc.trans halloc, ?_, fun q hq => ?_, List.nodup_cons.mpr ⟨hpps, hacq.nodup⟩,
        fun q hq => ?_, ⟨by rw [hsame, hprev], hacq.linked⟩, ?_, fun q => ?_⟩
      · rw [List.toFinset_cons, Finset.union_insert, ← Finset.insert_union]
        exact hacq.tracks
      · rcases List.mem_cons.mp hq with rfl | hq
        · exact hp
        · exact fun hmem => hacq.fresh q hq (Finset.mem_insert_of_mem hmem)
      · rw [List.mem_cons, not_or] at hq
        rw [hacq.frame q hq.2, hframe q hq.1]
      · rw [List.map_cons, hsame, hid, hacq.ids]
      · rw [hacq.rankIdx]
        by_cases hq : q = p
        · rw [hq, hrank]
        · rw [hframe q hq]

/-- **The full blocks of a prompt**: a chain of new blocks, each with an id of its own. -/
theorem wp_allocateImmutableBlocks_joins {w : Devices HashValue} {used : Finset Ptr}
    (h : Sound w used) (device : DeviceType) (chunks : List (List TokenId)) (prev : Option Ptr)
    (extraHash : HashValue) :
    wp (CpuNpuBlockAllocator.allocateImmutableBlocks device chunks prev extraHash 0)
      (fun ps w' => Joins w used prev ps w' ∧ (ps.map fun p => (w'.mem.obj p).blockId).Nodup)
      (fun _ _ => True) w := by
  unfold CpuNpuBlockAllocator.allocateImmutableBlocks
  rw [wp_bind]
  refine wp_onAllocator (fun _ => trivial) ?_
  change wp (allocateImmutableBlocks chunks prev) _ _ _
  unfold allocateImmutableBlocks
  simp only [wp_bind, wp_zoom, World.allocLens_get, World.allocLens_put]
  refine wp_mono (wp_allocateBlockIds (h.consistent device) chunks) ?_ fun _ _ _ => trivial
  rintro bs a ⟨hlength, hnodup, hbs, hcons, hall, -⟩
  refine wp_mono (wp_acquireBlocks (v := ⟨w.mem, a⟩) h.tracks chunks bs hlength prev) ?_
    fun _ _ _ => trivial
  intro ps v hacq
  have hmem : ∀ p ∈ ps, (v.mem.obj p).blockId ∈ bs := by
    intro p hp
    rw [← hacq.ids]
    exact List.mem_map_of_mem hp
  have hvalid : ∀ p ∈ ps, (v.mem.obj p).blockId ≠ invalidBlockId :=
    fun p hp => h.ne_invalid (hbs _ (hmem p hp)).2
  have hpost : carried v.mem (used ∪ ps.toFinset) = ↑bs + carried w.mem used := by
    rw [carried_union hacq.nodup hacq.fresh hvalid, hacq.ids]
    congr 1
    exact carried_congr fun q hq =>
      congrArg BlockObj.blockId (hacq.frame q fun hmem => hacq.fresh q hmem hq)
  have hsound : Sound (put w device v) (used ∪ ps.toFinset) := by
    refine h.put 0 ↑bs _ (zero_add _).symm
      (fun _ hc => absurd hc (Multiset.notMem_zero _)) hpost ?_ (fun b hb => (hbs b hb).2) ?_
      hacq.tracks fun p => (hacq.rankIdx p).trans (h.rankIdx p)
    · rw [hacq.alloc]
      exact hall
    · rw [hacq.alloc]
      exact hcons
  have hjoins : Joins w used prev ps (put w device v) :=
    ⟨hsound, hacq.fresh, hacq.nodup, hacq.frame, hacq.linked, hvalid⟩
  refine wp_mono (wp_forM (I := fun _ w' => w' = put w device v) _ ps rfl ?_) ?_ fun _ _ h => h
  · rintro p rest _ rfl
    rw [wp_setRankIdx (hsound.rankIdx p)]
  · rintro _ _ rfl
    rw [wp_pure]
    exact ⟨hjoins, hacq.ids ▸ hnodup⟩

/-! ## The blocks of a fork -/

/-- What a block stands for: its id and its tokens. -/
def cell (m : Mem HashValue) (p : Ptr) : BlockId × List TokenId :=
  ((m.obj p).blockId, (m.obj p).tokenIds)

section Fork

variable {w : Devices HashValue} {used : Finset Ptr} {device : DeviceType} {p q : Ptr}
  {prev : Option Ptr} {b : BlockId}
  {v : World HashValue (HashLessBlockAllocator HashValue)}

omit [PrefixHasher HashValue] in
/-- A new block that shares the id `b` of a block in use. -/
theorem Sound.share (h : Sound w used) (hb : b ∈ (part w device).alloc.allBlockIndices)
    (hown : b ∈ idsOn w device (carried w.mem used)) (hp : p ∉ used)
    (halloc : v.alloc = (part w device).alloc.recount b
      ((idsOn w device (carried w.mem used)).count b + 1) (part w device).alloc.freeBlockIndices)
    (htracks : v.mem.pool.Tracks (insert p used))
    (hframe : ∀ q, q ≠ p → v.mem.obj q = w.mem.obj q) (hid : (v.mem.obj p).blockId = b)
    (hrank : (v.mem.obj p).rankIdx = (w.mem.obj p).rankIdx) :
    Sound (HashLessBlockAllocator.put w device v) (insert p used) := by
  have hold : carried v.mem used = carried w.mem used := carried_congr fun q hq =>
    congrArg BlockObj.blockId (hframe q fun heq => hp (heq ▸ hq))
  refine h.put 0 {b} _ (zero_add _).symm
    (fun _ hc => absurd hc (Multiset.notMem_zero _)) ?_ ?_ ?_ ?_ htracks
    (rankIdx_write h.rankIdx hframe hrank)
  · rw [carried_insert hp (hid ▸ h.ne_invalid hb), hid, hold, Multiset.singleton_add]
  · rw [halloc]
    rfl
  · intro c hc
    rwa [Multiset.mem_singleton.mp hc]
  · rw [halloc, Multiset.singleton_add]
    exact (h.consistent device).share hb hown

/-- The loop of `Fork` takes a chain of blocks that share the ids of the sources. -/
theorem wp_forkBlocks_joins (h : Sound w used) (prev : Option Ptr) (sources : List Ptr)
    (hsources : ∀ q ∈ sources, q ∈ used) :
    wp (forkBlocks prev sources)
      (fun fs v => Joins w used prev fs (put w device v) ∧
        fs.map (cell v.mem) = sources.map (cell w.mem) ∧ copies (put w device v) = copies w)
      (fun _ _ => True) (part w device) := by
  induction sources generalizing w used prev with
  | nil =>
    refine ⟨?_, rfl, ?_⟩
    · rw [put_part]
      exact .nil h
    · rw [put_part]
  | cons source rest ih =>
    have hsource := hsources source List.mem_cons_self
    unfold forkBlocks
    simp only [wp_bind, wp_zoom, wp_load, World.memLens_get, World.memLens_put,
      World.allocLens_get, World.allocLens_put, refCounterLens_get, refCounterLens_put,
      RefCounter.wp_increase, part_mem]
    refine ⟨fun n hn hpos => ?_, fun _ => trivial⟩
    have hcons : Consistent (part w device).alloc (idsOn w device (carried w.mem used)) :=
      h.consistent device
    rw [hcons.refCounts] at hn
    split_ifs at hn with hb
    have hown : (w.mem.obj source).blockId ∈ idsOn w device (carried w.mem used) :=
      Multiset.mem_filter.mpr ⟨mem_carried.mpr ⟨h.ne_invalid hb, source, hsource, rfl⟩,
        h.located device _ hb⟩
    obtain rfl := Option.some.inj hn
    refine (wp_ite _ _ _).mpr ⟨fun _ => trivial, fun _ => ?_⟩
    rw [wp_bind]
    refine wp_mono (wp_acquireBlock (w := ⟨w.mem, (part w device).alloc.recount
      (w.mem.obj source).blockId _ (part w device).alloc.freeBlockIndices⟩) h.tracks
      (w.mem.obj source).tokenIds prev (w.mem.obj source).blockId) ?_ fun _ _ _ => trivial
    rintro p v₁ ⟨hp, halloc, htracks, -, hframe, hprev, htokens, -, hid, hrank⟩
    have hsound := h.share hb hown hp halloc htracks hframe hid hrank
    have hjoins : Joins w used prev [p] (put w device v₁) := by
      refine ⟨?_, ?_, List.nodup_singleton p, fun q hq => ?_, ⟨hprev, trivial⟩, ?_⟩
      · rwa [Finset.insert_eq, Finset.union_comm] at hsound
      · exact fun q hq => List.mem_singleton.mp hq ▸ hp
      · exact hframe q fun heq => hq (List.mem_singleton.mpr heq)
      · intro q hq
        rw [List.mem_singleton.mp hq, put_mem, hid]
        exact h.ne_invalid hb
    have hcell : ∀ q ∈ used, cell v₁.mem q = cell w.mem q := by
      intro q hq
      rw [cell, hframe q fun heq => hp (heq ▸ hq), cell]
    have hrest := ih hsound (some p)
      fun q hq => Finset.mem_insert_of_mem (hsources q (List.mem_cons_of_mem source hq))
    rw [part_put] at hrest
    rw [wp_bind]
    refine wp_mono hrest ?_ fun _ _ h => h
    rintro fs v₂ ⟨hjoins₂, hcells, hcopies⟩
    rw [put_put] at hjoins₂ hcopies
    rw [wp_pure]
    refine ⟨?_, ?_, hcopies.trans (copies_put ?_)⟩
    · rw [Finset.insert_eq, Finset.union_comm] at hjoins₂
      exact hjoins.append hjoins₂
    · have hpfs : p ∉ fs := fun hmem => hjoins₂.fresh p hmem (Finset.mem_insert_self p used)
      rw [List.map_cons, List.map_cons, hcells, put_mem]
      congr 1
      · rw [cell, show v₂.mem.obj p = v₁.mem.obj p from hjoins₂.frame p hpfs, hid, htokens, cell]
      · exact List.map_congr_left fun q hq => hcell q (hsources q (List.mem_cons_of_mem source hq))
    · rw [halloc]
      rfl

/-- **The blocks of a fork** share the ids of the chain that they are copied from. -/
theorem wp_fork_joins {ps : List Ptr} (h : Sound w used)
    (hlinked : BlockTable.Linked w.mem none (ps ++ [p]))
    (hps : ∀ q ∈ ps ++ [p], q ∈ used) :
    wp (CpuNpuBlockAllocator.fork p)
      (fun fs w' => Joins w used none fs w' ∧
        fs.map (cell w'.mem) = (ps ++ [p]).map (cell w.mem) ∧ copies w' = copies w)
      (fun _ _ => True) w := by
  unfold CpuNpuBlockAllocator.fork onAllocatorOf locate
  simp only [wp_bind, wp_zoom, World.memLens_get, World.memLens_put, wp_load, wp_get, wp_pure,
    h.rankIdx p]
  refine wp_onAllocator (fun _ => trivial) ?_
  change wp (HashLessBlockAllocator.fork p) _ _ _
  unfold HashLessBlockAllocator.fork
  simp only [wp_bind, wp_get, wp_zoom, World.memLens_get, World.memLens_put, part_mem]
  refine wp_mono (hlinked.wp_sourceBlocks _) ?_ fun _ _ _ => trivial
  rintro _ _ ⟨rfl, rfl⟩
  exact wp_forkBlocks_joins h none _ hps

end Fork

/-! ## Single blocks -/

section Single

variable {w : Devices HashValue} {used : Finset Ptr} {p : Ptr}

/-- A block in use is given back. -/
theorem wp_free_leaves (h : Sound w used) (hp : p ∈ used)
    (hid : (w.mem.obj p).blockId ≠ invalidBlockId) :
    wp (CpuNpuBlockAllocator.free p)
      (fun _ w' => Sound w' (used.erase p) ∧ ∀ q, q ≠ p → w'.mem.obj q = w.mem.obj q)
      (fun _ _ => True) w := by
  unfold CpuNpuBlockAllocator.free onAllocatorOf locate
  simp only [wp_bind, wp_zoom, World.memLens_get, World.memLens_put, wp_load, wp_get, wp_pure,
    h.rankIdx p]
  refine wp_onAllocator (fun _ => trivial) ?_
  change wp (HashLessBlockAllocator.free p false) _ _ _
  unfold HashLessBlockAllocator.free
  rw [wp_bind]
  refine wp_mono (wp_freeBlockId (h.consistent_cons hp hid) rfl (h.mem_all hp hid)) ?_
    fun _ _ _ => trivial
  rintro _ v₁ ⟨hmem, hcons, -, hall, -, -⟩
  refine (wp_ite _ _ _).mpr ⟨fun _ => ?_, fun hno => absurd rfl hno⟩
  unfold HashLessBlockAllocator.freeObj
  rw [wp_zoom, World.memLens_get, hmem]
  refine wp_mono (wp_freeObj (m := stripped _ p) h.tracks hp) ?_ fun _ _ _ => trivial
  rintro _ m ⟨hobj, -, htracks⟩
  have hframe : ∀ q, q ≠ p → m.obj q = w.mem.obj q := by
    intro q hq
    rw [hobj, Function.update_of_ne hq, stripped, Mem.setObj_obj_ne _ _ hq]
    rfl
  have hrank : (m.obj p).rankIdx = (w.mem.obj p).rankIdx := by
    rw [hobj, Function.update_self, stripped, Mem.setObj_obj_same]
    rfl
  refine ⟨?_, hframe⟩
  refine h.put {(w.mem.obj p).blockId} 0 (carried w.mem (used.erase p)) ?_ ?_ ?_ hall
    (fun _ hc => absurd hc (Multiset.notMem_zero _)) ?_ htracks
    (rankIdx_write h.rankIdx hframe hrank)
  · rw [carried_erase hp hid, Multiset.singleton_add]
  · intro b hb
    rw [Multiset.mem_singleton.mp hb]
  · rw [zero_add]
    exact carried_congr fun q hq =>
      congrArg BlockObj.blockId (hframe q (Finset.ne_of_mem_erase hq))
  · rw [zero_add]
    exact hcons

/-- A token of a block is replaced. -/
theorem wp_replaceToken_keeps (h : Sound w used) (i : ℕ) (t : TokenId) :
    wp (CpuNpuBlockAllocator.replaceToken p i t)
      (fun _ w' => Sound w' used ∧ (∀ q, q ≠ p → w'.mem.obj q = w.mem.obj q) ∧
        (w'.mem.obj p).blockId = (w.mem.obj p).blockId ∧
        (w'.mem.obj p).prevBlock = (w.mem.obj p).prevBlock)
      (fun _ _ => True) w := by
  unfold CpuNpuBlockAllocator.replaceToken onAllocatorOf locate
  simp only [wp_bind, wp_zoom, World.memLens_get, World.memLens_put, wp_load, wp_get, wp_pure,
    h.rankIdx p]
  refine wp_onAllocator (fun _ => trivial) ?_
  change wp (HashLessBlockAllocator.replaceToken p i t) _ _ _
  unfold HashLessBlockAllocator.replaceToken HashLessBlockObj.replaceToken
  simp only [wp_bind, wp_zoom, wp_get, World.memLens_get, World.memLens_put, Mem.objAt_get,
    Mem.objAt_put, part_mem, wp_ite, wp_throw, wp_set, implies_true, true_and, put_mem,
    Mem.setObj_obj_same]
  intro _ _
  have hframe : ∀ q, q ≠ p →
      (w.mem.setObj p ((w.mem.obj p).setToken i t)).obj q = w.mem.obj q :=
    fun q hq => Mem.setObj_obj_ne _ _ hq
  refine ⟨?_, hframe, rfl, rfl⟩
  refine h.put 0 0 (carried w.mem used) (zero_add _).symm
    (fun _ hc => absurd hc (Multiset.notMem_zero _)) ?_ rfl
    (fun _ hc => absurd hc (Multiset.notMem_zero _)) ?_ h.tracks
    (rankIdx_write h.rankIdx hframe (by rw [Mem.setObj_obj_same]; rfl))
  · rw [zero_add]
    refine carried_congr fun q _ => ?_
    by_cases hq : q = p
    · rw [hq, Mem.setObj_obj_same]
      rfl
    · rw [hframe q hq]
  · rw [zero_add]
    exact h.consistent _

end Single

end HashLessBlockAllocator

end MindieLLM
