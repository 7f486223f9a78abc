import MindieLLM.TextGenerator.ContextStore

/-!
# Who owns a slot

Every slot but slot 0 is the slot of one sequence, or waits in the list of aborted slots, or is in
the pool. An operation takes slots from one of the three and puts them in another; in between it
holds them. A round that releases the slots of finished sequences trusts its caller: without
asynchronous inference, and with layerwise disaggregation, it does not look whether the slots still
belong to the sequences.

## Main definitions

* `ContextStore.SlotsOwned`: each slot has one owner
* `ContextStore.Releases`: the slots a round releases are those of the sequences it releases

## Main results

* `ContextStore.slotsOwned_of_reaches`: if all rounds do, each slot has one owner
* `ContextStore.not_slotsOwned`: a sequence that is aborted before its last round has its slot freed
  twice
-/

namespace MindieLLM

open Program

namespace ContextStore

/-- Each slot has one owner. -/
structure SlotsOwned (s : TGInferContextStore) : Prop where
  injective : ∀ id id' h, s.sequenceContextSlotMap.lookup id = some h →
    s.sequenceContextSlotMap.lookup id' = some h → id = id'
  nonzero : ∀ id, s.sequenceContextSlotMap.lookup id ≠ some 0
  owned : ∀ h, 0 < h → h < s.allNdarrayContext.capacity →
    (∃ id, s.sequenceContextSlotMap.lookup id = some h) ∨ h ∈ s.abortedContextHandles ∨
      h ∈ s.allNdarrayContext.pool
  notAborted : ∀ id h, s.sequenceContextSlotMap.lookup id = some h →
    h ∉ s.abortedContextHandles
  notFree : ∀ id h, s.sequenceContextSlotMap.lookup id = some h →
    h ∉ s.allNdarrayContext.pool
  abortedNotFree : ∀ h ∈ s.abortedContextHandles, h ∉ s.allNdarrayContext.pool
  abortedOnce : s.abortedContextHandles.Nodup
  freeOnce : s.allNdarrayContext.pool.Nodup

/-- The slots are those of the sequences, each of them once. -/
def SlotsOf (map : AList fun _ : Int => SlotIdx) (ids : List Int) (handles : List SlotIdx) : Prop :=
  handles.Nodup ∧ (∀ h ∈ handles, ∃ id ∈ ids, map.lookup id = some h) ∧
    ∀ id ∈ ids, ∀ h ∈ map.lookup id, h ∈ handles

instance (map : AList fun _ : Int => SlotIdx) (ids : List Int) (handles : List SlotIdx) :
    Decidable (SlotsOf map ids handles) :=
  inferInstanceAs (Decidable (_ ∧ _ ∧ _))

variable (cfg : BatchContextConfig)

/-- The slots that a round releases as it is told: all of them, or with asynchronous inference
those that are flagged. -/
def trusted (s : TGInferContextStore) (finished : List (Int × SlotIdx)) : List (Int × SlotIdx) :=
  let nonVirtual := finished.filter fun p => p.2 ≠ 0
  if cfg.contextParams.asyncInfer then
    nonVirtual.filter fun p => s.allNdarrayContext.pendingCleanupFlags p.2
  else nonVirtual

/-- A round that does not look for itself is told the slots of the sequences. Nothing is free when
all is reset. -/
def Releases (s : TGInferContextStore) : Op → Prop
  | .clearFinishedContext finished =>
    (cfg.contextParams.asyncInfer ∧ ¬cfg.contextParams.layerwiseDisaggregated) ∨
      SlotsOf s.sequenceContextSlotMap ((trusted cfg s finished).map Prod.fst)
        ((trusted cfg s finished).map Prod.snd)
  | .resetAllContext => s.allNdarrayContext.pool = []
  | _ => True

instance (s : TGInferContextStore) (op : Op) : Decidable (Releases cfg s op) :=
  match op with
  | .clearFinishedContext _ => inferInstanceAs (Decidable (_ ∨ SlotsOf _ _ _))
  | .resetAllContext => inferInstanceAs (Decidable (s.allNdarrayContext.pool = []))
  | .getBatchContextHandles _ _ _ | .forkContext _ | .clearContextBySeqIds _
  | .clearAbortedContext | .write _ _ => .isTrue trivial

/-- A call, of those that serve batches. -/
def Op.serves : Op → Bool
  | .resetAllContext | .write _ _ => false
  | _ => true

/-! ## The books -/

/-- The slots, where they are. -/
def slots (s : TGInferContextStore) : List SlotIdx :=
  values s.sequenceContextSlotMap ++ (s.abortedContextHandles ++ s.allNdarrayContext.pool)

/-- Each slot is held, or has one owner. -/
structure Partitioned (held : List SlotIdx) (s : TGInferContextStore) : Prop where
  slots : (held ++ slots s).Perm (List.range' 1 (s.allNdarrayContext.capacity - 1))
  grows : s.allNdarrayContext.capacity = 0 → s.allNdarrayContext.baseCapacity = 0

variable {cfg} {s : TGInferContextStore} {held : List SlotIdx}

namespace Partitioned

theorem init : Partitioned [] (init cfg) :=
  ⟨List.reverse_perm _, id⟩

theorem nodup (h : Partitioned held s) : (held ++ ContextStore.slots s).Nodup :=
  h.slots.nodup_iff.mpr List.nodup_range'

theorem mem_iff (h : Partitioned held s) {p : SlotIdx} :
    p ∈ held ++ ContextStore.slots s ↔ 0 < p ∧ p < s.allNdarrayContext.capacity := by
  rw [h.slots.mem_iff, List.mem_range'_1]
  exact ⟨fun hp => ⟨hp.1, by lia⟩, fun hp => ⟨hp.1, by lia⟩⟩

theorem ne_zero (h : Partitioned held s) {p : SlotIdx} (hp : p ∈ held) : p ≠ 0 :=
  (h.mem_iff.mp (List.mem_append_left _ hp)).1.ne'

theorem nodup_values (h : Partitioned held s) : (values s.sequenceContextSlotMap).Nodup :=
  h.nodup.of_append_right.of_append_left

theorem slotsOwned (h : Partitioned [] s) : SlotsOwned s := by
  have hnodup : (ContextStore.slots s).Nodup := h.nodup
  have hdisjoint := List.disjoint_of_nodup_append hnodup
  have hrest := hnodup.of_append_right
  constructor
  · exact fun id id' p hid hid' => lookup_inj h.nodup_values hid hid'
  · intro id hid
    have hmem := List.mem_append_left (s.abortedContextHandles ++ s.allNdarrayContext.pool)
      (mem_values.mpr ⟨id, hid⟩)
    exact (h.mem_iff.mp hmem).1.ne' rfl
  · intro p hpos hlt
    have hmem : p ∈ ContextStore.slots s := h.mem_iff.mpr ⟨hpos, hlt⟩
    rcases List.mem_append.mp hmem with hp | hp
    · exact .inl (mem_values.mp hp)
    · exact .inr (List.mem_append.mp hp)
  · intro id p hid hp
    exact hdisjoint (mem_values.mpr ⟨id, hid⟩) (List.mem_append_left _ hp)
  · intro id p hid hp
    exact hdisjoint (mem_values.mpr ⟨id, hid⟩) (List.mem_append_right _ hp)
  · exact fun p hp hfree => List.disjoint_of_nodup_append hrest hp hfree
  · exact hrest.of_append_left
  · exact hrest.of_append_right

end Partitioned

/-! ## Slots are taken -/

theorem grow_range {capacity base : Nat} (h : capacity = 0 → base = 0) :
    List.range' 1 (capacity + base - 1) =
      List.range' 1 (capacity - 1) ++ List.range' capacity base := by
  cases capacity with
  | zero =>
    rw [h rfl]
    rfl
  | succ capacity =>
    rw [show capacity + 1 + base - 1 = capacity + base by omega, Nat.add_sub_cancel,
      Nat.add_comm capacity 1, List.range'_append_1]

theorem Partitioned.grow (h : Partitioned held s) :
    Partitioned held { s with allNdarrayContext := s.allNdarrayContext.grow cfg } := by
  constructor
  · simp only [ContextStore.slots, NdarrayContext.grow]
    rw [grow_range h.grows]
    -- the new slots are put in the pool, last first
    have hnew := h.slots.append (List.reverse_perm (List.range' s.allNdarrayContext.capacity
      s.allNdarrayContext.baseCapacity))
    refine .trans ?_ hnew
    simp only [ContextStore.slots, List.append_assoc]
    refine .append_left _ (.append_left _ (.append_left _ ?_))
    exact List.perm_append_comm
  · intro hzero
    exact h.grows (by have : s.allNdarrayContext.capacity + _ = 0 := hzero; omega)

theorem wp_growCapacity (h : Partitioned held s) :
    wp (growCapacity cfg) (fun _ s' => Partitioned held s')
      (fun _ s' => Partitioned held s') s := by
  unfold growCapacity
  rw [wp_bind]
  by_cases hscp : 1 < cfg.spcpParallelInfo.scpSize
  · rw [if_pos hscp]
    exact h.grow
  · rw [if_neg hscp]
    exact h.grow

theorem wp_growCapacity_map (s : TGInferContextStore) :
    wp (growCapacity cfg) (fun _ s' => s'.sequenceContextSlotMap = s.sequenceContextSlotMap)
      (fun _ s' => s'.sequenceContextSlotMap = s.sequenceContextSlotMap) s := by
  unfold growCapacity
  rw [wp_bind]
  split <;> rfl

theorem wp_popPool (h : Partitioned held s) :
    wp popPool (fun slot s' => Partitioned (slot :: held) s' ∧
      s'.sequenceContextSlotMap = s.sequenceContextSlotMap)
      (fun _ s' => Partitioned held s') s := by
  unfold popPool
  rw [wp_bind, wp_get]
  cases hpool : s.allNdarrayContext.pool with
  | nil => exact h
  | cons slot pool =>
    refine ⟨⟨?_, h.grows⟩, rfl⟩
    refine .trans ?_ h.slots
    simp only [ContextStore.slots, hpool, List.cons_append]
    -- the slot that is popped is the first of the pool
    exact List.perm_middle.symm.trans (.append_left _ (List.perm_middle.symm.trans
      (.append_left _ List.perm_middle.symm)))

theorem wp_allocateSlot (h : Partitioned held s) :
    wp (allocateSlot cfg) (fun slot s' => Partitioned (slot :: held) s' ∧
      s'.sequenceContextSlotMap = s.sequenceContextSlotMap)
      (fun _ s' => Partitioned held s') s := by
  unfold allocateSlot
  rw [wp_bind, wp_get]
  by_cases hpool : s.allNdarrayContext.pool = []
  · rw [if_pos hpool, wp_bind]
    refine wp_mono (wp_and (wp_growCapacity h) (wp_growCapacity_map s)) ?_ fun _ _ hs => hs.1
    rintro _ s' ⟨hs', hmap⟩
    rw [← hmap]
    exact wp_popPool hs'
  · rw [if_neg hpool]
    exact wp_popPool h

theorem wp_allocateContextSlot (h : Partitioned held s) {id : Int}
    (hid : id ∉ s.sequenceContextSlotMap) :
    wp (allocateContextSlot cfg id) (fun _ s' => Partitioned held s')
      (fun _ s' => Partitioned held s') s := by
  unfold allocateContextSlot
  rw [wp_bind]
  refine wp_mono (wp_allocateSlot h) ?_ fun _ _ hs => hs
  rintro slot s' ⟨hs', hmap⟩
  refine ⟨?_, hs'.grows⟩
  refine .trans ?_ hs'.slots
  rw [← hmap] at hid
  simp only [ContextStore.slots, values_insert hid, List.cons_append]
  exact List.perm_middle

theorem wp_getContextSlot (h : Partitioned held s) (id : Int) (isPrefill : Bool) :
    wp (getContextSlot cfg id isPrefill) (fun _ s' => Partitioned held s')
      (fun _ s' => Partitioned held s') s := by
  unfold getContextSlot
  rw [wp_bind, wp_get]
  cases hid : s.sequenceContextSlotMap.lookup id with
  | some slot => exact h
  | none =>
    cases isPrefill with
    | false => exact h
    | true => exact wp_allocateContextSlot h (AList.lookup_eq_none.mp hid)

theorem wp_getBatchContextHandles (h : Partitioned held s) (isDummyBatch isPrefill : Bool)
    (ids : List Int) :
    wp (getBatchContextHandles cfg isDummyBatch isPrefill ids)
      (fun _ s' => Partitioned held s') (fun _ s' => Partitioned held s') s := by
  unfold getBatchContextHandles
  split
  · exact h
  · refine wp_mapM _ ids h fun id s' hs' => ?_
    split
    · exact hs'
    · exact wp_getContextSlot hs' id isPrefill

theorem wp_raiseFrom {α : Type} {message : String} {c : ContextM α}
    {Q : α → TGInferContextStore → Prop} {T : TGInferContextStore → Prop}
    (h : wp c Q (fun _ => T) s) : wp (raiseFrom message c) Q (fun _ => T) s := by
  unfold wp raiseFrom at *
  cases hc : c s <;> simpa only [hc] using h

theorem wp_forkOne (h : Partitioned held s) (id parent : Int) :
    wp (forkOne cfg id parent) (fun _ s' => Partitioned held s')
      (fun _ s' => Partitioned held s') s := by
  unfold forkOne
  split
  · exact h
  · rw [wp_bind]
    refine wp_mono (wp_raiseFrom (wp_getContextSlot h id true)) ?_ fun _ _ hs => hs
    intro handle s' hs'
    split
    · exact hs'
    · rw [wp_bind]
      exact wp_mono (wp_raiseFrom (wp_getContextSlot hs' parent false)) (fun _ _ hs => hs)
        fun _ _ hs => hs

theorem wp_forkContext (h : Partitioned held s) (sequences : List (Int × Int)) :
    wp (forkContext cfg sequences) (fun _ s' => Partitioned held s')
      (fun _ s' => Partitioned held s') s := by
  unfold forkContext
  rw [wp_bind]
  refine wp_mono (wp_mapM _ sequences h fun p s' hs' => wp_forkOne hs' p.1 p.2) ?_
    fun _ _ hs => hs
  -- the rows are copied, the slots stay where they are
  exact fun _ s' hs' => ⟨hs'.slots, hs'.grows⟩

/-! ## Slots are given back -/

theorem wp_popContextHandles (h : Partitioned held s) (ids : List Int) :
    wp (popContextHandles ids)
      (fun popped s' => popped = (popAll s.sequenceContextSlotMap ids).2 ∧
        Partitioned (popped ++ held) s') (fun _ _ => False) s := by
  refine ⟨rfl, ?_, h.grows⟩
  refine .trans ?_ h.slots
  have hvalues := values_popAll s.sequenceContextSlotMap ids
  simp only [ContextStore.slots, List.append_assoc]
  refine .trans ?_ (.append_left held (hvalues.symm.append_right _))
  simp only [List.append_assoc]
  exact List.perm_append_comm_assoc _ _ _

theorem foldl_freeSlot (handles : List SlotIdx) (hne : ∀ p ∈ handles, p ≠ 0) (c : NdarrayContext) :
    handles.foldl (NdarrayContext.freeSlot cfg) c =
      { c with pool := handles.reverse ++ c.pool } := by
  induction handles generalizing c with
  | nil => rfl
  | cons p rest ih =>
    rw [List.foldl_cons, ih fun q hq => hne q (List.mem_cons_of_mem _ hq), NdarrayContext.freeSlot,
      if_neg fun hp => hne p List.mem_cons_self hp.2, List.reverse_cons, List.append_assoc]
    rfl

/-- What the release of slots does, but for their rows. -/
structure Freed (handles : List SlotIdx) (s s' : TGInferContextStore) : Prop where
  map : s'.sequenceContextSlotMap = s.sequenceContextSlotMap
  aborted : s'.abortedContextHandles = s.abortedContextHandles
  pool : s'.allNdarrayContext.pool = handles.reverse ++ s.allNdarrayContext.pool
  capacity : s'.allNdarrayContext.capacity = s.allNdarrayContext.capacity
  base : s'.allNdarrayContext.baseCapacity = s.allNdarrayContext.baseCapacity

theorem wp_clearContextByHandles_freed (s : TGInferContextStore) {handles : List SlotIdx}
    (hne : ∀ p ∈ handles, p ≠ 0) :
    wp (clearContextByHandles cfg handles) (fun _ s' => Freed handles s s')
      (fun _ s' => Freed handles s s' ∧ ∃ p ∈ handles, s.allNdarrayContext.capacity ≤ p) s := by
  unfold clearContextByHandles
  rw [wp_bind]
  refine (wp_bind _ _).mpr ?_
  rw [wp_get]
  dsimp only
  simp only [foldl_freeSlot handles hne]
  split
  · next hrange => exact ⟨⟨rfl, rfl, rfl, rfl, rfl⟩, hrange⟩
  · exact ⟨rfl, rfl, rfl, rfl, rfl⟩

/-- What is held is given back. -/
theorem Partitioned.of_freed {handles : List SlotIdx} {s' : TGInferContextStore}
    (h : Partitioned held s) (hfreed : Freed handles s s') (hperm : handles.Perm held) :
    Partitioned [] s' := by
  constructor
  · rw [hfreed.capacity]
    refine .trans ?_ h.slots
    simp only [ContextStore.slots, hfreed.map, hfreed.aborted, hfreed.pool, List.nil_append]
    refine .trans ?_ (hperm.append_right _)
    refine .trans ?_ (List.perm_append_comm_assoc _ _ _).symm
    refine .append_left _ (.trans ?_ (List.perm_append_comm_assoc _ _ _).symm)
    exact .append_left _ ((List.reverse_perm handles).append_right _)
  · rw [hfreed.capacity, hfreed.base]
    exact h.grows

theorem wp_clearContextByHandles (h : Partitioned held s) {handles : List SlotIdx}
    (hperm : handles.Perm held) :
    wp (clearContextByHandles cfg handles) (fun _ s' => Partitioned [] s')
      (fun _ s' => Partitioned [] s') s :=
  wp_mono (wp_clearContextByHandles_freed s fun _ hp => h.ne_zero (hperm.subset hp))
    (fun _ _ hs => h.of_freed hs hperm) fun _ _ hs => h.of_freed hs.1 hperm

theorem wp_clearContextBySeqIds (h : Partitioned [] s) (ids : List Int) :
    wp (clearContextBySeqIds cfg ids) (fun _ s' => Partitioned [] s')
      (fun _ s' => Partitioned [] s') s := by
  unfold clearContextBySeqIds
  rw [wp_bind]
  refine wp_mono (wp_popContextHandles h ids) ?_ fun _ _ hs => hs.elim
  rintro popped s' ⟨-, hs'⟩
  rw [List.append_nil] at hs'
  have hfilter : popped.filter (· ≠ 0) = popped :=
    List.filter_eq_self.mpr fun p hp => decide_eq_true (hs'.ne_zero hp)
  rw [hfilter]
  split
  · -- the slots wait for the batch in flight
    refine ⟨.trans ?_ hs'.slots, hs'.grows⟩
    simp only [ContextStore.slots, List.nil_append, List.append_assoc]
    refine .trans ?_ (List.perm_append_comm_assoc _ _ _).symm
    exact .append_left _ (List.perm_append_comm_assoc _ _ _)
  · exact wp_clearContextByHandles hs' (.refl _)

/-- The flags are no matter of ownership. -/
theorem Partitioned.of_arrays (h : Partitioned held s) {c : NdarrayContext}
    (hpool : c.pool = s.allNdarrayContext.pool)
    (hcapacity : c.capacity = s.allNdarrayContext.capacity)
    (hbase : c.baseCapacity = s.allNdarrayContext.baseCapacity) :
    Partitioned held { s with allNdarrayContext := c } := by
  refine ⟨?_, ?_⟩
  · have hslots := h.slots
    rw [← hcapacity] at hslots
    simpa only [ContextStore.slots, hpool] using hslots
  · simpa only [hcapacity, hbase] using h.grows

theorem wp_clearAbortedContext (h : Partitioned [] s) :
    wp (clearAbortedContext cfg) (fun _ s' => Partitioned [] s')
      (fun _ s' => Partitioned [] s') s := by
  unfold clearAbortedContext
  rw [wp_bind, wp_get]
  dsimp only
  split
  · rw [wp_bind, wp_modify]
    -- the slots that have waited are held
    have hheld : Partitioned s.abortedContextHandles { s with abortedContextHandles := [] } := by
      refine ⟨.trans ?_ h.slots, h.grows⟩
      simp only [ContextStore.slots, List.nil_append]
      exact List.perm_append_comm_assoc _ _ _
    refine (wp_bind _ _).mpr ?_
    refine wp_mono (wp_clearContextByHandles hheld (.refl _)) ?_ fun _ _ hs => hs
    exact fun _ s' hs' => hs'.of_arrays rfl rfl rfl
  · exact h

/-! ### A round -/

theorem popAll_perm (h : Partitioned held s) {ids : List Int} {handles : List SlotIdx}
    (hslots : SlotsOf s.sequenceContextSlotMap ids handles) :
    handles.Perm (popAll s.sequenceContextSlotMap ids).2 := by
  obtain ⟨hnodup, hfind, hall⟩ := hslots
  rw [List.perm_ext_iff_of_nodup hnodup (nodup_popAll h.nodup_values ids)]
  intro p
  rw [mem_popAll]
  constructor
  · exact hfind p
  · rintro ⟨id, hid, hp⟩
    exact hall id hid p hp

/-- The slots that are still those of sequences. -/
theorem slotsOf_filterFinishedContext (h : Partitioned held s) (handles : List SlotIdx) :
    SlotsOf s.sequenceContextSlotMap (filterFinishedContext s.sequenceContextSlotMap handles).1
      (filterFinishedContext s.sequenceContextSlotMap handles).2 := by
  set map := s.sequenceContextSlotMap with hmap
  set found := map.entries.filter fun p => p.2 ∈ handles with hfound
  have hmem : ∀ id p, (⟨id, p⟩ : Sigma fun _ : Int => SlotIdx) ∈ found ↔
      map.lookup id = some p ∧ p ∈ handles := by
    intro id p
    rw [hfound, List.mem_filter, ← AList.mem_lookup_iff, Option.mem_def, decide_eq_true_eq]
  have hvalues : (found.map Sigma.snd).Nodup := by
    have hall : (map.entries.map Sigma.snd).Nodup := h.nodup_values
    exact hall.sublist (List.filter_sublist.map fun p : (Sigma fun _ : Int => SlotIdx) => p.2)
  have hsubset : found.map Sigma.snd ⊆ handles := by
    intro p hp
    obtain ⟨⟨id, q⟩, hq, rfl⟩ := List.mem_map.mp hp
    exact ((hmem id q).mp hq).2
  -- in both branches the handles are those that are found
  have hperm : (filterFinishedContext map handles).2.Perm (found.map Sigma.snd) := by
    unfold filterFinishedContext
    dsimp only
    split
    · exact .refl _
    · next hlength =>
      rw [not_not] at hlength
      refine ((List.subperm_of_subset hvalues hsubset).perm_of_length_le ?_).symm
      rw [List.length_map]
      exact hlength.le
  refine ⟨hperm.nodup_iff.mpr hvalues, fun p hp => ?_, fun id hid p hp => ?_⟩
  · obtain ⟨⟨id, p⟩, hmem', rfl⟩ := List.mem_map.mp (hperm.subset hp)
    exact ⟨id, List.mem_map_of_mem hmem', ((hmem id p).mp hmem').1⟩
  · obtain ⟨⟨id, q⟩, hq, rfl⟩ := List.mem_map.mp hid
    obtain rfl : q = p := Option.some.inj (((hmem id q).mp hq).1.symm.trans hp)
    exact hperm.symm.subset (List.mem_map_of_mem hq)

/-- What is cleared are the slots of the sequences that are cleared. -/
theorem slotsOf_toClear (h : Partitioned held s) {finished : List (Int × SlotIdx)}
    (hgood : Releases cfg s (.clearFinishedContext finished)) :
    SlotsOf s.sequenceContextSlotMap (toClear cfg s finished).1 (toClear cfg s finished).2 := by
  unfold toClear
  dsimp only
  by_cases hasync : cfg.contextParams.asyncInfer = true
  · rw [if_pos hasync]
    by_cases hlwd : cfg.contextParams.layerwiseDisaggregated = true
    · rw [if_pos hlwd]
      have hslots := hgood.resolve_left fun h => h.2 hlwd
      simp only [trusted, if_pos hasync] at hslots
      exact hslots
    · rw [if_neg hlwd]
      exact slotsOf_filterFinishedContext h _
  · rw [if_neg hasync]
    have hslots := hgood.resolve_left fun h => hasync h.1
    simp only [trusted, if_neg hasync] at hslots
    exact hslots

theorem Partitioned.reverseFlags (h : Partitioned held s) (handles : List SlotIdx) :
    Partitioned held
      { s with allNdarrayContext := reverseFlags cfg handles s.allNdarrayContext } := by
  unfold ContextStore.reverseFlags
  split
  · exact h.of_arrays rfl rfl rfl
  · dsimp only
    split <;> exact h.of_arrays rfl rfl rfl

theorem wp_clearFinishedContext (h : Partitioned [] s) {finished : List (Int × SlotIdx)}
    (hgood : Releases cfg s (.clearFinishedContext finished)) :
    wp (clearFinishedContext cfg finished) (fun _ s' => Partitioned [] s')
      (fun _ s' => Partitioned [] s') s := by
  have hslots := slotsOf_toClear h hgood
  -- the flags have changed, the map and the slots have not
  have hclear : ∀ s' : TGInferContextStore, Partitioned [] s' →
      s'.sequenceContextSlotMap = s.sequenceContextSlotMap →
      wp (do
        let _ ← popContextHandles (toClear cfg s finished).1
        clearContextByHandles cfg (toClear cfg s finished).2
        return (toClear cfg s finished).1) (fun _ s' => Partitioned [] s')
        (fun _ s' => Partitioned [] s') s' := by
    intro s' hs' hmap
    rw [wp_bind]
    refine wp_mono (wp_popContextHandles hs' _) ?_ fun _ _ hf => hf.elim
    rintro popped s'' ⟨hpopped, hs''⟩
    rw [wp_bind]
    rw [List.append_nil] at hs''
    refine wp_mono (wp_clearContextByHandles hs'' ?_) (fun _ _ hs => hs) fun _ _ hs => hs
    rw [hpopped]
    exact popAll_perm hs' (hmap.symm ▸ hslots)
  unfold clearFinishedContext
  rw [wp_bind, wp_get]
  dsimp only
  split
  · split
    · exact h
    · exact hclear _ (h.reverseFlags _) rfl
  · exact hclear s h rfl

theorem wp_resetAllContext (h : Partitioned [] s) (hpool : s.allNdarrayContext.pool = []) :
    wp (resetAllContext cfg) (fun _ s' => Partitioned [] s') (fun _ s' => Partitioned [] s') s := by
  unfold resetAllContext
  rw [wp_bind, wp_get]
  dsimp only
  rw [wp_bind]
  refine wp_mono (wp_clearContextByHandles_freed s ?_) ?_ ?_
  · exact fun p hp => (Nat.pos_iff_ne_zero.mp (List.mem_range'_1.mp hp).1)
  · -- the pool is all there is
    intro _ s' hs'
    constructor
    · simp only [ContextStore.slots, hs'.pool, hpool, hs'.capacity, values, List.append_nil]
      exact List.reverse_perm _
    · simpa only [hs'.capacity, hs'.base] using h.grows
  · rintro _ s' ⟨-, p, hp, hrange⟩
    have hlt := List.mem_range'_1.mp hp
    lia

/-! ## Runs -/

theorem after_of_wp {α : Type} {c : ContextM α} {P : TGInferContextStore → Prop}
    (h : wp c (fun _ s' => P s') (fun _ s' => P s') s) : P (after c s) := by
  unfold wp at h
  unfold after
  cases hc : c s <;> simpa only [hc] using h

theorem Partitioned.step (h : Partitioned [] s) {op : Op} (hgood : Releases cfg s op)
    {s' : TGInferContextStore} (hs : step cfg s op = some s') : Partitioned [] s' := by
  cases op with
  | getBatchContextHandles isDummyBatch isPrefill ids =>
    obtain rfl := Option.some.inj hs
    exact after_of_wp (wp_getBatchContextHandles h isDummyBatch isPrefill ids)
  | forkContext sequences =>
    obtain rfl := Option.some.inj hs
    exact after_of_wp (wp_forkContext h sequences)
  | clearContextBySeqIds ids =>
    obtain rfl := Option.some.inj hs
    exact after_of_wp (wp_clearContextBySeqIds h ids)
  | clearFinishedContext finished =>
    obtain rfl := Option.some.inj hs
    exact after_of_wp (wp_clearFinishedContext h hgood)
  | clearAbortedContext =>
    obtain rfl := Option.some.inj hs
    exact after_of_wp (wp_clearAbortedContext h)
  | resetAllContext =>
    obtain rfl := Option.some.inj hs
    exact after_of_wp (wp_resetAllContext h hgood)
  | write handle f =>
    obtain rfl := Option.some.inj hs
    exact ⟨h.slots, h.grows⟩

theorem partitioned_of_reaches (h : Reaches (step cfg) (Releases cfg) (ContextStore.init cfg) s) :
    Partitioned [] s :=
  h.invariant .init fun _ _ _ hs hgood hstep => hs.step hgood hstep

/-- **Each slot has one owner**, in every state that is reached by rounds that release the slots of
the sequences they release. -/
theorem slotsOwned_of_reaches
    (h : Reaches (step cfg) (Releases cfg) (ContextStore.init cfg) s) : SlotsOwned s :=
  (partitioned_of_reaches h).slotsOwned

section Example

/-- Two slots, with asynchronous inference or without. -/
private def small (asyncInfer layerwise : Bool) : BatchContextConfig where
  contextParams := { asyncInfer := asyncInfer, layerwiseDisaggregated := layerwise }
  cacheConfig := { cacheSize := 3, maxSeqLen := 4, maxGenLen := 4 }

/-- A sequence is prefilled, forked and finishes. -/
theorem slotsOwned_fork : ∃ s, Reaches (step (small false false)) (Releases (small false false))
    (ContextStore.init (small false false)) s ∧ SlotsOwned s ∧
      s.allNdarrayContext.pool = [2] := by
  obtain ⟨s, hs, hpool⟩ : ∃ s, Reaches (step (small false false)) (Releases (small false false))
      (ContextStore.init (small false false)) s ∧ s.allNdarrayContext.pool = [2] :=
    exists_reaches [.getBatchContextHandles false true [7], .forkContext [(7, 7), (8, 7)],
      .clearFinishedContext [(7, 2)]] (by decide +kernel)
  exact ⟨s, hs, slotsOwned_of_reaches hs, hpool⟩

/-- A sequence is done for the first time and is then removed; the batch in flight releases its
slot, and so does the list of aborted slots. -/
theorem not_slotsOwned : ∃ cfg s, Reaches (step cfg) (fun _ op => op.serves)
    (ContextStore.init cfg) s ∧ ¬SlotsOwned s := by
  obtain ⟨s, hs, hpool⟩ : ∃ s, Reaches (step (small true true)) (fun _ op => op.serves)
      (ContextStore.init (small true true)) s ∧ s.allNdarrayContext.pool = [2, 2, 1] :=
    exists_reaches [.getBatchContextHandles false true [7], .clearFinishedContext [(7, 2)],
      .clearContextBySeqIds [7], .clearFinishedContext [(7, 2)], .clearAbortedContext]
      (by decide +kernel)
  refine ⟨_, s, hs, fun howned => ?_⟩
  have hnodup := howned.freeOnce
  rw [hpool] at hnodup
  exact absurd hnodup (by decide)

end Example

end ContextStore

end MindieLLM
