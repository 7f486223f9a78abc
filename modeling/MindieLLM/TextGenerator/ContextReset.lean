import MindieLLM.TextGenerator.SlotOwnership

/-!
# What a reset leaves behind

The reset for the command to recover releases every slot but slot 0, whoever has it, and empties the
map. It does not empty the pool first. So a slot that is free when the reset comes is in the pool
twice afterwards, and two sequences get it.

## Main definitions

* `ContextStore.Resets`: the map is empty, the pool holds every slot but slot 0 once, and sequences
  that come later have slots of their own

## Main results

* `ContextStore.resets_iff`: a reset does this exactly if no slot is free
* `ContextStore.not_resets`: two sequences get one slot after the reset of a new context
-/

namespace MindieLLM

open Program

namespace ContextStore

variable (cfg : BatchContextConfig)

/-- A call that serves a batch, and releases the slots of the sequences it releases. -/
def ServesOwn (s : TGInferContextStore) (op : Op) : Prop :=
  op.serves ∧ Releases cfg s op

instance (s : TGInferContextStore) (op : Op) : Decidable (ServesOwn cfg s op) :=
  inferInstanceAs (Decidable (_ ∧ _))

/-- A reset really resets. -/
structure Resets (s : TGInferContextStore) : Prop where
  map : (after (resetAllContext cfg) s).sequenceContextSlotMap = ∅
  pool : (after (resetAllContext cfg) s).allNdarrayContext.pool.Perm
    (List.range' 1 ((after (resetAllContext cfg) s).allNdarrayContext.capacity - 1))
  later : ∀ s', Reaches (step cfg) (ServesOwn cfg) (after (resetAllContext cfg) s) s' →
    ∀ id id' h, s'.sequenceContextSlotMap.lookup id = some h →
      s'.sequenceContextSlotMap.lookup id' = some h → id = id'

variable {cfg} {s : TGInferContextStore}

/-! ## The size of the arrays -/

/-- The arrays are not smaller than they were made. -/
def Sized (s : TGInferContextStore) : Prop :=
  s.allNdarrayContext.baseCapacity ≤ s.allNdarrayContext.capacity

/-- A program that keeps them so, whether or not it raises. -/
def KeepsSize {α : Type} (c : ContextM α) : Prop :=
  ∀ s, Sized s → wp c (fun _ s' => Sized s') (fun _ s' => Sized s') s

namespace KeepsSize

variable {α β : Type} {c : ContextM α}

protected theorem pure (a : α) : KeepsSize (pure a : ContextM α) := fun _ h => h

protected theorem throw (e : PyError) : KeepsSize (throw e : ContextM α) := fun _ h => h

protected theorem get : KeepsSize (get : ContextM TGInferContextStore) := fun _ h => h

protected theorem modify {f : TGInferContextStore → TGInferContextStore}
    (hf : ∀ s, Sized s → Sized (f s)) : KeepsSize (modify f : ContextM PUnit) := hf

protected theorem bind (hc : KeepsSize c) {f : α → ContextM β} (hf : ∀ a, KeepsSize (f a)) :
    KeepsSize (c >>= f) := by
  intro s hs
  rw [wp_bind]
  refine wp_mono (hc s hs) ?_ fun _ _ h => h
  intro a s' hs'
  exact hf a s' hs'

protected theorem ite {p : Prop} [Decidable p] {d : ContextM α} (hc : KeepsSize c)
    (hd : KeepsSize d) : KeepsSize (if p then c else d) := by
  split
  · exact hc
  · exact hd

protected theorem mapM {f : β → ContextM α} (hf : ∀ b, KeepsSize (f b)) (xs : List β) :
    KeepsSize (xs.mapM f) :=
  fun _ hs => wp_mapM _ xs hs fun x s' hs' => hf x s' hs'

protected theorem raiseFrom (hc : KeepsSize c) (message : String) :
    KeepsSize (raiseFrom message c) :=
  fun s hs => wp_raiseFrom (hc s hs)

end KeepsSize

theorem keepsSize_growCapacity : KeepsSize (growCapacity cfg) := by
  refine .bind (.modify fun s hs => ?_) fun _ => .ite (.throw _) (.pure _)
  exact le_trans hs (Nat.le_add_right _ _)

theorem keepsSize_popPool : KeepsSize popPool := by
  refine .bind .get fun s => ?_
  cases s.allNdarrayContext.pool with
  | nil => exact .throw _
  | cons slot pool =>
    refine .bind (.modify ?_) fun _ => .pure _
    exact fun _ hs => hs

theorem keepsSize_allocateSlot : KeepsSize (allocateSlot cfg) := by
  intro s hs
  unfold allocateSlot
  rw [wp_bind, wp_get]
  by_cases hpool : s.allNdarrayContext.pool = []
  · rw [if_pos hpool]
    exact KeepsSize.bind keepsSize_growCapacity (fun _ => keepsSize_popPool) s hs
  · rw [if_neg hpool]
    exact keepsSize_popPool s hs

theorem keepsSize_getContextSlot (id : Int) (isPrefill : Bool) :
    KeepsSize (getContextSlot cfg id isPrefill) := by
  refine .bind .get fun s => ?_
  cases s.sequenceContextSlotMap.lookup id with
  | some slot => exact .pure _
  | none =>
    cases isPrefill with
    | false => exact .throw _
    | true =>
      refine .bind keepsSize_allocateSlot fun slot => .bind (.modify ?_) fun _ => .pure _
      exact fun _ hs => hs

theorem keepsSize_forkOne (id parent : Int) : KeepsSize (forkOne cfg id parent) := by
  unfold forkOne
  refine .ite (.pure _) (.bind (.raiseFrom (keepsSize_getContextSlot id true) _) fun handle => ?_)
  refine .ite (.pure _) (.bind (.raiseFrom (keepsSize_getContextSlot parent false) _) fun _ => ?_)
  exact .pure _

/-- Slots are put in the pool, and nothing else. -/
theorem sized_foldl_freeSlot (cfg : BatchContextConfig) (handles : List SlotIdx)
    (c : NdarrayContext) :
    (handles.foldl (NdarrayContext.freeSlot cfg) c).capacity = c.capacity ∧
      (handles.foldl (NdarrayContext.freeSlot cfg) c).baseCapacity = c.baseCapacity := by
  induction handles generalizing c with
  | nil => exact ⟨rfl, rfl⟩
  | cons p rest ih =>
    rw [List.foldl_cons, (ih _).1, (ih _).2, NdarrayContext.freeSlot]
    split <;> exact ⟨rfl, rfl⟩

theorem keepsSize_clearContextByHandles (handles : List SlotIdx) :
    KeepsSize (clearContextByHandles cfg handles) := by
  refine .bind (.modify fun s hs => ?_) fun _ => .bind .get fun s => ?_
  · obtain ⟨hcapacity, hbase⟩ := sized_foldl_freeSlot cfg handles s.allNdarrayContext
    change _ ≤ _
    rw [hcapacity, hbase]
    exact hs
  · have hrows : KeepsSize (modifyArrays fun c => c.clearRows cfg handles) :=
      .modify fun _ hs => hs
    dsimp only
    split
    · exact .bind (.throw _) fun _ => hrows
    · exact hrows

theorem keepsSize_popContextHandles (ids : List Int) : KeepsSize (popContextHandles ids) := by
  refine .bind .get fun s => .bind (.modify ?_) fun _ => .pure _
  exact fun _ hs => hs

theorem keepsSize_clearFinishedContext (finished : List (Int × SlotIdx)) :
    KeepsSize (clearFinishedContext cfg finished) := by
  have hflags : ∀ s, Sized s → Sized
      { s with allNdarrayContext :=
        reverseFlags cfg (finished.map Prod.snd) s.allNdarrayContext } := by
    intro s hs
    unfold reverseFlags
    split
    · exact hs
    · dsimp only
      split <;> exact hs
  refine .bind .get fun s => ?_
  have hclear : KeepsSize (do
      let _ ← popContextHandles (toClear cfg s finished).1
      clearContextByHandles cfg (toClear cfg s finished).2
      return (toClear cfg s finished).1) :=
    .bind (keepsSize_popContextHandles _) fun _ =>
      .bind (keepsSize_clearContextByHandles _) fun _ => .pure _
  dsimp only
  split
  · split
    · exact .bind (.throw _) fun _ => .bind (.modify hflags) fun _ => hclear
    · exact .bind (.modify hflags) fun _ => hclear
  · exact hclear

/-! ## The reset -/

/-- What a reset does. It does not fail, and the pool keeps what was in it. -/
theorem wp_resetAllContext_pool (cfg : BatchContextConfig) (s : TGInferContextStore) :
    wp (resetAllContext cfg) (fun _ s' => s'.sequenceContextSlotMap = ∅ ∧
        s'.abortedContextHandles = [] ∧
        s'.allNdarrayContext.pool =
          (List.range' 1 (s.allNdarrayContext.capacity - 1)).reverse ++ s.allNdarrayContext.pool ∧
        s'.allNdarrayContext.capacity = s.allNdarrayContext.capacity ∧
        s'.allNdarrayContext.baseCapacity = s.allNdarrayContext.baseCapacity)
      (fun _ _ => False) s := by
  unfold resetAllContext
  rw [wp_bind, wp_get, wp_bind]
  refine wp_mono (wp_clearContextByHandles_freed s fun p hp => ?_) ?_ ?_
  · exact Nat.pos_iff_ne_zero.mp (List.mem_range'_1.mp hp).1
  · intro _ s' hs'
    exact ⟨rfl, rfl, hs'.pool, hs'.capacity, hs'.base⟩
  · rintro _ s' ⟨-, p, hp, hle⟩
    have hmem := List.mem_range'_1.mp hp
    lia

theorem after_resetAllContext (cfg : BatchContextConfig) (s : TGInferContextStore) :
    (after (resetAllContext cfg) s).sequenceContextSlotMap = ∅ ∧
      (after (resetAllContext cfg) s).abortedContextHandles = [] ∧
      (after (resetAllContext cfg) s).allNdarrayContext.pool =
        (List.range' 1 (s.allNdarrayContext.capacity - 1)).reverse ++ s.allNdarrayContext.pool ∧
      (after (resetAllContext cfg) s).allNdarrayContext.capacity = s.allNdarrayContext.capacity ∧
      (after (resetAllContext cfg) s).allNdarrayContext.baseCapacity =
        s.allNdarrayContext.baseCapacity := by
  have hreset := wp_resetAllContext_pool cfg s
  unfold wp at hreset
  unfold after
  cases hc : resetAllContext cfg s with
  | ok a s' =>
    rw [hc] at hreset
    exact hreset
  | error e s' =>
    rw [hc] at hreset
    exact hreset.elim

theorem Sized.step (h : Sized s) {op : Op} {s' : TGInferContextStore}
    (hs : step cfg s op = some s') : Sized s' := by
  cases op with
  | getBatchContextHandles isDummyBatch isPrefill ids =>
    obtain rfl := Option.some.inj hs
    refine after_of_wp (KeepsSize.ite (.pure _) (.mapM (fun id => ?_) ids) s h)
    exact .ite (.pure _) (keepsSize_getContextSlot id isPrefill)
  | forkContext sequences =>
    obtain rfl := Option.some.inj hs
    refine after_of_wp (KeepsSize.bind (.mapM (fun p => ?_) sequences) (fun _ => ?_) s h)
    · exact keepsSize_forkOne p.1 p.2
    · refine .bind (.modify ?_) fun _ => .pure _
      exact fun _ hs => hs
  | clearContextBySeqIds ids =>
    obtain rfl := Option.some.inj hs
    refine after_of_wp (KeepsSize.bind (keepsSize_popContextHandles ids) (fun _ => ?_) s h)
    refine .ite (.modify ?_) (keepsSize_clearContextByHandles _)
    exact fun _ hs => hs
  | clearFinishedContext finished =>
    obtain rfl := Option.some.inj hs
    exact after_of_wp (keepsSize_clearFinishedContext finished s h)
  | clearAbortedContext =>
    obtain rfl := Option.some.inj hs
    refine after_of_wp (KeepsSize.bind .get (fun _ => .ite ?_ (.pure _)) s h)
    refine .bind (.modify ?_) fun _ => .bind (keepsSize_clearContextByHandles _) fun _ => .modify ?_
    · exact fun _ hs => hs
    · exact fun _ hs => hs
  | resetAllContext =>
    obtain rfl := Option.some.inj hs
    obtain ⟨-, -, -, hcapacity, hbase⟩ := after_resetAllContext cfg s
    unfold Sized
    rw [hcapacity, hbase]
    exact h
  | write handle f =>
    obtain rfl := Option.some.inj hs
    exact h

theorem sized_of_reaches
    (h : Reaches (step cfg) (fun _ _ => True) (ContextStore.init cfg) s) : Sized s :=
  h.invariant (le_refl _) fun _ _ _ hs _ hstep => hs.step hstep

/-- If no slot is free, the reset gives all of them back to the pool. -/
theorem Sized.partitioned_reset (cfg : BatchContextConfig) (h : Sized s)
    (hpool : s.allNdarrayContext.pool = []) :
    Partitioned [] (after (resetAllContext cfg) s) := by
  obtain ⟨hmap, haborted, hfree, hcapacity, hbase⟩ := after_resetAllContext cfg s
  rw [hpool, List.append_nil] at hfree
  constructor
  · rw [slots, hmap, haborted, hfree, hcapacity]
    exact List.reverse_perm _
  · rw [hcapacity, hbase]
    intro hzero
    exact Nat.le_zero.mp (hzero ▸ h)

/-- **When a reset really resets.** In every state that is reached, a reset leaves an empty map, a
pool with every slot but slot 0 once, and a context in which later sequences have slots of their
own, exactly if no slot is free before. -/
theorem resets_iff (h : Reaches (step cfg) (fun _ _ => True) (ContextStore.init cfg) s) :
    Resets cfg s ↔ s.allNdarrayContext.pool = [] := by
  obtain ⟨hmap, -, hfree, hcapacity, -⟩ := after_resetAllContext cfg s
  constructor
  · intro hreset
    -- every slot is put in the pool once, so there is no room for those that were in it
    have hlength := hreset.pool.length_eq
    rw [hfree, hcapacity, List.length_append, List.length_reverse] at hlength
    exact List.eq_nil_of_length_eq_zero (by omega)
  · intro hpool
    have hpartitioned := (sized_of_reaches h).partitioned_reset cfg hpool
    refine ⟨hmap, ?_, ?_⟩
    · rw [hfree, hcapacity, hpool, List.append_nil]
      exact List.reverse_perm _
    · intro s' hs' id id' p hid hid'
      have howned := hs'.invariant hpartitioned fun _ _ _ hs hgood hstep =>
        hs.step hgood.2 hstep
      exact howned.slotsOwned.injective id id' p hid hid'

section Example

/-- Two slots. -/
private def twoSlots : BatchContextConfig where
  cacheConfig := { cacheSize := 3, maxSeqLen := 4, maxGenLen := 4 }

/-- Both slots are in use, and the reset resets. -/
theorem resets_full : ∃ s, Reaches (step twoSlots) (fun _ _ => True)
    (ContextStore.init twoSlots) s ∧ Resets twoSlots s := by
  obtain ⟨s, hs, hpool⟩ : ∃ s, Reaches (step twoSlots) (fun _ _ => True)
      (ContextStore.init twoSlots) s ∧ s.allNdarrayContext.pool = [] :=
    exists_reaches [.getBatchContextHandles false true [7, 8]] (by decide +kernel)
  exact ⟨s, hs, (resets_iff hs).mpr hpool⟩

/-- After the reset of a new context the third sequence gets the slot of the first. -/
theorem not_resets : ∃ cfg s, Reaches (step cfg) (fun _ _ => True) (ContextStore.init cfg) s ∧
    ¬Resets cfg s := by
  obtain ⟨s, hs, hseven, hnine⟩ : ∃ s, Reaches (step twoSlots) (ServesOwn twoSlots)
      (after (resetAllContext twoSlots) (ContextStore.init twoSlots)) s ∧
      s.sequenceContextSlotMap.lookup 7 = some 2 ∧ s.sequenceContextSlotMap.lookup 9 = some 2 :=
    exists_reaches [.getBatchContextHandles false true [7, 8, 9]] (by decide +kernel)
  refine ⟨twoSlots, _, .start, fun hreset => ?_⟩
  have hsame : (7 : Int) = 9 := hreset.later s hs 7 9 2 hseven hnine
  exact absurd hsame (by decide)

end Example

end ContextStore

end MindieLLM
