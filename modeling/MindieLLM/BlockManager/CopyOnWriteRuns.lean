import MindieLLM.BlockManager.CopyOnWriteTables

/-!
# A table and its fork

After a fork, the table and its fork are appended to in any order, whether the appends return or
throw. Neither of them sees what is appended to the other one. A copy is noted for each block of the
two that has another id than at the fork; these blocks had room for more tokens.

## Main definitions

* `ForkedPair`: a table and its fork
* `append`, `run`: what one append does, and what any number of them do
* `Isolates`: what holds after the appends

## Main results

* `run_isolates`: it holds whatever has been done to the tables before the fork
* `not_one_pair_for_each_partly_filled`: a copy is also made of an empty block, the old id of a copy
  may be that of a third table only, and an append that throws may go without a copy
-/

namespace MindieLLM

open Program HashLessBlockAllocator BlockTable

variable {HashValue : Type}

/-- A table, or the fork of it. -/
inductive Side
  | table
  | forked
  deriving DecidableEq

def Side.other : Side → Side
  | .table => .forked
  | .forked => .table

theorem Side.other_ne (side : Side) : side.other ≠ side := by
  cases side <;> decide

theorem Side.other_other (side : Side) : side.other.other = side := by
  cases side <;> rfl

theorem Side.forall_iff (side : Side) {P : Side → Prop} :
    (∀ side', P side') ↔ P side ∧ P side.other := by
  refine ⟨fun h => ⟨h side, h side.other⟩, fun ⟨hself, hother⟩ side' => ?_⟩
  cases side <;> cases side' <;> assumption

/-- A call of `AppendTokenIds` on one of the two. -/
structure Append (HashValue : Type) where
  side : Side
  tokenIds : List TokenId
  extraHash : HashValue
  numLookaheadSlots : ℕ

def Append.call [PrefixHasher HashValue] (a : Append HashValue) :
    TableM HashValue (HashLessBlockAllocator HashValue) Unit :=
  BlockTable.appendTokenIds a.tokenIds a.extraHash a.numLookaheadSlots

/-- A table and its fork, over the same allocators. -/
structure ForkedPair (HashValue : Type) where
  world : Devices HashValue
  tables : Side → BlockTable

namespace ForkedPair

abbrev blocks (y : ForkedPair HashValue) (side : Side) : List Ptr := (y.tables side).blockObjs 0

abbrev id (y : ForkedPair HashValue) (p : Ptr) : BlockId := (y.world.mem.obj p).blockId

abbrev tokenIds (y : ForkedPair HashValue) (p : Ptr) : List TokenId := (y.world.mem.obj p).tokenIds

/-- The blocks of both. -/
def objects (y : ForkedPair HashValue) : Finset Ptr :=
  (y.blocks .table ++ y.blocks .forked).toFinset

/-- What one of them reports: its list of ids, and the id and the tokens of each block. -/
def reports (y : ForkedPair HashValue) (side : Side) :
    List BlockId × List (BlockId × List TokenId) :=
  ((y.tables side).blockIds, (y.blocks side).map (cell y.world.mem))

theorem mem_objects {y : ForkedPair HashValue} {p : Ptr} :
    p ∈ y.objects ↔ ∃ side, p ∈ y.blocks side := by
  rw [objects, List.mem_toFinset, List.mem_append]
  constructor
  · rintro (hp | hp)
    · exact ⟨_, hp⟩
    · exact ⟨_, hp⟩
  · rintro ⟨side, hp⟩
    cases side with
    | table => exact .inl hp
    | forked => exact .inr hp

/-- An operation of one of them. -/
def setTable (y : ForkedPair HashValue) (side : Side) (s' : HashLessTable HashValue) :
    ForkedPair HashValue :=
  ⟨s'.world, Function.update y.tables side s'.table⟩

variable [PrefixHasher HashValue]

/-- What an append does, whether it returns or throws. -/
def append (y : ForkedPair HashValue) (a : Append HashValue) : ForkedPair HashValue :=
  y.setTable a.side (stateAfter a.call ⟨y.tables a.side, y.world⟩)

/-- What appends do, one after the other. -/
def run (y : ForkedPair HashValue) (appends : List (Append HashValue)) : ForkedPair HashValue :=
  appends.foldl append y

def returns (y : ForkedPair HashValue) (a : Append HashValue) : Prop :=
  valueOf a.call ⟨y.tables a.side, y.world⟩ = some ()

/-- None of the appends throws. -/
def allReturn : ForkedPair HashValue → List (Append HashValue) → Prop
  | _, [] => True
  | y, a :: rest => y.returns a ∧ allReturn (y.append a) rest

instance decidableAllReturn :
    (y : ForkedPair HashValue) → (appends : List (Append HashValue)) →
      Decidable (y.allReturn appends)
  | _, [] => isTrue trivial
  | y, a :: rest =>
    have := decidableAllReturn (y.append a) rest
    inferInstanceAs (Decidable (valueOf a.call ⟨y.tables a.side, y.world⟩ = some () ∧
      (y.append a).allReturn rest))

end ForkedPair

/-- A table with its fork. -/
def Sequences.forkPair [PrefixHasher HashValue] (x : Sequences HashValue) (i : ℕ) :
    Option (ForkedPair HashValue) :=
  match BlockTable.fork ⟨x.tables i, x.world⟩ with
  | .ok t s => some ⟨s.world, fun | .table => x.tables i | .forked => t⟩
  | .error _ _ => none

/-! ## What appends preserve -/

namespace HashLessBlockAllocator

/-- Steps at the blocks `bs` and at new ones lead from one state to another. -/
theorem Steps.diverged {s₀ : Sharing Ptr BlockId TokenId} {bs : Finset Ptr}
    {x y : Owner HashValue} (hsteps : Steps x y) (h : s₀.Diverged bs (sharing x.world x.used))
    (hblocks : ∀ p ∈ x.blocks, p ∈ bs ∨ p ∉ s₀.used) :
    s₀.Diverged bs (sharing y.world y.used) ∧ ∀ p ∈ y.blocks, p ∈ bs ∨ p ∉ s₀.used := by
  induction hsteps with
  | refl => exact ⟨h, hblocks⟩
  | tail _ hstep ih =>
    obtain ⟨h, hblocks⟩ := ih
    cases hstep with
    | write hp happ => exact ⟨h.wrote happ.wrote (hblocks _ hp), hblocks⟩
    | take htake =>
      refine ⟨h.took htake.took, fun q hq => ?_⟩
      rcases List.mem_append.mp hq with hq | hq
      · exact hblocks q hq
      · rw [List.mem_singleton.mp hq]
        exact .inr fun hmem => htake.took.fresh (h.subset _ hmem)

end HashLessBlockAllocator

namespace ForkedPair

variable {start y : ForkedPair HashValue} {used₀ used used' : Finset Ptr} {p q : Ptr}

/-- Appends have led from the fork to another state. -/
structure Follows (start : ForkedPair HashValue) (used₀ : Finset Ptr) (y : ForkedPair HashValue)
    (used : Finset Ptr) : Prop where
  kept : ∀ side, Kept ⟨y.world, used, y.blocks side⟩
  disjoint : ∀ side, ∀ p ∈ y.blocks side, p ∉ y.blocks side.other
  blockSize : ∀ side, 0 < (y.tables side).blockSize
  nonempty : used.Nonempty
  grown : ∀ side, ∃ qs, y.blocks side = start.blocks side ++ qs ∧ ∀ q ∈ qs, q ∉ used₀
  diverged : (sharing start.world used₀).Diverged start.objects (sharing y.world used)

/-- A block of one of them was there at the fork, or is new. -/
theorem Follows.mem_or_fresh (h : Follows start used₀ y used) {side : Side}
    (hp : p ∈ y.blocks side) : p ∈ start.objects ∨ p ∉ used₀ := by
  obtain ⟨qs, hqs, hnew⟩ := h.grown side
  rw [hqs, List.mem_append] at hp
  exact hp.imp (fun hp => mem_objects.mpr ⟨side, hp⟩) (hnew p)

/-- The blocks of the other one stay as they are. -/
theorem frame_of_grows (h : Follows start used₀ y used) {side : Side}
    {s' : HashLessTable HashValue} (hgrows : Grows ⟨y.tables side, y.world⟩ used s' used') :
    ∀ p ∈ y.blocks side.other, s'.world.mem.obj p = y.world.mem.obj p := fun p hp =>
  (Steps.extended (h.kept side) hgrows.steps).frame p ((h.kept side.other).subset p hp)
    fun hmem => h.disjoint side p hmem hp

@[simp] theorem setTable_tables_self (side : Side) (s' : HashLessTable HashValue) :
    (y.setTable side s').tables side = s'.table := Function.update_self ..

@[simp] theorem setTable_tables_other (side : Side) (s' : HashLessTable HashValue) :
    (y.setTable side s').tables side.other = y.tables side.other :=
  Function.update_of_ne side.other_ne ..

/-- **What an append preserves.** -/
theorem Follows.grows (h : Follows start used₀ y used) {side : Side} {s' : HashLessTable HashValue}
    (hgrows : Grows ⟨y.tables side, y.world⟩ used s' used') :
    Follows start used₀ (y.setTable side s') used' := by
  have hext := Steps.extended (h.kept side) hgrows.steps
  have hkept := hgrows.kept (h.kept side)
  obtain ⟨qs, hqs, hnew⟩ := hext.new
  change s'.table.blockObjs 0 = y.blocks side ++ qs at hqs
  have hsub : ∀ p ∈ used, p ∈ used' := fun p hp => (hext.used p).mpr (.inl hp)
  have hdisjoint : ∀ p ∈ s'.table.blockObjs 0, p ∉ y.blocks side.other := by
    intro p hp
    rw [hqs, List.mem_append] at hp
    rcases hp with hp | hp
    · exact h.disjoint side p hp
    · exact fun hmem => hnew p hp ((h.kept side.other).subset p hmem)
  refine ⟨side.forall_iff.mpr ⟨?_, ?_⟩, side.forall_iff.mpr ⟨?_, ?_⟩, side.forall_iff.mpr ⟨?_, ?_⟩,
    h.nonempty.mono hsub, side.forall_iff.mpr ⟨?_, ?_⟩,
    (hgrows.steps.diverged h.diverged fun p hp => h.mem_or_fresh hp).1⟩
  · rw [blocks, setTable_tables_self]
    exact hkept
  · rw [blocks, setTable_tables_other]
    exact (h.kept side.other).congr hkept.sound
      (fun p hp => hsub p ((h.kept side.other).subset p hp)) (frame_of_grows h hgrows)
  · rw [blocks, blocks, setTable_tables_self, setTable_tables_other]
    exact hdisjoint
  · rw [Side.other_other, blocks, blocks, setTable_tables_self, setTable_tables_other]
    exact fun p hp hmem => hdisjoint p hmem hp
  · rw [setTable_tables_self, hgrows.blockSize]
    exact h.blockSize side
  · rw [setTable_tables_other]
    exact h.blockSize side.other
  · obtain ⟨rs, hrs, hfresh⟩ := h.grown side
    rw [blocks, setTable_tables_self, hqs, hrs, List.append_assoc]
    refine ⟨_, rfl, fun q hq => ?_⟩
    rcases List.mem_append.mp hq with hq | hq
    · exact hfresh q hq
    · exact fun hmem => hnew q hq (h.diverged.subset q hmem)
  · rw [blocks, setTable_tables_other]
    exact h.grown side.other

variable [PrefixHasher HashValue]

/-- An append takes steps; if it returns then no block loses its id. -/
theorem append_grows (h : Follows start used₀ y used) (a : Append HashValue) :
    ∃ used', Grows ⟨y.tables a.side, y.world⟩ used
        (stateAfter a.call ⟨y.tables a.side, y.world⟩) used' ∧
      (y.returns a → KeepsIds (owner ⟨y.tables a.side, y.world⟩ used)
        (owner (stateAfter a.call ⟨y.tables a.side, y.world⟩) used')) := by
  have hsteps := wp_appendTokenIds_steps (s := ⟨y.tables a.side, y.world⟩) (h.kept a.side)
    h.nonempty (h.blockSize a.side) a.tokenIds a.extraHash a.numLookaheadSlots
  unfold returns stateAfter valueOf
  cases hrun : a.call ⟨y.tables a.side, y.world⟩ with
  | ok _ s' =>
    obtain ⟨used', hgrows, hids⟩ := wp_ok hsteps hrun
    exact ⟨used', hgrows, fun _ => hids⟩
  | error e s' =>
    obtain ⟨used', hgrows⟩ := wp_error hsteps hrun
    exact ⟨used', hgrows, fun hok => absurd hok (by simp)⟩

/-- **The other one reports what it did before.** -/
theorem reports_append (h : Follows start used₀ y used) (a : Append HashValue) :
    (y.append a).reports a.side.other = y.reports a.side.other := by
  obtain ⟨used', hgrows, -⟩ := append_grows h a
  have hother : (y.append a).tables a.side.other = y.tables a.side.other :=
    setTable_tables_other a.side _
  rw [reports, reports, blocks, hother, Prod.mk.injEq]
  refine ⟨rfl, List.map_congr_left fun p hp => ?_⟩
  have hframe : (y.append a).world.mem.obj p = y.world.mem.obj p := frame_of_grows h hgrows p hp
  rw [cell, cell, hframe]

/-- Any number of appends lead from the fork to another state. -/
theorem Follows.run (h : Follows start used₀ y used) (appends : List (Append HashValue)) :
    ∃ used', Follows start used₀ (y.run appends) used' ∧ (y.allReturn appends →
      (∀ p ∈ used, y.id p ≠ invalidBlockId) →
      ∀ p ∈ used', (y.run appends).id p ≠ invalidBlockId) := by
  induction appends generalizing y used with
  | nil => exact ⟨used, h, fun _ hvalid => hvalid⟩
  | cons a rest ih =>
    obtain ⟨used₁, hgrows, hkeeps⟩ := append_grows h a
    obtain ⟨used', hfollows, hids⟩ := ih (h.grows hgrows)
    refine ⟨used', hfollows, fun hreturn hvalid => hids hreturn.2 fun p hp hlost => ?_⟩
    obtain ⟨hmem, hid⟩ := hkeeps hreturn.1 p hp hlost
    exact hvalid p hmem hid

end ForkedPair

/-! ## The fork -/

open ForkedPair

variable {x : Sequences HashValue} {i : ℕ} {start now : ForkedPair HashValue}
  {used used₀ : Finset Ptr} {p q : Ptr}

/-- A table and the fork that has just been made of it, among the tables of other sequences. -/
structure Forks (x : Sequences HashValue) (i : ℕ) (start : ForkedPair HashValue)
    (used₀ : Finset Ptr) : Prop where
  follows : Follows start used₀ start used₀
  valid : ∀ p ∈ used₀, start.id p ≠ invalidBlockId
  cells : (start.blocks .forked).map (cell start.world.mem) =
    (start.blocks .table).map (cell start.world.mem)
  others : ∀ p ∈ used₀, p ∈ start.objects ∨ ∃ j, j ≠ i ∧ p ∈ (x.tables j).blockObjs 0

theorem Sequences.InOrder.forks [PrefixHasher HashValue] (h : x.InOrder used)
    (hfork : x.forkPair i = some start) : ∃ used₀, Forks x i start used₀ := by
  unfold Sequences.forkPair at hfork
  cases hrun : BlockTable.fork (⟨x.tables i, x.world⟩ : HashLessTable HashValue) with
  | error e s =>
    rw [hrun] at hfork
    cases hfork
  | ok t s =>
    rw [hrun] at hfork
    obtain rfl := Option.some.inj hfork
    obtain ⟨hne, hjoins, hcells, -, -, hsize⟩ :=
      wp_ok (wp_fork_joins (h.kept i) (h.rankSize i)) hrun
    have hids := nodup_ids_of_cells hcells (h.nodup_ids i)
    have hold : ∀ p ∈ used, s.world.mem.obj p = x.world.mem.obj p :=
      fun p hp => hjoins.frame p fun hmem => hjoins.fresh p hmem hp
    have hsub : ∀ p ∈ (x.tables i).blockObjs 0, p ∈ used := (h.kept i).subset
    have hnew : ∀ p ∈ t.blockObjs 0, p ∈ used ∪ (t.blockObjs 0).toFinset :=
      fun p hp => Finset.mem_union_right _ (List.mem_toFinset.mpr hp)
    have htable : Kept ⟨s.world, used ∪ (t.blockObjs 0).toFinset, (x.tables i).blockObjs 0⟩ :=
      (h.kept i).congr hjoins.sound (fun p hp => Finset.mem_union_left _ (hsub p hp))
        fun p hp => hold p (hsub p hp)
    have hforked : Kept ⟨s.world, used ∪ (t.blockObjs 0).toFinset, t.blockObjs 0⟩ :=
      ⟨hjoins.sound, hnew, hjoins.nodup, hjoins.linked, fun p hp q hq hne heq =>
        absurd (List.inj_on_of_nodup_map hids hq hp heq) hne⟩
    refine ⟨used ∪ (t.blockObjs 0).toFinset, ⟨Side.forall_iff .table |>.mpr ⟨htable, hforked⟩,
      Side.forall_iff .table |>.mpr ⟨fun p hp hmem => hjoins.fresh p hmem (hsub p hp),
        fun p hp hmem => hjoins.fresh p hp (hsub p hmem)⟩,
      Side.forall_iff .table |>.mpr ⟨h.blockSize i, hsize ▸ h.blockSize i⟩, ?_,
      fun side => ⟨[], (List.append_nil _).symm, by simp⟩, .refl fun p hp => ?_⟩, fun p hp => ?_,
      hcells.trans ?_, fun p hp => ?_⟩
    · obtain ⟨p, hp⟩ := List.exists_mem_of_ne_nil _ hne
      exact ⟨p, htable.subset p hp⟩
    · obtain ⟨side, hp⟩ := mem_objects.mp hp
      cases side with
      | table => exact htable.subset p hp
      | forked => exact hforked.subset p hp
    · rcases Finset.mem_union.mp hp with hp | hp
      · change (s.world.mem.obj p).blockId ≠ invalidBlockId
        rw [hold p hp]
        exact h.ne_invalid p hp
      · exact hjoins.ne_invalid p (List.mem_toFinset.mp hp)
    · exact List.map_congr_left fun p hp => by rw [cell, cell, hold p (hsub p hp)]
    · rcases Finset.mem_union.mp hp with hp | hp
      · obtain ⟨j, hj⟩ := (h.mem_used p).mp hp
        by_cases hji : j = i
        · exact .inl (mem_objects.mpr ⟨.table, hji ▸ hj⟩)
        · exact .inr ⟨j, hji, hj⟩
      · exact .inl (mem_objects.mpr ⟨.forked, List.mem_toFinset.mp hp⟩)

namespace Forks

/-- A block of the one is the same block of the other. -/
theorem cell_eq (h : Forks x i start used₀) {side : Side} {k : ℕ}
    (hp : (start.blocks side)[k]? = some p) (hq : (start.blocks side.other)[k]? = some q) :
    cell start.world.mem q = cell start.world.mem p := by
  have hk := congrArg (·[k]?) h.cells
  simp only [List.getElem?_map] at hk
  cases side with
  | table =>
    rw [hp, show (start.blocks .forked)[k]? = some q from hq] at hk
    exact Option.some.inj hk
  | forked =>
    rw [hp, show (start.blocks .table)[k]? = some q from hq] at hk
    exact (Option.some.inj hk).symm

/-- Only the same block of the other one, and blocks of other tables, have the id of a block. -/
theorem sharer (h : Forks x i start used₀) {side : Side} {k : ℕ} {r : Ptr}
    (hp : (start.blocks side)[k]? = some p) (hq : (start.blocks side.other)[k]? = some q)
    (hr : r ∈ used₀) (hne : r ≠ p) (hid : start.id r = start.id p) :
    r = q ∨ ∃ j, j ≠ i ∧ r ∈ (x.tables j).blockObjs 0 := by
  have hvalid : ∀ side p, p ∈ start.blocks side → start.id p ≠ invalidBlockId :=
    fun side p hp => h.valid p ((h.follows.kept side).subset p hp)
  have hpmem := List.mem_of_getElem? hp
  have hqmem := List.mem_of_getElem? hq
  rcases h.others r hr with hr | hr
  · obtain ⟨side', hr⟩ := mem_objects.mp hr
    refine .inl (by_contra fun hnq => ?_)
    revert side'
    refine side.forall_iff.mpr ⟨fun hr => ?_, fun hr => ?_⟩
    · exact hvalid side p hpmem ((h.follows.kept side).distinct p hpmem r hr hne hid)
    · have hidq : start.id r = start.id q := hid.trans (congrArg Prod.fst (h.cell_eq hp hq)).symm
      exact hvalid side.other q hqmem
        ((h.follows.kept side.other).distinct q hqmem r hr hnq hidq)
  · exact .inr hr

end Forks

/-! ## Isolation -/

/-- What holds after appends to a table and its fork. The fork was made of the table of the sequence
`i`. -/
structure Isolates [PrefixHasher HashValue] (x : Sequences HashValue) (i : ℕ)
    (start now : ForkedPair HashValue) : Prop where
  isolated : ∀ a, (now.append a).reports a.side.other = now.reports a.side.other
  blocks : ∀ side, ∃ qs, now.blocks side = start.blocks side ++ qs
  copies : copies now.world = copies start.world +
    (start.objects.filter fun p => now.id p ≠ start.id p ∧ now.id p ≠ invalidBlockId).val.map
      fun p => (start.id p, now.id p)
  appended : ∀ p ∈ start.objects, now.id p ≠ start.id p → now.tokenIds p ≠ start.tokenIds p ∧
    (start.tokenIds p).length < (start.world.mem.obj p).blockSize
  owned : ∀ (side : Side) (k : ℕ) (p q : Ptr), (start.blocks side)[k]? = some p →
    (start.blocks side.other)[k]? = some q → now.id p ≠ start.id p → now.id q = start.id p ∨
      ∃ j, j ≠ i ∧ ∃ r ∈ (x.tables j).blockObjs 0, now.id r = start.id p
  separated : ∀ (side : Side) (k : ℕ) (p q : Ptr), (start.blocks side)[k]? = some p →
    (start.blocks side.other)[k]? = some q → now.tokenIds p ≠ start.tokenIds p →
    now.id p ≠ start.id p ∨ now.id q ≠ start.id q

/-- What has been followed from the fork on isolates the two. -/
theorem Forks.isolates [PrefixHasher HashValue] (h : Forks x i start used₀)
    (hfollows : Follows start used₀ now used) : Isolates x i start now := by
  have hdiverged := hfollows.diverged
  have hobjects : ∀ {side k p}, (start.blocks side)[k]? = some p → p ∈ start.objects :=
    fun hp => mem_objects.mpr ⟨_, List.mem_of_getElem? hp⟩
  refine ⟨fun a => reports_append hfollows a, fun side => ?_, hdiverged.copies,
    fun p hp hid => ?_, fun side k p q hp hq hid => ?_, fun side k p q hp hq htokens => ?_⟩
  · obtain ⟨qs, hqs, -⟩ := hfollows.grown side
    exact ⟨qs, hqs⟩
  · have hwritten := (hdiverged.relabelled p hp hid).1
    exact ⟨hwritten, hdiverged.room p hp hwritten⟩
  · obtain ⟨-, r, hr, hne, hstart, hnow⟩ := hdiverged.relabelled p (hobjects hp) hid
    rcases h.sharer hp hq hr hne hstart with rfl | ⟨j, hj, hmem⟩
    · exact .inl hnow
    · exact .inr ⟨j, hj, r, hmem, hnow⟩
  · have hqused := hdiverged.objects q (hobjects hq)
    have hdisjoint : q ≠ p := by
      rintro rfl
      exact h.follows.disjoint side q (List.mem_of_getElem? hp) (List.mem_of_getElem? hq)
    exact hdiverged.relabelled_or (hobjects hp) htokens hqused hdisjoint
      (h.valid p (hdiverged.objects p (hobjects hp))) (congrArg Prod.fst (h.cell_eq hp hq))

/-- **A table and its fork are isolated**, whatever has been done to the tables before the fork and
whatever is appended to the two after it. As long as no append throws, no block loses its id. -/
theorem run_isolates [PrefixHasher HashValue] {config : AllocatorConfig} {w : Devices HashValue}
    {t : BlockTable} (hrank : config.rankSize = 1) (hw : CpuNpuBlockAllocator.new config = .ok w)
    (ht : BlockTable.new config.blockSize config.rankSize = .ok t)
    (h : Reaches Sequences.step (fun _ _ => True) ⟨w, fun _ => t⟩ x)
    (hfork : x.forkPair i = some start) (appends : List (Append HashValue)) :
    Isolates x i start (start.run appends) ∧ (start.allReturn appends →
      ∀ side, ∀ p ∈ (start.run appends).blocks side,
        (start.run appends).id p ≠ invalidBlockId) := by
  obtain ⟨used, hinOrder⟩ := Sequences.inOrder_of_reaches hrank hw ht h
  obtain ⟨used₀, hforks⟩ := hinOrder.forks hfork
  obtain ⟨used', hfollows, hids⟩ := hforks.follows.run appends
  refine ⟨hforks.isolates hfollows, fun hreturn side p hp => ?_⟩
  exact hids hreturn hforks.valid p ((hfollows.kept side).subset p hp)

/-- Blocks of two slots, as many as given. -/
def twoSlots (numNpuBlocks : ℕ) : AllocatorConfig where
  numCpuBlocks := 0
  numNpuBlocks := numNpuBlocks
  blockSize := 2

/-- A prompt of three tokens, and a token for each of the two after the fork. -/
theorem run_isolates_three :
    ∃ (w : Devices UInt64) (t : BlockTable) (x : Sequences UInt64) (start : ForkedPair UInt64),
      CpuNpuBlockAllocator.new (twoSlots 8) = .ok w ∧ BlockTable.new 2 1 = .ok t ∧
      Reaches Sequences.step (fun _ _ => True) ⟨w, fun _ => t⟩ x ∧ x.forkPair 0 = some start ∧
      Isolates x 0 start (start.run [⟨.table, [4], 0, 0⟩, ⟨.forked, [5], 0, 0⟩]) ∧
      ∀ side, ∀ p ∈ (start.run [⟨.table, [4], 0, 0⟩, ⟨.forked, [5], 0, 0⟩]).blocks side,
        (start.run [⟨.table, [4], 0, 0⟩, ⟨.forked, [5], 0, 0⟩]).id p ≠ invalidBlockId := by
  have hrun : ∀ (w : Devices UInt64) (t : BlockTable),
      CpuNpuBlockAllocator.new (twoSlots 8) = .ok w → BlockTable.new 2 1 = .ok t →
      ((execAll Sequences.step (fun _ _ => True) ⟨w, fun _ => t⟩
        [.allocate 0 [1, 2, 3] .npu 0]).bind fun x => (x.forkPair 0).map fun start =>
          decide (start.allReturn [⟨.table, [4], 0, 0⟩, ⟨.forked, [5], 0, 0⟩])) = some true := by
    rintro _ _ ⟨⟩ ⟨⟩
    decide +kernel
  obtain ⟨x, hx, hrun⟩ := Option.bind_eq_some_iff.mp (hrun _ _ rfl rfl)
  obtain ⟨start, hstart, hreturn⟩ := Option.map_eq_some_iff.mp hrun
  have hisolates := run_isolates (show (twoSlots 8).rankSize = 1 from rfl) rfl rfl
    (reaches_of_execAll hx) hstart [⟨.table, [4], 0, 0⟩, ⟨.forked, [5], 0, 0⟩]
  exact ⟨_, _, x, start, rfl, rfl, reaches_of_execAll hx, hstart, hisolates.1,
    hisolates.2 (of_decide_eq_true hreturn)⟩

/-! ## Copies that are not of partly filled blocks of the two -/

/-- What is seen of a run. -/
structure Seen where
  atFork : List BlockId × List (BlockId × List TokenId)
  table : List BlockId × List (BlockId × List TokenId)
  forked : List BlockId × List (BlockId × List TokenId)
  copies : List (BlockId × BlockId)
  deriving DecidableEq

def see (start now : ForkedPair UInt64) : Seen where
  atFork := start.reports .table
  table := now.reports .table
  forked := now.reports .forked
  copies := (now.world.alloc.allocators .npu 0).cowTracker.copyOnWrites

/-- After some actions the table of the sequence 0 is forked, and appends to the two lead to what is
seen. -/
def Shows (config : AllocatorConfig) (appends : List (Append UInt64)) (seen : Seen) : Prop :=
  ∃ w t x start, CpuNpuBlockAllocator.new config = .ok w ∧
    BlockTable.new config.blockSize config.rankSize = .ok t ∧
    Reaches Sequences.step (fun _ _ => True) ⟨w, fun _ => t⟩ x ∧ x.forkPair 0 = some start ∧
    see start (start.run appends) = seen

/-- The same for given actions. -/
def exhibit (config : AllocatorConfig) (actions : List (Sequences.Action UInt64))
    (appends : List (Append UInt64)) : Option Seen :=
  match CpuNpuBlockAllocator.new config, BlockTable.new config.blockSize config.rankSize with
  | .ok w, .ok t =>
    (execAll Sequences.step (fun _ _ => True) ⟨w, fun _ => t⟩ actions).bind fun x =>
      (x.forkPair 0).map fun start => see start (start.run appends)
  | _, _ => none

theorem shows_of_exhibit {config : AllocatorConfig} (actions : List (Sequences.Action UInt64))
    {appends : List (Append UInt64)} {seen : Seen}
    (h : exhibit config actions appends = some seen) : Shows config appends seen := by
  unfold exhibit at h
  split at h
  · next w t hw ht =>
    obtain ⟨x, hx, h⟩ := Option.bind_eq_some_iff.mp h
    obtain ⟨start, hstart, hseen⟩ := Option.map_eq_some_iff.mp h
    exact ⟨w, t, x, start, hw, ht, reaches_of_execAll hx, hstart, hseen⟩
  · cases h

/-- **The copies are not one for each partly filled block.** A block that is empty at the fork,
taken for lookahead slots, is copied like a partly filled one. If a third sequence shares the block
then both blocks are copied, and neither table has the old id. If no block is left then an append
throws with the tokens appended and no copy noted, and the block has lost its id. -/
theorem not_one_pair_for_each_partly_filled :
    Shows (twoSlots 8) [⟨.table, [2, 3], 0, 0⟩]
      { atFork := ([0, 1], [(0, [1]), (1, [])])
        table := ([2, 3], [(2, [1, 2]), (3, [3])])
        forked := ([0, 1], [(0, [1]), (1, [])])
        copies := [(0, 2), (1, 3)] } ∧
    Shows (twoSlots 8) [⟨.table, [2], 0, 0⟩, ⟨.forked, [3], 0, 0⟩]
      { atFork := ([0], [(0, [1])])
        table := ([1], [(1, [1, 2])])
        forked := ([2], [(2, [1, 3])])
        copies := [(0, 1), (0, 2)] } ∧
    Shows (twoSlots 1) [⟨.table, [2], 0, 0⟩]
      { atFork := ([0], [(0, [1])])
        table := ([0], [(-1, [1, 2])])
        forked := ([0], [(0, [1])])
        copies := [] } := by
  refine ⟨shows_of_exhibit [.allocate 0 [1] .npu 0, .appendTokenIds 0 [] 0 2] ?_,
    shows_of_exhibit [.allocate 0 [1] .npu 0, .fork 0 1] ?_,
    shows_of_exhibit [.allocate 0 [1] .npu 0] ?_⟩
  · decide +kernel
  · decide +kernel
  · decide +kernel

end MindieLLM
