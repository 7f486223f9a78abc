import MindieLLM.BlockManager.CopyOnWriteBlocks

/-!
# Appending to a table with one rank

An append to a table takes steps of copy on write, each of them at one block: an empty block is
taken behind the last one, or tokens are written to a block of the table. This is so even if the
append does not return.

## Main definitions

* `Owner`: the blocks of a table among those in use
* `Step`: one block is written to, or comes into the table
* `Kept`: what holds of the blocks of a table

## Main results

* `Step.kept`, `Steps.extended`: what steps preserve and what they leave alone
* `wp_appendTokenIds_steps`: an append takes steps
-/

namespace MindieLLM

open Program HashLessBlockAllocator

variable {HashValue : Type}

namespace HashLessBlockAllocator

/-- The blocks of a table, among all blocks in use. -/
structure Owner (HashValue : Type) where
  world : Devices HashValue
  used : Finset Ptr
  blocks : List Ptr

/-- The id of a block. -/
abbrev Owner.id (x : Owner HashValue) (p : Ptr) : BlockId := (x.world.mem.obj p).blockId

/-- One block is written to, or comes into the table. -/
inductive Step : Owner HashValue → Owner HashValue → Prop
  | write {x : Owner HashValue} {p : Ptr} {tokens : List TokenId} {w : Devices HashValue}
      (hp : p ∈ x.blocks) (h : Appends x.world x.used p tokens w) : Step x { x with world := w }
  | take {x : Owner HashValue} {p : Ptr} {w : Devices HashValue}
      (h : Takes x.world x.used p x.blocks.getLast? w) :
      Step x ⟨w, insert p x.used, x.blocks ++ [p]⟩

abbrev Steps : Owner HashValue → Owner HashValue → Prop := Relation.ReflTransGen Step

/-- What holds of the blocks of a table. Two of them have different ids, unless they have lost
theirs. -/
structure Kept (x : Owner HashValue) : Prop where
  sound : Sound x.world x.used
  subset : ∀ p ∈ x.blocks, p ∈ x.used
  nodup : x.blocks.Nodup
  linked : BlockTable.Linked x.world.mem none x.blocks
  distinct : ∀ p ∈ x.blocks, ∀ q ∈ x.blocks, q ≠ p → x.id q = x.id p → x.id p = invalidBlockId

/-- What steps leave alone: the table keeps its blocks, and the other blocks in use stay as they
are. -/
structure Extended (x y : Owner HashValue) : Prop where
  new : ∃ qs, y.blocks = x.blocks ++ qs ∧ ∀ q ∈ qs, q ∉ x.used
  used : ∀ p, p ∈ y.used ↔ p ∈ x.used ∨ p ∈ y.blocks
  frame : ∀ q ∈ x.used, q ∉ x.blocks → y.world.mem.obj q = x.world.mem.obj q

section Steps

variable {x y z : Owner HashValue} {p q : Ptr}

/-- The blocks of a table that nothing happens to. -/
theorem Kept.congr {w w' : Devices HashValue} {used used' : Finset Ptr} {ps : List Ptr}
    (h : Kept ⟨w, used, ps⟩) (hsound : Sound w' used') (hsubset : ∀ p ∈ ps, p ∈ used')
    (hobj : ∀ p ∈ ps, w'.mem.obj p = w.mem.obj p) : Kept ⟨w', used', ps⟩ where
  sound := hsound
  subset := hsubset
  nodup := h.nodup
  linked := h.linked.congr fun p hp => congrArg BlockObj.prevBlock (hobj p hp)
  distinct p hp q hq hne heq := by
    have hidp := congrArg BlockObj.blockId (hobj p hp)
    have hidq := congrArg BlockObj.blockId (hobj q hq)
    exact hidp.trans (h.distinct p hp q hq hne (hidq.symm.trans (heq.trans hidp)))

theorem Extended.refl (h : Kept x) : Extended x x where
  new := ⟨[], (List.append_nil _).symm, by simp⟩
  used p := ⟨.inl, fun hp => hp.elim (fun hp => hp) (h.subset p)⟩
  frame _ _ _ := rfl

theorem Extended.trans (h : Extended x y) (h' : Extended y z) : Extended x z := by
  obtain ⟨qs, hqs, hnew⟩ := h.new
  obtain ⟨rs, hrs, hnew'⟩ := h'.new
  have hsub : ∀ p ∈ x.used, p ∈ y.used := fun p hp => (h.used p).mpr (.inl hp)
  refine ⟨⟨qs ++ rs, by rw [hrs, hqs, List.append_assoc], fun q hq => ?_⟩, fun p => ?_,
    fun q hq hno => ?_⟩
  · rcases List.mem_append.mp hq with hq | hq
    · exact hnew q hq
    · exact fun hmem => hnew' q hq (hsub q hmem)
  · rw [h'.used, h.used, or_assoc, hrs, List.mem_append]
    exact or_congr_right (or_iff_right_of_imp .inl)
  · have hno' : q ∉ y.blocks := by
      rw [hqs, List.mem_append, not_or]
      exact ⟨hno, fun hmem => hnew q hmem hq⟩
    rw [h'.frame q (hsub q hq) hno', h.frame q hq hno]

theorem Step.extended (h : Kept x) (hstep : Step x y) : Extended x y := by
  cases hstep with
  | write hp happ =>
    refine ⟨⟨[], (List.append_nil _).symm, by simp⟩, fun p => ?_, fun q _ hno => ?_⟩
    · exact ⟨.inl, fun hp => hp.elim (fun hp => hp) (h.subset p)⟩
    · exact happ.frame q fun heq => hno (heq ▸ hp)
  | @take p w htake =>
    refine ⟨⟨[p], rfl, fun q hq => ?_⟩, fun q => ?_, fun q hq _ => ?_⟩
    · exact List.mem_singleton.mp hq ▸ htake.took.fresh
    · rw [Finset.mem_insert, List.mem_append, List.mem_singleton]
      constructor
      · exact fun hq => hq.elim (fun hq => .inr (.inr hq)) .inl
      · rintro (hq | hq | hq)
        · exact .inr hq
        · exact .inr (h.subset q hq)
        · exact .inl hq
    · exact htake.frame q fun heq => htake.took.fresh (heq ▸ hq)

/-- Every step keeps the blocks of the table in order. -/
theorem Step.kept (h : Kept x) (hstep : Step x y) : Kept y := by
  cases hstep with
  | @write p tokens w hp happ =>
    refine ⟨happ.sound, h.subset, h.nodup, h.linked.congr fun q _ => ?_,
      fun q hq r hr hne heq => ?_⟩
    · by_cases hqp : q = p
      · rw [hqp, happ.prevBlock]
      · rw [happ.frame q hqp]
    · -- a new id is one that no other block has
      have hid : ∀ q, q ≠ p → (w.mem.obj q).blockId = (x.world.mem.obj q).blockId :=
        fun q hq => congrArg BlockObj.blockId (happ.frame q hq)
      have hself : ∀ q ∈ x.blocks, q ≠ p → (w.mem.obj q).blockId = (w.mem.obj p).blockId →
          (w.mem.obj p).blockId = invalidBlockId := by
        intro q hq hqp heq
        have hcarries : (x.world.mem.obj q).blockId = (w.mem.obj p).blockId :=
          (hid q hqp).symm.trans heq
        rcases happ.wrote.relabelled with ⟨-, hkept, -⟩ | ⟨-, -, hnew, -⟩ | ⟨-, hlost, -⟩
        · change (w.mem.obj p).blockId = _ at hkept
          rw [hkept] at hcarries ⊢
          exact h.distinct p hp q hq hqp hcarries
        · exact absurd ⟨q, h.subset q hq, hqp, hcarries⟩ hnew
        · exact hlost
      change (w.mem.obj r).blockId = (w.mem.obj q).blockId at heq
      change (w.mem.obj q).blockId = invalidBlockId
      by_cases hqp : q = p
      · subst hqp
        exact hself r hr hne heq
      · by_cases hrp : r = p
        · subst hrp
          rw [← heq]
          exact hself q hq hqp heq.symm
        · rw [hid q hqp] at heq ⊢
          rw [hid r hrp] at heq
          exact h.distinct q hq r hr hne heq
  | @take p w htake =>
    have hp : p ∉ x.blocks := fun hmem => htake.took.fresh (h.subset p hmem)
    have hframe : ∀ q ∈ x.blocks, w.mem.obj q = x.world.mem.obj q :=
      fun q hq => htake.frame q fun heq => hp (heq ▸ hq)
    have hself : ∀ q ∈ x.blocks, (w.mem.obj q).blockId ≠ (w.mem.obj p).blockId := by
      intro q hq heq
      rw [hframe q hq] at heq
      exact htake.took.alone ⟨q, h.subset q hq, fun heq => hp (heq ▸ hq), heq⟩
    refine ⟨htake.sound, fun q hq => ?_, ?_, BlockTable.linked_append.mpr ⟨?_, ?_, trivial⟩,
      fun q hq r hr hne heq => ?_⟩
    · rw [List.mem_append, List.mem_singleton] at hq
      rw [Finset.mem_insert]
      exact hq.elim (fun hq => .inr (h.subset q hq)) .inl
    · exact List.nodup_append.mpr ⟨h.nodup, List.nodup_singleton p,
        fun q hq r hr heq => hp (List.mem_singleton.mp hr ▸ heq ▸ hq)⟩
    · exact h.linked.congr fun q hq => by rw [hframe q hq]
    · rw [Option.or_none]
      exact htake.prevBlock
    · change (w.mem.obj r).blockId = (w.mem.obj q).blockId at heq
      rw [List.mem_append, List.mem_singleton] at hq hr
      rcases hq with hq | rfl
      · rcases hr with hr | rfl
        · rw [hframe q hq, hframe r hr] at heq
          change (w.mem.obj q).blockId = invalidBlockId
          rw [hframe q hq]
          exact h.distinct q hq r hr hne heq
        · exact absurd heq.symm (hself q hq)
      · rcases hr with hr | rfl
        · exact absurd heq (hself r hr)
        · exact absurd rfl hne

theorem Steps.kept (h : Kept x) (hsteps : Steps x y) : Kept y := by
  induction hsteps with
  | refl => exact h
  | tail _ hstep ih => exact hstep.kept ih

theorem Steps.extended (h : Kept x) (hsteps : Steps x y) : Extended x y := by
  induction hsteps with
  | refl => exact .refl h
  | tail hsteps hstep ih => exact ih.trans (hstep.extended (Steps.kept h hsteps))

end Steps

/-- No block loses its id. -/
def KeepsIds (x y : Owner HashValue) : Prop :=
  ∀ q ∈ y.used, y.id q = invalidBlockId → q ∈ x.used ∧ x.id q = invalidBlockId

theorem KeepsIds.refl (x : Owner HashValue) : KeepsIds x x := fun _ hq hid => ⟨hq, hid⟩

theorem KeepsIds.trans {x y z : Owner HashValue} (h : KeepsIds x y) (h' : KeepsIds y z) :
    KeepsIds x z := fun q hq hid => h q (h' q hq hid).1 (h' q hq hid).2

end HashLessBlockAllocator

namespace BlockTable

/-- A table over hash-less allocators. -/
abbrev HashLessTable (HashValue : Type) := TableWorld HashValue (HashLessBlockAllocator HashValue)

/-- The blocks of rank 0 of a table. -/
def owner (s : HashLessTable HashValue) (used : Finset Ptr) : Owner HashValue :=
  ⟨s.world, used, s.table.blockObjs 0⟩

/-- Steps lead from one table to another. -/
structure Grows (s : HashLessTable HashValue) (used : Finset Ptr) (s' : HashLessTable HashValue)
    (used' : Finset Ptr) : Prop where
  steps : Steps (owner s used) (owner s' used')
  rankSize : s'.table.rankSize = s.table.rankSize
  blockSize : s'.table.blockSize = s.table.blockSize

/-- What an append that returns does. -/
def Returns (s : HashLessTable HashValue) (used : Finset Ptr) (s' : HashLessTable HashValue) :
    Prop :=
  ∃ used', Grows s used s' used' ∧ KeepsIds (owner s used) (owner s' used')

/-- What an append that throws does. -/
def Throws (s : HashLessTable HashValue) (used : Finset Ptr) (s' : HashLessTable HashValue) :
    Prop :=
  ∃ used', Grows s used s' used'

section Append

variable {s s' s'' : HashLessTable HashValue} {used used' : Finset Ptr} {p : Ptr}
  {tokens : List TokenId}

theorem Grows.refl (s : HashLessTable HashValue) (used : Finset Ptr) : Grows s used s used :=
  ⟨.refl, rfl, rfl⟩

theorem Grows.trans {used'' : Finset Ptr} (h : Grows s used s' used')
    (h' : Grows s' used' s'' used'') : Grows s used s'' used'' :=
  ⟨h.steps.trans h'.steps, h'.rankSize.trans h.rankSize, h'.blockSize.trans h.blockSize⟩

theorem Grows.kept (h : Grows s used s' used') (hs : Kept (owner s used)) :
    Kept (owner s' used') := Steps.kept hs h.steps

theorem Returns.refl (s : HashLessTable HashValue) (used : Finset Ptr) : Returns s used s :=
  ⟨used, .refl s used, .refl _⟩

theorem Throws.refl (s : HashLessTable HashValue) (used : Finset Ptr) : Throws s used s :=
  ⟨used, .refl s used⟩

theorem Grows.returns (h : Grows s used s' used') (hids : KeepsIds (owner s used) (owner s' used'))
    (h' : Returns s' used' s'') : Returns s used s'' := by
  obtain ⟨used'', hgrows, hids'⟩ := h'
  exact ⟨used'', h.trans hgrows, hids.trans hids'⟩

theorem Grows.throws (h : Grows s used s' used') (h' : Throws s' used' s'') :
    Throws s used s'' := by
  obtain ⟨used'', hgrows⟩ := h'
  exact ⟨used'', h.trans hgrows⟩

/-- A block is written to; the list of ids may change with it. -/
theorem Grows.write (hp : p ∈ s.table.blockObjs 0) {w : Devices HashValue}
    (h : Appends s.world used p tokens w) (ids : List BlockId) :
    Grows s used ⟨{ s.table with blockIds := ids }, w⟩ used :=
  ⟨.single (.write (x := owner s used) hp h), rfl, rfl⟩

/-- An empty block comes behind the last one. -/
theorem Grows.take {w : Devices HashValue}
    (h : Takes s.world used p (s.table.blockObjs 0).getLast? w) (b : BlockId) :
    Grows s used ⟨s.table.pushBlock 0 p b, w⟩ (insert p used) := by
  refine ⟨.single ?_, rfl, rfl⟩
  have hstep : Step (owner s used) ⟨w, insert p used, s.table.blockObjs 0 ++ [p]⟩ :=
    .take (x := owner s used) h
  rwa [show owner ⟨s.table.pushBlock 0 p b, w⟩ (insert p used) =
    ⟨w, insert p used, s.table.blockObjs 0 ++ [p]⟩ by simp [owner, pushBlock]]

theorem keepsIds_write
    (hid : ∀ q, q ≠ p → (s'.world.mem.obj q).blockId = (s.world.mem.obj q).blockId)
    (hp : (s'.world.mem.obj p).blockId ≠ invalidBlockId) :
    KeepsIds (owner s used) (owner s' used) := by
  intro q hq hlost
  have hne : q ≠ p := fun heq => hp (heq ▸ hlost)
  exact ⟨hq, (hid q hne).symm.trans hlost⟩

theorem keepsIds_take
    (hid : ∀ q, q ≠ p → (s'.world.mem.obj q).blockId = (s.world.mem.obj q).blockId)
    (hp : (s'.world.mem.obj p).blockId ≠ invalidBlockId) :
    KeepsIds (owner s used) (owner s' (insert p used)) := by
  intro q hq hlost
  have hne : q ≠ p := fun heq => hp (heq ▸ hlost)
  exact ⟨(Finset.mem_insert.mp hq).resolve_left hne, (hid q hne).symm.trans hlost⟩

/-- The pieces of a list that is cut are not empty. -/
theorem ne_nil_of_mem_chunk {size fuel : ℕ} (hsize : 0 < size) {tokenIds piece : List TokenId}
    (h : piece ∈ chunk size fuel tokenIds) : piece ≠ [] := by
  induction fuel generalizing tokenIds with
  | zero => cases h
  | succ fuel ih =>
    unfold chunk at h
    split_ifs at h with hempty
    · cases h
    · rcases List.mem_cons.mp h with rfl | h
      · rw [Ne, List.take_eq_nil_iff, not_or]
        exact ⟨hsize.ne', fun hnil => hempty (by rw [hnil]; rfl)⟩
      · exact ih h

theorem ne_nil_of_mem_chunkTokensForAppend {t : BlockTable} (hsize : 0 < t.blockSize)
    {tokenIds piece : List TokenId} (h : piece ∈ t.chunkTokensForAppend tokenIds) : piece ≠ [] := by
  unfold chunkTokensForAppend at h
  split_ifs at h with hempty
  · cases h
  · rcases List.mem_cons.mp h with rfl | h
    · rw [Ne, List.take_eq_nil_iff, not_or]
      have hlt := Nat.mod_lt (t.numFullSlotsPerRank 0) hsize
      exact ⟨by omega, fun hnil => hempty (by rw [hnil]; rfl)⟩
    · exact ne_nil_of_mem_chunk hsize h

theorem Grows.nonempty (h : Grows s used s' used') (hs : Kept (owner s used))
    (hused : used.Nonempty) : used'.Nonempty := by
  obtain ⟨p, hp⟩ := hused
  exact ⟨p, ((Steps.extended hs h.steps).used p).mpr (.inl hp)⟩

variable [PrefixHasher HashValue]

theorem wp_growRank_steps (h : Kept (owner s used)) (hused : used.Nonempty)
    (extraHash : HashValue) :
    wp (growRank 0 0 extraHash) (fun _ s' => Returns s used s') (fun _ s' => Throws s used s')
      s := by
  unfold growRank
  simp only [wp_bind, wp_get, loadBlock, wp_zoom, worldLens_get, worldLens_put,
    World.memLens_get, World.memLens_put, wp_load, modifyTable, wp_modify]
  refine wp_mono (wp_allocateMutableBlock_takes h.sound [] _ extraHash) ?_ ?_
  · intro p w htakes
    exact ⟨_, .take htakes _, keepsIds_take
      (fun q hq => congrArg BlockObj.blockId (htakes.frame q hq)) htakes.took.ne_lost⟩
  · intro _ w hw
    obtain rfl : w = s.world := hw hused rfl
    exact .refl s used

theorem wp_ensureEnoughSlots_steps (h : Kept (owner s used)) (hused : used.Nonempty) (n : ℕ)
    (extraHash : HashValue) :
    wp (ensureEnoughSlots n extraHash 0) (fun _ s' => Returns s used s')
      (fun _ s' => Throws s used s') s := by
  unfold ensureEnoughSlots
  rw [wp_bind, wp_get]
  refine (wp_ite _ _ _).mpr ⟨fun _ => .refl s used, fun _ => ?_⟩
  refine (wp_ite _ _ _).mpr ⟨fun _ => .refl s used, fun _ => ?_⟩
  unfold ofTable
  simp only [wp_bind, wp_get]
  cases hslots : s.table.getNumEmptySlots 0 with
  | error e => exact .refl s used
  | ok numEmptySlots =>
    refine (wp_ite _ _ _).mpr ⟨fun _ => .refl s used, fun _ => ?_⟩
    refine wp_forM (I := fun _ s' => Returns s used s') _ _ (.refl s used) ?_
    rintro _ _ s₁ ⟨used₁, hgrows, hids⟩
    refine wp_mono (wp_growRank_steps (hgrows.kept h) (hgrows.nonempty h hused) extraHash) ?_ ?_
    · exact fun _ s₂ h₂ => hgrows.returns hids h₂
    · exact fun _ s₂ h₂ => hgrows.throws h₂

theorem wp_appendChunks_steps {blockIdx : ℕ} {pieces : List (List TokenId)}
    (h : Kept (owner s used)) (hpieces : ∀ piece ∈ pieces, piece ≠ []) :
    wp (appendChunks blockIdx pieces) (fun _ s' => Returns s used s')
      (fun _ s' => Throws s used s') s := by
  induction pieces generalizing blockIdx s with
  | nil => exact .refl s used
  | cons piece rest ih =>
    unfold appendChunks
    rw [wp_bind, wp_get]
    cases hblock : (s.table.blockObjs 0)[blockIdx]? with
    | none => exact .refl s used
    | some p =>
      have hp : p ∈ s.table.blockObjs 0 := List.mem_of_getElem? hblock
      dsimp only
      rw [wp_bind, wp_zoom]
      refine wp_mono (wp_appendTokenIds_appends h.sound (h.subset p hp)
        (hpieces piece List.mem_cons_self)) ?_ ?_
      · rintro _ w ⟨happ, hvalid⟩
        have hgrows := fun ids => Grows.write hp happ ids
        simp only [loadBlock, wp_bind, wp_zoom, worldLens_get, worldLens_put, World.memLens_get,
          World.memLens_put, wp_load]
        refine (wp_ite _ _ _).mpr ⟨fun _ => ⟨used, hgrows _⟩, fun _ => ?_⟩
        simp only [wp_bind, wp_get]
        refine (wp_ite _ _ _).mpr ⟨fun _ => ⟨used, hgrows _⟩, fun _ => ?_⟩
        rw [wp_bind, modifyTable, wp_modify]
        have hids : KeepsIds (owner s used) (owner ⟨{ s.table with
            blockIds := s.table.blockIds.set blockIdx (w.mem.obj p).blockId }, w⟩ used) :=
          keepsIds_write (fun q hq => congrArg BlockObj.blockId (happ.frame q hq)) hvalid
        refine wp_mono (ih ((hgrows _).kept h) fun piece hmem =>
          hpieces piece (List.mem_cons_of_mem _ hmem)) ?_ ?_
        · exact fun _ s₂ h₂ => (hgrows _).returns hids h₂
        · exact fun _ s₂ h₂ => (hgrows _).throws h₂
      · rintro _ w (rfl | happ)
        · exact .refl s used
        · exact ⟨used, .write hp happ _⟩

/-- **An append takes steps of copy on write**, whether it returns or throws. If it returns then no
block has lost its id. -/
theorem wp_appendTokenIds_steps (h : Kept (owner s used)) (hused : used.Nonempty)
    (hsize : 0 < s.table.blockSize) (tokenIds : List TokenId) (extraHash : HashValue)
    (numLookaheadSlots : ℕ) :
    wp (appendTokenIds tokenIds extraHash numLookaheadSlots) (fun _ s' => Returns s used s')
      (fun _ s' => Throws s used s') s := by
  unfold appendTokenIds
  rw [wp_bind, wp_get]
  refine (wp_ite _ _ _).mpr ⟨fun _ => .refl s used, fun _ => ?_⟩
  rw [wp_bind]
  refine wp_mono (wp_ensureEnoughSlots_steps h hused _ extraHash) ?_ fun _ _ h => h
  rintro _ s₁ ⟨used₁, hgrows, hids⟩
  simp only [wp_bind, wp_get]
  refine wp_mono (wp_appendChunks_steps (hgrows.kept h) fun piece hpiece =>
    ne_nil_of_mem_chunkTokensForAppend (hgrows.blockSize ▸ hsize) hpiece) ?_ ?_
  · intro _ s₂ h₂
    rw [modifyTable, wp_modify]
    obtain ⟨used₂, hgrows₂, hids₂⟩ := hgrows.returns hids h₂
    exact ⟨used₂, ⟨hgrows₂.steps, hgrows₂.rankSize, hgrows₂.blockSize⟩, hids₂⟩
  · exact fun _ s₂ h₂ => hgrows.throws h₂

end Append

end BlockTable

end MindieLLM
