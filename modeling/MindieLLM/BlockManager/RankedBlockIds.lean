import MindieLLM.BlockManager.SmallRankFirst
import MindieLLM.BlockManager.LocalBlockAllocator

/-!
# The block ids of a table with several ranks

A table keeps its blocks rank by rank, and the ids of all of them in one list, in the order in which
the blocks came into the table. A block that gets another id is looked for in that list under its
index within its rank, and only when it is full.

## Main definitions

* `Agrees`: the list of ids has the id of each block
* `Aligned`: a block that is written to does not make the list differ

## Main results

* `wp_write`: a write to a block that is aligned
* `wp_appendToSpRankLoop_agrees`, `wp_replaceLoop_agrees`: the loops that write tokens
* `wp_growRanks`: new blocks
-/

namespace MindieLLM

open Program

namespace CpuNpuBlockAllocator

variable {HashValue A : Type}

/-- The memory with the allocator that a block belongs to. -/
def atBlock (w : World HashValue (CpuNpuBlockAllocator A)) (p : Ptr) : World HashValue A :=
  ⟨w.mem, w.alloc.allocators (w.alloc.getDeviceTypeForBlockId (w.mem.obj p).blockId)
    (w.mem.obj p).rankIdx⟩

variable {w : World HashValue (CpuNpuBlockAllocator A)}

theorem wp_onAllocator_mem {α : Type} {device : DeviceType} {r : ℕ} {c : WorldM HashValue A α}
    {Q : α → Mem HashValue → Prop}
    (h : wp c (fun a v => Q a v.mem) (fun _ _ => True) ⟨w.mem, w.alloc.allocators device r⟩) :
    wp (onAllocator device r c) (fun a w' => Q a w'.mem) (fun _ _ => True) w := by
  unfold onAllocator
  simp only [wp_bind, wp_get]
  refine (wp_ite _ _ _).mpr ⟨fun _ => ?_, fun _ => ?_⟩
  · cases device <;> trivial
  · rw [wp_zoom]
    exact wp_mono h (fun _ _ hQ => hQ) fun _ _ _ => trivial

theorem wp_onAllocatorOf_mem {α : Type} {p : Ptr} {c : WorldM HashValue A α}
    {Q : α → Mem HashValue → Prop}
    (h : wp c (fun a v => Q a v.mem) (fun _ _ => True) (atBlock w p)) :
    wp (onAllocatorOf p c) (fun a w' => Q a w'.mem) (fun _ _ => True) w := by
  unfold onAllocatorOf locate
  simp only [wp_bind, wp_zoom, World.memLens_get, World.memLens_put, wp_load, wp_get, wp_pure]
  exact wp_onAllocator_mem h

variable [BlockAllocator HashValue A] [LocalBlockAllocator HashValue A] {used : Finset Ptr}

theorem wp_appendTokenIds_written (p : Ptr) (tokenIds : List TokenId) :
    wp (appendTokenIds p tokenIds) (fun _ w' => Written w.mem p tokenIds.length w'.mem ∧
        (LocalBlockAllocator.AppendKeepsId (atBlock w p) p tokenIds →
          (w'.mem.obj p).blockId = (w.mem.obj p).blockId))
      (fun _ _ => True) w :=
  wp_onAllocatorOf_mem (Q := fun _ m => Written w.mem p tokenIds.length m ∧
      (LocalBlockAllocator.AppendKeepsId (atBlock w p) p tokenIds →
        (m.obj p).blockId = (w.mem.obj p).blockId))
    (LocalBlockAllocator.wp_appendTokenIds (atBlock w p) p tokenIds)

theorem wp_replaceToken_written (p : Ptr) (i : ℕ) (t : TokenId) :
    wp (replaceToken p i t) (fun _ w' => Written w.mem p 0 w'.mem ∧
        (LocalBlockAllocator.ReplaceKeepsId (atBlock w p) p i t →
          (w'.mem.obj p).blockId = (w.mem.obj p).blockId))
      (fun _ _ => True) w :=
  wp_onAllocatorOf_mem (Q := fun _ m => Written w.mem p 0 m ∧
      (LocalBlockAllocator.ReplaceKeepsId (atBlock w p) p i t →
        (m.obj p).blockId = (w.mem.obj p).blockId))
    (LocalBlockAllocator.wp_replaceToken (atBlock w p) p i t)

omit [BlockAllocator HashValue A] [LocalBlockAllocator HashValue A] in
/-- A new block gets the rank it is allocated on. -/
theorem wp_setRankIdx_entered {device : DeviceType} {r : ℕ} {c : WorldM HashValue A Ptr}
    (h : wp c (fun p v => Entered w.mem used p v.mem) (fun _ _ => True)
      ⟨w.mem, w.alloc.allocators device r⟩) :
    wp (do
        let p ← onAllocator device r c
        onMem (withObj p (HashLessBlockObj.setRankIdx r))
        return p)
      (fun p w' => Entered w.mem used p w'.mem ∧ (w'.mem.obj p).rankIdx = r)
      (fun _ _ => True) w := by
  rw [wp_bind]
  refine wp_mono (wp_onAllocator_mem h) (fun p w₁ h₁ => ?_) fun _ _ _ => trivial
  simp only [wp_bind, wp_zoom, World.memLens_get, World.memLens_put, HashLessBlockObj.setRankIdx,
    wp_modify, Mem.objAt_get, Mem.objAt_put, wp_pure]
  refine ⟨⟨h₁.fresh, h₁.tracks, fun q hq => ?_⟩, by rw [Mem.setObj_obj_same]⟩
  have hne : q ≠ p := fun heq => h₁.fresh (heq ▸ hq)
  rw [Mem.setObj_obj_ne _ _ hne]
  exact h₁.frame q hq

theorem wp_allocateMutableBlock_entered (htracks : w.mem.pool.Tracks used) (device : DeviceType)
    (tokenIds : List TokenId) (prev : Option Ptr) (extraHash : HashValue) (r : ℕ) :
    wp (allocateMutableBlock device tokenIds prev extraHash r)
      (fun p w' => Entered w.mem used p w'.mem ∧ (w'.mem.obj p).rankIdx = r) (fun _ _ => True) w :=
  wp_setRankIdx_entered
    (LocalBlockAllocator.wp_allocateMutableBlock tokenIds prev extraHash htracks)

theorem wp_allocateImmutableBlock_entered (htracks : w.mem.pool.Tracks used) (device : DeviceType)
    (tokenIds : List TokenId) (prev : Option Ptr) (extraHash : HashValue) (r : ℕ) :
    wp (allocateImmutableBlock device tokenIds prev extraHash r)
      (fun p w' => Entered w.mem used p w'.mem ∧ (w'.mem.obj p).rankIdx = r) (fun _ _ => True) w :=
  wp_setRankIdx_entered
    (LocalBlockAllocator.wp_allocateImmutableBlock tokenIds prev extraHash htracks)

end CpuNpuBlockAllocator

namespace BlockTable

variable {HashValue A : Type}

/-! ## The blocks of a table in order -/

/-- The ids of blocks. -/
def idsOf (m : Mem HashValue) (ps : List Ptr) : List BlockId := ps.map fun p => (m.obj p).blockId

/-- The blocks of a table are `order`, in the order in which they came into it. -/
structure Listed (order : List Ptr) (s : TableWorld HashValue A) : Prop where
  nodup : order.Nodup
  tracks : s.world.mem.pool.Tracks order.toFinset
  rank_lt : ∀ p ∈ order, (s.world.mem.obj p).rankIdx < s.table.rankSize
  blockObjs : ∀ r, s.table.blockObjs r = order.filter fun p => (s.world.mem.obj p).rankIdx = r

/-- The list of ids of a table has the id of each block. -/
structure Agrees (order : List Ptr) (s : TableWorld HashValue A) : Prop extends Listed order s where
  blockIds : s.table.blockIds = idsOf s.world.mem order

/-- A block that is written to, and is looked for at index `i`, does not make the list of ids
differ: it keeps its id, and if it is full then this id is the one at index `i`; or it is full and
index `i` is its own. -/
def Aligned (order : List Ptr) (s : TableWorld HashValue A) (p : Ptr) (i n : ℕ) (keeps : Prop) :
    Prop :=
  keeps ∧ ((s.world.mem.obj p).tokenIds.length + n = (s.world.mem.obj p).blockSize →
      s.table.blockIds[i]? = some (s.world.mem.obj p).blockId) ∨
    (s.world.mem.obj p).tokenIds.length + n = (s.world.mem.obj p).blockSize ∧ order[i]? = some p

variable {order : List Ptr} {s s' : TableWorld HashValue A} {p : Ptr} {i n : ℕ} {keeps : Prop}
  {m m' : Mem HashValue}

/-- Only the ranks of the blocks matter, and that they are in use. -/
theorem Listed.congr (h : Listed order s)
    (hrank : ∀ p ∈ order, (s'.world.mem.obj p).rankIdx = (s.world.mem.obj p).rankIdx)
    (htracks : s'.world.mem.pool.Tracks order.toFinset)
    (hsize : s'.table.rankSize = s.table.rankSize)
    (hobjs : s'.table.blockObjs = s.table.blockObjs) : Listed order s' where
  nodup := h.nodup
  tracks := htracks
  rank_lt p hp := by
    rw [hrank p hp, hsize]
    exact h.rank_lt p hp
  blockObjs r := by
    rw [hobjs, h.blockObjs]
    exact List.filter_congr fun p hp => by rw [hrank p hp]

theorem Listed.written (h : Listed order s) (hw : Written s.world.mem p n s'.world.mem)
    (hsize : s'.table.rankSize = s.table.rankSize)
    (hobjs : s'.table.blockObjs = s.table.blockObjs) : Listed order s' := by
  refine h.congr (fun q _ => ?_) (hw.pool ▸ h.tracks) hsize hobjs
  by_cases hq : q = p
  · rw [hq, hw.rankIdx]
  · exact (hw.frame q hq).rankIdx

theorem idsOf_written (hw : Written m p n m') (hid : (m'.obj p).blockId = (m.obj p).blockId) :
    idsOf m' order = idsOf m order := by
  refine List.map_congr_left fun q _ => ?_
  by_cases hq : q = p
  · rw [hq, hid]
  · exact (hw.frame q hq).blockId

/-- The new id of a block goes where the old one was. -/
theorem idsOf_set (hw : Written m p n m') (hnodup : order.Nodup) (hi : order[i]? = some p) :
    (idsOf m order).set i (m'.obj p).blockId = idsOf m' order := by
  obtain ⟨hlt, hget⟩ := List.getElem?_eq_some_iff.mp hi
  refine List.ext_getElem (by simp [idsOf]) fun j hj hj' => ?_
  simp only [idsOf, List.length_map] at hj'
  simp only [idsOf, List.getElem_set, List.getElem_map]
  split_ifs with hij
  · subst hij
    rw [hget]
  · refine (hw.frame _ fun heq => hij ?_).blockId.symm
    exact (List.Nodup.getElem_inj_iff hnodup).mp (hget.trans heq.symm)

theorem wp_setBlockId (b : BlockId) :
    wp (setBlockId i b) (fun _ s' =>
        s' = { s with table := { s.table with blockIds := s.table.blockIds.set i b } })
      (fun _ _ => True) s := by
  unfold setBlockId
  simp only [wp_bind, wp_get]
  exact (wp_ite _ _ _).mpr ⟨fun _ => trivial, fun _ => rfl⟩

/-- **One write.** A block that is aligned is written to, and then its id is noted if it is full:
the list of ids agrees as before. -/
theorem wp_write {c : CpuNpuBlockAllocator.DeviceM HashValue A Unit} {k : TableM HashValue A Unit}
    {Q : Unit → TableWorld HashValue A → Prop} (h : Agrees order s)
    (hc : wp c (fun _ w' => Written s.world.mem p n w'.mem ∧
        (keeps → (w'.mem.obj p).blockId = (s.world.mem.obj p).blockId)) (fun _ _ => True) s.world)
    (haligned : Aligned order s p i n keeps)
    (hk : ∀ s', Agrees order s' →
      s'.table = { s.table with blockIds := s'.table.blockIds } → wp k Q (fun _ _ => True) s') :
    wp (do
        onWorld c
        let o ← loadBlock p
        if o.isFull then
          setBlockId i o.blockId
        k) Q (fun _ _ => True) s := by
  simp only [loadBlock, wp_bind, wp_zoom, worldLens_get, worldLens_put, World.memLens_get,
    World.memLens_put, wp_load]
  refine wp_mono hc ?_ fun _ _ _ => trivial
  rintro _ w ⟨hw, hkeep⟩
  have hfull : (w.mem.obj p).isFull ↔
      (s.world.mem.obj p).tokenIds.length + n = (s.world.mem.obj p).blockSize := by
    rw [BlockObj.isFull_iff, hw.length, hw.blockSize]
  refine (wp_ite _ _ _).mpr ⟨fun hf => ?_, fun hf => ?_⟩
  · rw [wp_bind]
    refine wp_mono (wp_setBlockId _) ?_ fun _ _ _ => trivial
    rintro _ _ rfl
    refine hk _ ⟨h.toListed.written hw rfl rfl, ?_⟩ rfl
    rcases haligned with ⟨hkeeps, hat⟩ | ⟨-, hi⟩
    · -- the id is the one that stands there already
      have hid := hkeep hkeeps
      obtain ⟨hlt, hget⟩ := List.getElem?_eq_some_iff.mp (hat (hfull.mp hf))
      change s.table.blockIds.set i _ = _
      rw [hid, ← hget, List.set_getElem_self, h.blockIds]
      exact (idsOf_written hw hid).symm
    · change s.table.blockIds.set i _ = _
      rw [h.blockIds]
      exact idsOf_set hw h.nodup hi
  · rcases haligned with ⟨hkeeps, -⟩ | ⟨hno, -⟩
    · refine hk _ ⟨h.toListed.written hw rfl rfl, ?_⟩ rfl
      exact h.blockIds.trans (idsOf_written hw (hkeep hkeeps)).symm
    · exact absurd (hfull.mpr hno) hf

/-- The lists of a table stay as they are when only other fields change. -/
theorem Agrees.setTable (h : Agrees order s) {t : BlockTable}
    (hobjs : t.blockObjs = s.table.blockObjs) (hids : t.blockIds = s.table.blockIds)
    (hsize : t.rankSize = s.table.rankSize) : Agrees order { s with table := t } where
  toListed := h.toListed.congr (fun _ _ => rfl) h.tracks hsize hobjs
  blockIds := hids.trans h.blockIds

theorem Agrees.entered {w : World HashValue (CpuNpuBlockAllocator A)} {r : ℕ}
    (h : Agrees order s) (hr : r < s.table.rankSize)
    (hp : Entered s.world.mem order.toFinset p w.mem) (hrank : (w.mem.obj p).rankIdx = r) :
    Agrees (order ++ [p]) ⟨s.table.pushBlock r p (w.mem.obj p).blockId, w⟩ := by
  have hnew : p ∉ order := fun hmem => hp.fresh (List.mem_toFinset.mpr hmem)
  have hframe : ∀ q ∈ order, SameButHash (s.world.mem.obj q) (w.mem.obj q) :=
    fun q hq => hp.frame q (List.mem_toFinset.mpr hq)
  refine ⟨⟨?_, ?_, fun q hq => ?_, fun r' => ?_⟩, ?_⟩
  · exact List.nodup_append.mpr ⟨h.nodup, List.nodup_singleton p, fun q hq q' hq' heq =>
      hnew (List.mem_singleton.mp hq' ▸ heq ▸ hq)⟩
  · refine hp.tracks.mono fun q hq => ?_
    simpa [or_comm] using hq
  · rcases List.mem_append.mp hq with hq | hq
    · exact (hframe q hq).rankIdx.trans_lt (h.rank_lt q hq)
    · rw [List.mem_singleton.mp hq, hrank]
      exact hr
  · have hold : (order.filter fun q => (w.mem.obj q).rankIdx = r') = s.table.blockObjs r' := by
      rw [h.blockObjs]
      exact List.filter_congr fun q hq => by rw [(hframe q hq).rankIdx]
    simp only [pushBlock, List.filter_append, hold]
    by_cases hr' : r' = r
    · subst hr'
      rw [Function.update_self, List.filter_cons_of_pos (by simpa using hrank), List.filter_nil]
    · rw [Function.update_of_ne hr', List.filter_cons_of_neg (by simpa [hrank] using Ne.symm hr'),
        List.filter_nil, List.append_nil]
  · simp only [pushBlock, idsOf, List.map_append, List.map_cons, List.map_nil, h.blockIds]
    congr 1
    exact List.map_congr_left fun q hq => (hframe q hq).blockId.symm

/-! ## Writing tokens -/

/-- The tokens go to a rank one by one, from slot `slot` on, and the block of each one is aligned in
the state in which it is written. -/
def WritesAligned (order : List Ptr) (r n : ℕ)
    (keeps : World HashValue (CpuNpuBlockAllocator A) → Ptr → ℕ → TokenId → Prop)
    (write : ℕ → TokenId → TableM HashValue A Unit) :
    ℕ → List TokenId → TableWorld HashValue A → Prop
  | _, [], _ => True
  | slot, token :: rest, s =>
    (∀ p, (s.table.blockObjs r)[slot / s.table.blockSize]? = some p →
      Aligned order s p (slot / s.table.blockSize) n
        (keeps s.world p (slot % s.table.blockSize) token)) ∧
    ∀ s', write slot token s = .ok () s' →
      WritesAligned order r n keeps write (slot + 1) rest s'

/-- Only the ids that the table lists can differ. -/
def SameButIds (s s' : TableWorld HashValue A) : Prop :=
  s'.table = { s.table with blockIds := s'.table.blockIds }

theorem SameButIds.trans {s s₁ s₂ : TableWorld HashValue A} (h : SameButIds s s₁)
    (h' : SameButIds s₁ s₂) : SameButIds s s₂ := by
  unfold SameButIds at *
  rw [h', h]

section SameButIds

variable {s s' : TableWorld HashValue A}

theorem SameButIds.blockObjs (h : SameButIds s s') : s'.table.blockObjs = s.table.blockObjs := by
  rw [h]

theorem SameButIds.rankSize (h : SameButIds s s') : s'.table.rankSize = s.table.rankSize := by
  rw [h]

theorem SameButIds.currentSpRank (h : SameButIds s s') :
    s'.table.currentSpRank = s.table.currentSpRank := by rw [h]

end SameButIds

theorem wp_writes_agrees {r : ℕ}
    {keeps : World HashValue (CpuNpuBlockAllocator A) → Ptr → ℕ → TokenId → Prop}
    (loop : ℕ → List TokenId → TableM HashValue A Unit)
    (hnil : ∀ slot, loop slot [] = pure ())
    (hcons : ∀ slot token rest s (Q : Unit → TableWorld HashValue A → Prop),
      wp (loop slot [token]) (fun _ s' => wp (loop (slot + 1) rest) Q (fun _ _ => True) s')
        (fun _ _ => True) s → wp (loop slot (token :: rest)) Q (fun _ _ => True) s)
    (hone : ∀ slot token s, Agrees order s →
      (∀ p, (s.table.blockObjs r)[slot / s.table.blockSize]? = some p →
        Aligned order s p (slot / s.table.blockSize) n
          (keeps s.world p (slot % s.table.blockSize) token)) →
      wp (loop slot [token]) (fun _ s' => Agrees order s' ∧ SameButIds s s') (fun _ _ => True) s)
    {slot : ℕ} {tokens : List TokenId} {s : TableWorld HashValue A} (h : Agrees order s)
    (haligned : WritesAligned order r n keeps (fun slot token => loop slot [token]) slot tokens s) :
    wp (loop slot tokens) (fun _ s' => Agrees order s' ∧ SameButIds s s') (fun _ _ => True) s := by
  induction tokens generalizing slot s with
  | nil =>
    rw [hnil]
    exact ⟨h, rfl⟩
  | cons token rest ih =>
    refine hcons slot token rest s _ (wp_mono (wp_and (hone slot token s h haligned.1)
      (wp_self _ _)) ?_ fun _ _ _ => trivial)
    rintro ⟨⟩ s₁ ⟨⟨h₁, hsame₁⟩, hrun⟩
    exact wp_mono (ih h₁ (haligned.2 s₁ hrun)) (fun _ _ h₂ => ⟨h₂.1, hsame₁.trans h₂.2⟩)
      fun _ _ h => h

variable [BlockAllocator HashValue A]

theorem wp_appendToSpRankLoop_cons {r slot : ℕ} {token : TokenId} {rest : List TokenId}
    {Q : Unit → TableWorld HashValue A → Prop} {T : Exn → TableWorld HashValue A → Prop} :
    wp (appendToSpRankLoop r slot (token :: rest)) Q T s ↔
      wp (appendToSpRankLoop r slot [token])
        (fun _ s' => wp (appendToSpRankLoop r (slot + 1) rest) Q T s') T s := by
  simp only [appendToSpRankLoop, wp_bind, wp_get]
  cases (s.table.blockObjs r)[slot / s.table.blockSize]? with
  | none => rfl
  | some p => simp only [wp_bind, wp_ite, wp_pure]

theorem wp_replaceLoop_cons {r slot : ℕ} {token : TokenId} {rest : List TokenId}
    {Q : Unit → TableWorld HashValue A → Prop} {T : Exn → TableWorld HashValue A → Prop} :
    wp (replaceLoop r slot (token :: rest)) Q T s ↔
      wp (replaceLoop r slot [token])
        (fun _ s' => wp (replaceLoop r (slot + 1) rest) Q T s') T s := by
  simp only [replaceLoop, wp_bind, wp_get]
  cases (s.table.blockObjs r)[slot / s.table.blockSize]? with
  | none => simp only [wp_ite, wp_bind, wp_throw]
  | some p => simp only [wp_bind, wp_ite, wp_pure, wp_throw]

omit [BlockAllocator HashValue A] in
theorem wp_tokenAt (r slot : ℕ) :
    wp (tokenAt r slot) (fun _ s' => s' = s) (fun _ _ => True) s := by
  unfold tokenAt
  simp only [wp_bind, wp_get]
  cases (s.table.blockObjs r)[slot / s.table.blockSize]? with
  | none => trivial
  | some p =>
    simp only [loadBlock, wp_bind, wp_zoom, worldLens_get, worldLens_put, World.memLens_get,
      World.memLens_put, wp_load]
    cases (s.world.mem.obj p).tokenIds[slot % s.table.blockSize]? with
    | none => trivial
    | some t => rfl

omit [BlockAllocator HashValue A] in
theorem wp_getNumTokenIds : wp getNumTokenIds (fun _ s' => s' = s) (fun _ _ => True) s := by
  unfold getNumTokenIds
  simp only [wp_bind, wp_get]
  exact wp_mapM (I := fun s' => s' = s) loadBlock _ rfl fun _ _ h => h

variable [LocalBlockAllocator HashValue A]

/-- The tokens of `AppendToSpRank`, from slot `slot` on. -/
def AppendsAligned (order : List Ptr) (r : ℕ) : ℕ → List TokenId → TableWorld HashValue A → Prop :=
  WritesAligned order r 1
    (fun w p _ token =>
      LocalBlockAllocator.AppendKeepsId (CpuNpuBlockAllocator.atBlock w p) p [token])
    fun slot token => appendToSpRankLoop r slot [token]

theorem wp_appendToSpRankLoop_agrees {r slot : ℕ} {tokens : List TokenId} (h : Agrees order s)
    (haligned : AppendsAligned order r slot tokens s) :
    wp (appendToSpRankLoop r slot tokens) (fun _ s' => Agrees order s' ∧ SameButIds s s')
      (fun _ _ => True) s := by
  refine wp_writes_agrees (appendToSpRankLoop r) (fun _ => rfl)
    (fun _ _ _ _ _ h => wp_appendToSpRankLoop_cons.mpr h) (fun slot token s h hone => ?_) h haligned
  simp only [appendToSpRankLoop]
  rw [wp_bind, wp_get]
  cases hp : (s.table.blockObjs r)[slot / s.table.blockSize]? with
  | none => trivial
  | some p =>
    exact wp_write h (CpuNpuBlockAllocator.wp_appendTokenIds_written p [token]) (hone p hp)
      fun s' h' hsame => ⟨h', hsame⟩

/-- The tokens that replace placeholders, from slot `slot` on. -/
def ReplacesAligned (order : List Ptr) (r : ℕ) : ℕ → List TokenId → TableWorld HashValue A → Prop :=
  WritesAligned order r 0
    (fun w p i token =>
      LocalBlockAllocator.ReplaceKeepsId (CpuNpuBlockAllocator.atBlock w p) p i token)
    fun slot token => replaceLoop r slot [token]

theorem wp_replaceLoop_agrees {r slot : ℕ} {tokens : List TokenId} (h : Agrees order s)
    (haligned : ReplacesAligned order r slot tokens s) :
    wp (replaceLoop r slot tokens) (fun _ s' => Agrees order s' ∧ SameButIds s s')
      (fun _ _ => True) s := by
  refine wp_writes_agrees (replaceLoop r) (fun _ => rfl)
    (fun _ _ _ _ _ h => wp_replaceLoop_cons.mpr h) (fun slot token s h hone => ?_) h haligned
  simp only [replaceLoop]
  rw [wp_bind, wp_get, wp_bind]
  refine wp_mono (wp_tokenAt r (slot - 1)) ?_ fun _ _ h => h
  rintro _ _ rfl
  refine (wp_ite _ _ _).mpr ⟨fun _ => trivial, fun _ => ?_⟩
  rw [wp_bind]
  refine wp_mono (wp_tokenAt r slot) ?_ fun _ _ h => h
  rintro _ s rfl
  refine (wp_ite _ _ _).mpr ⟨fun _ => trivial, fun _ => ?_⟩
  cases hp : (s.table.blockObjs r)[slot / s.table.blockSize]? with
  | none => trivial
  | some p =>
    exact wp_write h (CpuNpuBlockAllocator.wp_replaceToken_written p _ token) (hone p hp)
      fun s' h' hsame => ⟨h', hsame⟩

/-! ## New blocks -/

theorem wp_growRank (h : Agrees order s) {r : ℕ} (hr : r < s.table.rankSize)
    (extraHash : HashValue) :
    wp (growRank r r extraHash) (fun _ s' => ∃ p b, Agrees (order ++ [p]) s' ∧
        s'.table = s.table.pushBlock r p b)
      (fun _ _ => True) s := by
  unfold growRank
  simp only [loadBlock, wp_bind, wp_get, wp_zoom, worldLens_get, worldLens_put,
    World.memLens_get, World.memLens_put, wp_load, modifyTable, wp_modify]
  refine wp_mono (CpuNpuBlockAllocator.wp_allocateMutableBlock_entered h.tracks .npu [] _ extraHash
    r) ?_ fun _ _ _ => trivial
  rintro p w ⟨hp, hrank⟩
  exact ⟨p, _, h.entered hr hp hrank, rfl⟩

omit [BlockAllocator HashValue A] [LocalBlockAllocator HashValue A] in
/-- The number of empty slots is known for the ranks of the table only. -/
theorem wp_getNumEmptySlots {r : BlockTable → ℕ}
    {Q : ℕ → TableWorld HashValue A → Prop}
    (h : r s.table < s.table.rankSize → ∀ n, Q n s) :
    wp (ofTable fun t => t.getNumEmptySlots (r t)) Q (fun _ _ => True) s := by
  unfold ofTable getNumEmptySlots
  simp only [wp_bind, wp_get]
  split_ifs with hallocated hr
  · trivial
  · trivial
  · exact h (Nat.lt_of_not_le hr) _

/-- The blocks that came into a table. All of them come into one rank. -/
def entered (t t' : BlockTable) : List Ptr :=
  (List.range t'.rankSize).flatMap fun r => (t'.blockObjs r).drop (t.blockObjs r).length

/-- The blocks `new` came into rank `r`. -/
structure Extended (order : List Ptr) (s : TableWorld HashValue A) (r : ℕ) (new : List Ptr)
    (s' : TableWorld HashValue A) : Prop where
  agrees : Agrees (order ++ new) s'
  blockObjs : s'.table.blockObjs =
    Function.update s.table.blockObjs r (s.table.blockObjs r ++ new)
  rankSize : s'.table.rankSize = s.table.rankSize

theorem flatMap_range_single {α : Type} (new : List α) (r R : ℕ) :
    ((List.range R).flatMap fun r' => if r' = r then new else []) =
      if r < R then new else [] := by
  induction R with
  | zero => rfl
  | succ R ih =>
    rw [List.range_succ, List.flatMap_append, ih, List.flatMap_singleton]
    by_cases hr : r < R
    · rw [if_pos hr, if_neg (by omega), if_pos (by omega), List.append_nil]
    · by_cases heq : R = r
      · rw [if_neg hr, if_pos heq, if_pos (by omega), List.nil_append]
      · rw [if_neg hr, if_neg heq, if_neg (by omega), List.nil_append]

omit [BlockAllocator HashValue A] [LocalBlockAllocator HashValue A] in
theorem Extended.entered {r : ℕ} {new : List Ptr} (h : Extended order s r new s')
    (hr : r < s.table.rankSize) : entered s.table s'.table = new := by
  have hdrop : ∀ r', (s'.table.blockObjs r').drop (s.table.blockObjs r').length =
      if r' = r then new else [] := by
    intro r'
    rw [h.blockObjs, Function.update_apply]
    split_ifs with heq
    · rw [heq, List.drop_left]
    · rw [List.drop_length]
  rw [BlockTable.entered, funext hdrop, flatMap_range_single, h.rankSize, if_pos hr]

theorem entered_congr {t t₁ t₂ : BlockTable} (h : t₂.blockObjs = t₁.blockObjs)
    (hsize : t₂.rankSize = t₁.rankSize) : entered t t₂ = entered t t₁ := by
  rw [entered, entered, h, hsize]

omit [BlockAllocator HashValue A] [LocalBlockAllocator HashValue A] in
/-- No block came into a table that has the blocks it had. -/
theorem Agrees.of_same (h : Agrees order s') (hobjs : s'.table.blockObjs = s.table.blockObjs) :
    Agrees (order ++ BlockTable.entered s.table s'.table) s' := by
  have hentered : BlockTable.entered s.table s'.table = [] := by
    simp [BlockTable.entered, hobjs]
  rwa [hentered, List.append_nil]

theorem wp_growRanks (h : Agrees order s) {r : ℕ} (hr : r < s.table.rankSize)
    (extraHash : HashValue) (K : ℕ) :
    wp (forM (List.range K) fun _ => growRank r r extraHash)
      (fun _ s' => ∃ new, Extended order s r new s') (fun _ _ => True) s := by
  refine wp_forM (I := fun _ s' => ∃ new, Extended order s r new s') _ _ ⟨[], ?_⟩ ?_
  · exact ⟨by rwa [List.append_nil], by rw [List.append_nil, Function.update_eq_self], rfl⟩
  · rintro _ _ s₁ ⟨new, h₁⟩
    refine wp_mono (wp_growRank h₁.agrees (h₁.rankSize ▸ hr) extraHash) ?_ fun _ _ h => h
    rintro _ s₂ ⟨p, b, h₂, htable⟩
    refine ⟨new ++ [p], by rwa [← List.append_assoc], ?_, ?_⟩
    · rw [htable, pushBlock, h₁.blockObjs]
      simp only [Function.update_self, Function.update_idem, List.append_assoc]
    · rw [htable]
      exact h₁.rankSize

end BlockTable

end MindieLLM
