import MindieLLM.Program.Slices
import MindieLLM.TextGenerator.SlotContext

/-!
# Slots of the cache for drafts

The tokens of a draft are cached behind the current token of the sequence, in the blocks of its
table. Look-ahead goes through the table block by block. Memory decoding takes the slots that follow
that of the current token, and replaces those beyond its block by the slots that follow the start of
the next one. A draft that goes beyond that next block leaves it there, wherever the block is.

## Main definitions

* `KvSlots.slot`: where a position of a sequence is cached
* `KvSlots.assign`: the slots that one of the plugins gives to a batch
* `KvSlots.Consecutive`: the blocks after the next one follow it in the cache

## Main results

* `KvSlots.correct_iff`: when the slots are those of the table
* `KvSlots.not_correct`: a draft over three blocks
-/

namespace MindieLLM

open Program

namespace KvSlots

/-- Where the position of a sequence is cached. -/
def slot (blockSize : Nat) (blockTable : List Nat) (position : Nat) : Nat :=
  blockTable.getD (position / blockSize) 0 * blockSize + position % blockSize

/-- A sequence, the position of its current token, and how many tokens are fed from there on. -/
structure KvSequence where
  blockTable : List Nat
  position : Nat
  count : Nat

/-- `list[index]` -/
def getItem (l : List Nat) (i : Nat) : Except PyError Nat :=
  match l[i]? with
  | some x => .ok x
  | none => .error .indexError

/-! ## Look-ahead -/

section LookAhead

variable (numNpuBlocks blockSize : Nat)

/-- `block_table_to_slots` of one block -/
def blockTableToSlots (blockNum : Nat) : Except PyError (List Nat) :=
  if blockNum < numNpuBlocks then .ok (List.range' (blockNum * blockSize) blockSize)
  else .error .indexError

/-- The loop of `insert_slots`. Each round takes one slot at least, so there are no more rounds than
slots that remain. -/
def insertSlotsLoop (blockTable : List Nat) : Nat → Nat → Nat → Nat → Except PyError (List Nat)
  | 0, _, _, _ => .ok []
  | rounds + 1, remain, blockIdx, slotStart =>
    if remain = 0 then .ok []
    else do
      let nextLength := min (blockSize - slotStart) remain
      let blockNum ← getItem blockTable blockIdx
      let slots ← blockTableToSlots numNpuBlocks blockSize blockNum
      let rest ← insertSlotsLoop blockTable rounds (remain - nextLength)
        (blockIdx + (slotStart + nextLength) / blockSize) ((slotStart + nextLength) % blockSize)
      return slice slots slotStart (slotStart + nextLength) ++ rest

def insertSlots (s : KvSequence) : Except PyError (List Nat) :=
  insertSlotsLoop numNpuBlocks blockSize s.blockTable s.count s.count (s.position / blockSize)
    (s.position % blockSize)

end LookAhead

/-! ## Memory decoding -/

/-- The slots of `calc_new_tensor`: the current slot is given, and the index of its block. -/
def calcNewSlots (blockSize : Nat) (blockTable : List Nat) (curBlockIdx startSlot count : Nat) :
    Except PyError (List Nat) := do
  let curBlock ← getItem blockTable curBlockIdx
  let nextBlockSlotCount := startSlot + count - (curBlock + 1) * blockSize
  let temp := List.range' startSlot count
  if nextBlockSlotCount = 0 then return temp
  else
    let nextBlock ← getItem blockTable (curBlockIdx + 1)
    if count < nextBlockSlotCount then .error (.valueError "could not broadcast input array")
    else return temp.take (count - nextBlockSlotCount) ++
      List.range' (nextBlock * blockSize) nextBlockSlotCount

/-! ## A batch -/

inductive Method
  | lookAhead
  | memoryDecoding

/-- The slots of one sequence. -/
def assignOne (numNpuBlocks blockSize : Nat) (method : Method) (s : KvSequence) :
    Except PyError (List Nat) :=
  match method with
  | .lookAhead => insertSlots numNpuBlocks blockSize s
  | .memoryDecoding =>
    calcNewSlots blockSize s.blockTable (s.position / blockSize)
      (slot blockSize s.blockTable s.position) s.count

/-- The slots of a batch, one sequence after the other. -/
def assign (numNpuBlocks blockSize : Nat) (method : Method) (batch : List KvSequence) :
    Except PyError (List Nat) := do
  let rows ← batch.mapM (assignOne numNpuBlocks blockSize method)
  return rows.flatten

/-- The slots by the table. -/
def expected (blockSize : Nat) (s : KvSequence) : List Nat :=
  (List.range s.count).map fun j => slot blockSize s.blockTable (s.position + j)

/-- The blocks of the table are in the cache, and cover the positions that are reserved. -/
structure KvSequence.Covered (numNpuBlocks blockSize : Nat) (s : KvSequence) : Prop where
  pos : 0 < s.count
  covers : (s.position + s.count - 1) / blockSize < s.blockTable.length
  inCache : ∀ b ∈ s.blockTable, b < numNpuBlocks

/-- What is asked for: the slots by the table, which different sequences do not share. -/
structure Correct (numNpuBlocks blockSize : Nat) (method : Method) (batch : List KvSequence) :
    Prop where
  slots : assign numNpuBlocks blockSize method batch = .ok (batch.flatMap (expected blockSize))
  separate : ∀ s ∈ batch, ∀ t ∈ batch, s.blockTable.Disjoint t.blockTable →
    (expected blockSize s).Disjoint (expected blockSize t)

/-- The blocks that the draft reaches after the next one follow that one in the cache. -/
def Consecutive (blockSize : Nat) (s : KvSequence) : Prop :=
  ∀ i, 2 ≤ i → i * blockSize < s.position % blockSize + s.count →
    s.blockTable.getD (s.position / blockSize + i) 0 =
      s.blockTable.getD (s.position / blockSize + 1) 0 + (i - 1)

variable {numNpuBlocks blockSize : Nat} {s t : KvSequence} {table : List Nat}

/-! ## Block by block -/

theorem getItem_of_lt {l : List Nat} {i : Nat} (hi : i < l.length) :
    getItem l i = .ok (l.getD i 0) := by
  unfold getItem
  rw [List.getD_eq_getElem?_getD, List.getElem?_eq_getElem hi, Option.getD_some]

theorem slot_add (hsize : 0 < blockSize) {i r : Nat} (hr : r < blockSize) :
    slot blockSize table (i * blockSize + r) = table.getD i 0 * blockSize + r := by
  unfold slot
  rw [Nat.mul_comm i, Nat.mul_add_div hsize, Nat.div_eq_of_lt hr, Nat.add_zero, Nat.mul_add_mod,
    Nat.mod_eq_of_lt hr]

/-- The slots of one block. -/
theorem slice_range' {b start n : Nat} (hn : start + n ≤ blockSize) :
    slice (List.range' b blockSize) start (start + n) = List.range' (b + start) n := by
  unfold slice
  refine List.ext_getElem (by simp; omega) fun i hi hi' => ?_
  simp only [List.getElem_take, List.getElem_drop, List.getElem_range', Nat.one_mul]
  omega

theorem insertSlotsLoop_eq (hsize : 0 < blockSize) (hcache : ∀ b ∈ table, b < numNpuBlocks)
    {rounds remain blockIdx slotStart : Nat} (hrounds : remain ≤ rounds)
    (hstart : slotStart < blockSize)
    (hcovers : 0 < remain → (blockIdx * blockSize + slotStart + remain - 1) / blockSize <
      table.length) :
    insertSlotsLoop numNpuBlocks blockSize table rounds remain blockIdx slotStart =
      .ok ((List.range remain).map fun j =>
        slot blockSize table (blockIdx * blockSize + slotStart + j)) := by
  induction rounds generalizing remain blockIdx slotStart with
  | zero =>
    obtain rfl : remain = 0 := Nat.le_zero.mp hrounds
    rfl
  | succ rounds ih =>
    rw [insertSlotsLoop]
    split
    · next hzero =>
      subst hzero
      rfl
    next hpos =>
    have hpos : 0 < remain := Nat.pos_of_ne_zero hpos
    specialize hcovers hpos
    have hidx : blockIdx < table.length := by
      refine Nat.lt_of_le_of_lt ?_ hcovers
      rw [Nat.le_div_iff_mul_le hsize]
      omega
    have hblock : table.getD blockIdx 0 < numNpuBlocks := by
      rw [List.getD_eq_getElem?_getD, List.getElem?_eq_getElem hidx, Option.getD_some]
      exact hcache _ (List.getElem_mem hidx)
    set next := min (blockSize - slotStart) remain with hnext
    have hnextPos : 0 < next := by omega
    -- where the next round goes on
    have hgoesOn : (blockIdx + (slotStart + next) / blockSize) * blockSize +
        (slotStart + next) % blockSize = blockIdx * blockSize + slotStart + next := by
      rw [Nat.add_mul, Nat.add_assoc, Nat.div_add_mod', Nat.add_assoc]
    have hcoversRest : 0 < remain - next →
        ((blockIdx + (slotStart + next) / blockSize) * blockSize +
          (slotStart + next) % blockSize + (remain - next) - 1) / blockSize < table.length := by
      intro _
      rw [hgoesOn, show blockIdx * blockSize + slotStart + next + (remain - next) - 1 =
        blockIdx * blockSize + slotStart + remain - 1 by omega]
      exact hcovers
    have hrest := ih (by omega) (Nat.mod_lt _ hsize) hcoversRest
    have hslots : blockTableToSlots numNpuBlocks blockSize (table.getD blockIdx 0) =
        .ok (List.range' (table.getD blockIdx 0 * blockSize) blockSize) := by
      rw [blockTableToSlots, if_pos hblock]
    simp only [getItem_of_lt hidx, hslots, hrest, hgoesOn, bind, Except.bind, pure, Except.pure,
      Except.ok.injEq]
    have hsplit : remain = next + (remain - next) := by omega
    rw [slice_range' (by omega), hsplit, List.range_add, List.map_append, List.map_map,
      Nat.add_sub_cancel_left]
    congr 1
    · -- the rest of the block
      refine List.ext_getElem (by simp) fun j hj _ => ?_
      rw [List.length_range'] at hj
      simp only [List.getElem_range', List.getElem_map, List.getElem_range, Nat.one_mul]
      rw [Nat.add_assoc, Nat.add_assoc, slot_add hsize (by omega)]
    · refine List.map_congr_left fun j _ => ?_
      rw [Function.comp_apply, Nat.add_assoc]

theorem insertSlots_eq (hsize : 0 < blockSize) (hs : s.Covered numNpuBlocks blockSize) :
    insertSlots numNpuBlocks blockSize s = .ok (expected blockSize s) := by
  have hposition : s.position / blockSize * blockSize + s.position % blockSize = s.position :=
    Nat.div_add_mod' ..
  unfold insertSlots expected
  rw [insertSlotsLoop_eq hsize hs.inCache (Nat.le_refl _) (Nat.mod_lt _ hsize), hposition]
  intro _
  rw [hposition]
  exact hs.covers

/-! ## The next block -/

/-- The slots that memory decoding gives: those after the current one, and beyond its block those
after the start of the next block. -/
def following (blockSize : Nat) (s : KvSequence) (j : Nat) : Nat :=
  let offset := s.position % blockSize + j
  if offset < blockSize then
    s.blockTable.getD (s.position / blockSize) 0 * blockSize + offset
  else s.blockTable.getD (s.position / blockSize + 1) 0 * blockSize + (offset - blockSize)

theorem calcNewSlots_eq (hsize : 0 < blockSize) (hs : s.Covered numNpuBlocks blockSize) :
    calcNewSlots blockSize s.blockTable (s.position / blockSize)
        (slot blockSize s.blockTable s.position) s.count =
      .ok ((List.range s.count).map (following blockSize s)) := by
  have hpos := hs.pos
  have hposition : s.position / blockSize * blockSize + s.position % blockSize = s.position :=
    Nat.div_add_mod' ..
  have hoffset : s.position % blockSize < blockSize := Nat.mod_lt _ hsize
  have hreach : ∀ i, i * blockSize ≤ s.position + s.count - 1 → i < s.blockTable.length := by
    intro i hi
    exact Nat.lt_of_le_of_lt ((Nat.le_div_iff_mul_le hsize).mpr hi) hs.covers
  have hcur : s.position / blockSize < s.blockTable.length := hreach _ (by omega)
  have hslot : slot blockSize s.blockTable s.position =
      s.blockTable.getD (s.position / blockSize) 0 * blockSize + s.position % blockSize := rfl
  set cur := s.blockTable.getD (s.position / blockSize) 0 with hcurDef
  set o := s.position % blockSize with ho
  have hbeyond :
      cur * blockSize + o + s.count - (cur + 1) * blockSize = o + s.count - blockSize := by
    rw [Nat.succ_mul]
    omega
  unfold calcNewSlots
  rw [hslot, getItem_of_lt hcur, ← hcurDef]
  simp only [bind, Except.bind, pure, Except.pure, hbeyond]
  split
  · next hzero =>
    -- the draft ends in the block
    refine congrArg Except.ok (List.ext_getElem (by simp) fun j hj _ => ?_)
    rw [List.length_range'] at hj
    simp only [List.getElem_range', List.getElem_map, List.getElem_range, Nat.one_mul, following]
    rw [if_pos (by omega), ← hcurDef, Nat.add_assoc]
  · next hmore =>
    have hnext : s.position / blockSize + 1 < s.blockTable.length := hreach _ (by
      rw [Nat.succ_mul]
      omega)
    rw [getItem_of_lt hnext]
    dsimp only
    rw [if_neg (by omega)]
    refine congrArg Except.ok (List.ext_getElem (by simp; omega) fun j hj hj' => ?_)
    rw [List.length_map, List.length_range] at hj'
    simp only [List.getElem_map, List.getElem_range, following]
    by_cases hin : o + j < blockSize
    · rw [if_pos hin, List.getElem_append_left (by simp; omega)]
      simp only [List.getElem_take, List.getElem_range', Nat.one_mul]
      rw [← hcurDef, Nat.add_assoc]
    · rw [if_neg hin, List.getElem_append_right (by simp; omega)]
      simp only [List.getElem_range', Nat.one_mul, List.length_take, List.length_range']
      congr 1
      omega

/-- What is asked for, by the block and the offset in it. -/
theorem slot_position_add (hsize : 0 < blockSize) {i r j : Nat} (hr : r < blockSize)
    (hj : s.position % blockSize + j = i * blockSize + r) :
    slot blockSize s.blockTable (s.position + j) =
      s.blockTable.getD (s.position / blockSize + i) 0 * blockSize + r := by
  have hposition : s.position / blockSize * blockSize + s.position % blockSize = s.position :=
    Nat.div_add_mod' ..
  have hsum : s.position + j = (s.position / blockSize + i) * blockSize + r := by
    rw [Nat.add_mul]
    omega
  rw [hsum, slot_add hsize hr]

theorem calcNewSlots_eq_expected_iff (hsize : 0 < blockSize)
    (hs : s.Covered numNpuBlocks blockSize) :
    calcNewSlots blockSize s.blockTable (s.position / blockSize)
        (slot blockSize s.blockTable s.position) s.count = .ok (expected blockSize s) ↔
      Consecutive blockSize s := by
  have hoffset : s.position % blockSize < blockSize := Nat.mod_lt _ hsize
  rw [calcNewSlots_eq hsize hs, Except.ok.injEq, expected]
  constructor
  · intro heq i hi hlt
    have hge : 2 * blockSize ≤ i * blockSize := Nat.mul_le_mul_right _ hi
    have hlen : i * blockSize - s.position % blockSize < s.count := by omega
    have hsum : s.position % blockSize + (i * blockSize - s.position % blockSize) =
        i * blockSize := by omega
    -- the first slot of the block
    have hj := congrArg (fun l => l[i * blockSize - s.position % blockSize]?) heq
    simp only [List.getElem?_map, List.getElem?_range hlen, Option.map_some,
      Option.some.injEq, following, hsum] at hj
    rw [if_neg (by omega), slot_position_add hsize hsize (hsum.trans (Nat.add_zero _).symm),
      Nat.add_zero] at hj
    have hmul : s.blockTable.getD (s.position / blockSize + 1) 0 * blockSize +
        (i * blockSize - blockSize) =
        (s.blockTable.getD (s.position / blockSize + 1) 0 + (i - 1)) * blockSize := by
      rw [Nat.add_mul, Nat.sub_mul, Nat.one_mul]
    rw [hmul] at hj
    exact (Nat.eq_of_mul_eq_mul_right hsize hj).symm
  · intro hconsecutive
    refine List.map_congr_left fun j hj => ?_
    rw [List.mem_range] at hj
    obtain ⟨i, hi⟩ : ∃ i, (s.position % blockSize + j) / blockSize = i := ⟨_, rfl⟩
    obtain ⟨r, hr⟩ : ∃ r, (s.position % blockSize + j) % blockSize = r := ⟨_, rfl⟩
    have hmod : r < blockSize := hr ▸ Nat.mod_lt _ hsize
    have hdiv : s.position % blockSize + j = i * blockSize + r := by
      rw [← hi, ← hr, Nat.div_add_mod']
    rw [slot_position_add hsize hmod hdiv, following, hdiv]
    rcases Nat.lt_trichotomy i 1 with hzero | rfl | hmore
    · obtain rfl : i = 0 := by omega
      rw [Nat.zero_mul, Nat.zero_add, if_pos hmod, Nat.add_zero]
    · rw [Nat.one_mul, if_neg (by omega), Nat.add_sub_cancel_left]
    · have hge : 2 * blockSize ≤ i * blockSize := Nat.mul_le_mul_right _ hmore
      rw [if_neg (by omega), hconsecutive i hmore (by omega), Nat.add_mul, Nat.sub_mul,
        Nat.one_mul]
      omega

/-! ## A batch -/

theorem assignOne_eq_expected_iff (hsize : 0 < blockSize) {method : Method}
    (hs : s.Covered numNpuBlocks blockSize) :
    assignOne numNpuBlocks blockSize method s = .ok (expected blockSize s) ↔
      (method = .memoryDecoding → Consecutive blockSize s) := by
  cases method with
  | lookAhead => exact iff_of_true (insertSlots_eq hsize hs) nofun
  | memoryDecoding =>
    rw [forall_prop_of_true rfl]
    exact calcNewSlots_eq_expected_iff hsize hs

/-- Each sequence gets as many slots as it has tokens, right or wrong. -/
theorem exists_assignOne (hsize : 0 < blockSize) (method : Method)
    (hs : s.Covered numNpuBlocks blockSize) :
    ∃ row, assignOne numNpuBlocks blockSize method s = .ok row ∧ row.length = s.count := by
  cases method with
  | lookAhead => exact ⟨_, insertSlots_eq hsize hs, by simp [expected]⟩
  | memoryDecoding => exact ⟨_, calcNewSlots_eq hsize hs, by simp⟩

theorem exists_rows (hsize : 0 < blockSize) (method : Method) {batch : List KvSequence}
    (hbatch : ∀ s ∈ batch, s.Covered numNpuBlocks blockSize) :
    ∃ rows, List.Forall₂ (fun s row => assignOne numNpuBlocks blockSize method s = .ok row ∧
      row.length = s.count) batch rows := by
  induction batch with
  | nil => exact ⟨[], .nil⟩
  | cons s batch ih =>
    obtain ⟨row, hrow⟩ := exists_assignOne hsize method (hbatch s List.mem_cons_self)
    obtain ⟨rows, hrows⟩ := ih fun t ht => hbatch t (List.mem_cons_of_mem _ ht)
    exact ⟨row :: rows, .cons hrow hrows⟩

/-- Rows of the right lengths are right if they are so one after the other. -/
theorem flatten_eq_iff {batch : List KvSequence} {rows : List (List Nat)}
    (hrows : List.Forall₂ (fun s row => row.length = s.count) batch rows) :
    rows.flatten = batch.flatMap (expected blockSize) ↔
      List.Forall₂ (fun s row => row = expected blockSize s) batch rows := by
  induction hrows with
  | nil => simp
  | cons hlength _ ih =>
    rw [List.flatten_cons, List.flatMap_cons, List.forall₂_cons, ← ih]
    constructor
    · intro heq
      exact List.append_inj heq (by simp [hlength, expected])
    · rintro ⟨rfl, hrest⟩
      rw [hrest]

theorem assign_eq_iff (hsize : 0 < blockSize) {method : Method} {batch : List KvSequence}
    (hbatch : ∀ s ∈ batch, s.Covered numNpuBlocks blockSize) :
    assign numNpuBlocks blockSize method batch = .ok (batch.flatMap (expected blockSize)) ↔
      ∀ s ∈ batch, assignOne numNpuBlocks blockSize method s = .ok (expected blockSize s) := by
  obtain ⟨rows, hrows⟩ := exists_rows hsize method hbatch
  have hassign : assign numNpuBlocks blockSize method batch = .ok rows.flatten := by
    unfold assign
    rw [mapM_eq_ok_iff.mpr (hrows.imp fun _ _ h => h.1)]
    rfl
  rw [hassign, Except.ok.injEq, flatten_eq_iff (hrows.imp fun _ _ h => h.2)]
  clear hassign hbatch
  induction hrows with
  | nil => simp
  | cons h _ ih =>
    rw [List.forall₂_cons, List.forall_mem_cons, h.1, Except.ok.injEq]
    exact and_congr_right fun _ => ih

/-- Positions of sequences that share no block are cached at different slots. -/
theorem disjoint_expected (hsize : 0 < blockSize) (hs : s.Covered numNpuBlocks blockSize)
    (ht : t.Covered numNpuBlocks blockSize) (hdisjoint : s.blockTable.Disjoint t.blockTable) :
    (expected blockSize s).Disjoint (expected blockSize t) := by
  -- the block of a slot is in the table
  have hmem : ∀ u : KvSequence, u.Covered numNpuBlocks blockSize →
      ∀ x ∈ expected blockSize u, x / blockSize ∈ u.blockTable := by
    intro u hu x hx
    obtain ⟨j, hj, rfl⟩ := List.mem_map.mp hx
    rw [List.mem_range] at hj
    have hlt : (u.position + j) / blockSize < u.blockTable.length := by
      refine Nat.lt_of_le_of_lt (Nat.div_le_div_right ?_) hu.covers
      omega
    rw [slot, Nat.mul_comm, Nat.mul_add_div hsize, Nat.div_eq_of_lt (Nat.mod_lt _ hsize),
      Nat.add_zero, List.getD_eq_getElem?_getD, List.getElem?_eq_getElem hlt, Option.getD_some]
    exact List.getElem_mem hlt
  exact fun x hx hx' => hdisjoint (hmem s hs x hx) (hmem t ht x hx')

/-- **The slots are those of the tables** always for look-ahead, and for memory decoding exactly if
no draft goes on beyond the next block, or the blocks beyond follow it in the cache. -/
theorem correct_iff (hsize : 0 < blockSize) (method : Method) (batch : List KvSequence)
    (hbatch : ∀ s ∈ batch, s.Covered numNpuBlocks blockSize) :
    Correct numNpuBlocks blockSize method batch ↔
      (method = .memoryDecoding → ∀ s ∈ batch, Consecutive blockSize s) := by
  have hone : (∀ s ∈ batch, assignOne numNpuBlocks blockSize method s =
      .ok (expected blockSize s)) ↔ (method = .memoryDecoding → ∀ s ∈ batch,
        Consecutive blockSize s) := by
    constructor
    · intro hall hmethod s hs
      exact (assignOne_eq_expected_iff hsize (hbatch s hs)).mp (hall s hs) hmethod
    · intro hall s hs
      exact (assignOne_eq_expected_iff hsize (hbatch s hs)).mpr fun hmethod => hall hmethod s hs
  rw [← hone, ← assign_eq_iff hsize hbatch]
  refine ⟨Correct.slots, fun hslots => ⟨hslots, fun s hs t ht hdisjoint => ?_⟩⟩
  exact disjoint_expected hsize (hbatch s hs) (hbatch t ht) hdisjoint

section Example

/-- A draft of ten tokens over three blocks of four. -/
def overThreeBlocks : KvSequence where
  blockTable := [5, 2, 7]
  position := 1
  count := 10

theorem correct_iff_overThreeBlocks :
    Correct 8 4 .lookAhead [overThreeBlocks] ↔
      (Method.lookAhead = .memoryDecoding → ∀ s ∈ [overThreeBlocks], Consecutive 4 s) := by
  refine correct_iff (by decide) .lookAhead [overThreeBlocks] fun s hs => ?_
  rw [List.mem_singleton.mp hs]
  exact ⟨by decide, by decide, by decide⟩

/-- The tokens after the second block are cached in the block that follows it in the cache, not in
the third block of the table. -/
theorem not_correct :
    ¬∀ numNpuBlocks blockSize method batch, 0 < blockSize →
      (∀ s ∈ batch, KvSequence.Covered numNpuBlocks blockSize s) →
      Correct numNpuBlocks blockSize method batch := by
  intro hall
  have hcorrect := hall 8 4 .memoryDecoding [overThreeBlocks] (by decide) fun s hs => by
    rw [List.mem_singleton.mp hs]
    exact ⟨by decide, by decide, by decide⟩
  exact absurd hcorrect.slots (by decide)

end Example

end KvSlots

end MindieLLM
