import MindieLLM.BlockManager.BlockObj
import MindieLLM.Program.PriorityQueue
import Mathlib.Tactic.Positivity

/-!
# What an allocator knows about its block ids

Reference counts, copy-on-write records, the active and computed flags of ids in use, and the
evictor, which keeps ids that no block uses but whose contents can still be reused.

## Main definitions

* `RefCounter`, `CopyOnWriteTracker`, `BlockComputedAttr`, `HitRateCalculator`
* `LRUEvictor`: candidates for eviction and a priority queue over them, with stale entries

## Main results

* `RefCounter.wp_increase`, `RefCounter.wp_decrease`, `BlockComputedAttr.wp_enable`,
  `BlockComputedAttr.wp_disable`: what each operation does and when it throws
* `LRUEvictor.wp_evict`: an eviction takes one candidate out
-/

namespace MindieLLM

open Program

variable {HashValue : Type}

/-! ## Reference counts -/

/-- Reference counts of the managed ids; `none` for an id that is not managed. -/
structure RefCounter where
  refCounts : BlockId → Option RefCount

namespace RefCounter

/-- `MakeRefCounterProtocol` -/
def make (allBlockIndices : List BlockId) : RefCounter where
  refCounts b := if b ∈ allBlockIndices then some 0 else none

def setCount (rc : RefCounter) (b : BlockId) (n : RefCount) : RefCounter where
  refCounts := Function.update rc.refCounts b (some n)

@[simp]
theorem setCount_same (rc : RefCounter) (b : BlockId) (n : RefCount) :
    (rc.setCount b n).refCounts b = some n := by
  simp [setCount]

theorem setCount_ne (rc : RefCounter) {b c : BlockId} (n : RefCount) (h : c ≠ b) :
    (rc.setCount b n).refCounts c = rc.refCounts c := by
  simp [setCount, h]

def increase (b : BlockId) : EStateM Exn RefCounter RefCount := do
  let rc ← get
  match rc.refCounts b with
  | none => throw (.runtimeError "the blockId's information invalid.")
  | some n =>
    if n < 0 then
      throw (.runtimeError "the blockId's information invalid.")
    set (rc.setCount b (n + 1))
    return n + 1

def decrease (b : BlockId) : EStateM Exn RefCounter RefCount := do
  let rc ← get
  match rc.refCounts b with
  | none => throw (.runtimeError "the blockId's information invalid.")
  | some n =>
    if n ≤ 0 then
      throw (.runtimeError "the blockId's information invalid.")
    set (rc.setCount b (n - 1))
    return n - 1

def getRefCount (b : BlockId) : EStateM Exn RefCounter RefCount := do
  let rc ← get
  match rc.refCounts b with
  | none => throw (.runtimeError "the blockId's information invalid.")
  | some n => return n

section Rules

variable {Q : RefCount → RefCounter → Prop} {T : Exn → RefCounter → Prop} {rc : RefCounter}
  {b : BlockId}

theorem wp_increase :
    wp (increase b) Q T rc ↔
      (∀ n, rc.refCounts b = some n → 0 ≤ n → Q (n + 1) (rc.setCount b (n + 1))) ∧
      ((∀ n, rc.refCounts b = some n → n < 0) →
        T (.runtimeError "the blockId's information invalid.") rc) := by
  unfold increase
  cases h : rc.refCounts b with
  | none => simp [h]
  | some n => by_cases hn : n < 0 <;> simp [h, hn, not_le.mpr, not_lt.mp]

theorem wp_decrease :
    wp (decrease b) Q T rc ↔
      (∀ n, rc.refCounts b = some n → 0 < n → Q (n - 1) (rc.setCount b (n - 1))) ∧
      ((∀ n, rc.refCounts b = some n → n ≤ 0) →
        T (.runtimeError "the blockId's information invalid.") rc) := by
  unfold decrease
  cases h : rc.refCounts b with
  | none => simp [h]
  | some n => by_cases hn : n ≤ 0 <;> simp [h, hn, not_lt.mpr, not_le.mp]

theorem wp_getRefCount :
    wp (getRefCount b) Q T rc ↔
      (∀ n, rc.refCounts b = some n → Q n rc) ∧
      (rc.refCounts b = none → T (.runtimeError "the blockId's information invalid.") rc) := by
  unfold getRefCount
  cases h : rc.refCounts b <;> simp [h]

end Rules

end RefCounter

/-- The pairs (source, target) of block ids copied on write since the last clear. The tracker
reads the reference counts of the allocator it belongs to. -/
structure CopyOnWriteTracker where
  copyOnWrites : List (BlockId × BlockId)

namespace CopyOnWriteTracker

def recordCow (t : CopyOnWriteTracker) (src target : BlockId) : CopyOnWriteTracker :=
  ⟨t.copyOnWrites ++ [(src, target)]⟩

/-- `ClearCows` returns the pairs and forgets them. -/
def clearCows (t : CopyOnWriteTracker) : List (BlockId × BlockId) × CopyOnWriteTracker :=
  (t.copyOnWrites, ⟨[]⟩)

end CopyOnWriteTracker

/-! ## Active and computed flags -/

structure BlockInfo where
  active : Bool := false
  computed : Bool := false
  lastAccessed : TimeStamp := defaultLastAccessedTime
  deriving DecidableEq

/-- `BlockComputedAttr` of the ids `beginBlockId, …, beginBlockId + numBlocks - 1`. -/
structure BlockComputedAttr where
  beginBlockId : BlockId
  numBlocks : Nat
  blockInfos : BlockId → BlockInfo

namespace BlockComputedAttr

def new (numBlocks : Nat) (beginBlockId : BlockId) : BlockComputedAttr where
  beginBlockId := beginBlockId
  numBlocks := numBlocks
  blockInfos := fun _ => {}

/-- `IsValidBlockId` returns true or throws. -/
def isValidBlockId (b : BlockId) : EStateM Exn BlockComputedAttr Unit := do
  let s ← get
  if ¬(s.beginBlockId ≤ b ∧ b < s.beginBlockId + s.numBlocks) then
    throw (.runtimeError "blockId is error!")

def updateInfo (b : BlockId) (f : BlockInfo → BlockInfo) (s : BlockComputedAttr) :
    BlockComputedAttr :=
  { s with blockInfos := Function.update s.blockInfos b (f (s.blockInfos b)) }

def setActive (b : BlockId) (active : Bool) : EStateM Exn BlockComputedAttr Unit := do
  isValidBlockId b
  modify (updateInfo b fun i => { i with active := active })

def isActive (b : BlockId) : EStateM Exn BlockComputedAttr Bool := do
  isValidBlockId b
  let s ← get
  return (s.blockInfos b).active

def setComputed (b : BlockId) (computed : Bool) : EStateM Exn BlockComputedAttr Unit := do
  isValidBlockId b
  modify (updateInfo b fun i => { i with computed := computed })

def isComputed (b : BlockId) : EStateM Exn BlockComputedAttr Bool := do
  isValidBlockId b
  let s ← get
  return (s.blockInfos b).computed

def updateAccessTime (b : BlockId) (now : TimeStamp) : EStateM Exn BlockComputedAttr Unit := do
  isValidBlockId b
  modify (updateInfo b fun i => { i with lastAccessed := now })

def lastAccessed (b : BlockId) : EStateM Exn BlockComputedAttr TimeStamp := do
  isValidBlockId b
  let s ← get
  return (s.blockInfos b).lastAccessed

def reset (b : BlockId) : EStateM Exn BlockComputedAttr Unit := do
  setComputed b false
  updateAccessTime b defaultLastAccessedTime

def enable (b : BlockId) : EStateM Exn BlockComputedAttr Unit := do
  if ← isActive b then
    throw (.runtimeError "activeFlag_ is true, illegal to run Enable function!")
  setActive b true
  reset b

def disable (b : BlockId) : EStateM Exn BlockComputedAttr Unit := do
  if !(← isActive b) then
    throw (.runtimeError "activeFlag_ is true, illegal to run Enable function!")
  setActive b false
  reset b

/-- The ids the flags are kept for. -/
def Valid (s : BlockComputedAttr) (b : BlockId) : Prop :=
  s.beginBlockId ≤ b ∧ b < s.beginBlockId + s.numBlocks

instance (s : BlockComputedAttr) (b : BlockId) : Decidable (s.Valid b) :=
  inferInstanceAs (Decidable (_ ∧ _))

@[simp]
theorem valid_updateInfo {s : BlockComputedAttr} {b c : BlockId} {f : BlockInfo → BlockInfo} :
    (s.updateInfo b f).Valid c ↔ s.Valid c := Iff.rfl

theorem updateInfo_blockInfos (s : BlockComputedAttr) (b c : BlockId)
    (f : BlockInfo → BlockInfo) :
    (s.updateInfo b f).blockInfos c = if c = b then f (s.blockInfos b) else s.blockInfos c := by
  simp [updateInfo, Function.update_apply]

theorem updateInfo_updateInfo (s : BlockComputedAttr) (b : BlockId)
    (f g : BlockInfo → BlockInfo) :
    (s.updateInfo b f).updateInfo b g = s.updateInfo b (g ∘ f) := by
  simp [updateInfo]

section Rules

variable {T : Exn → BlockComputedAttr → Prop} {s : BlockComputedAttr} {b : BlockId}

@[simp]
theorem wp_isValidBlockId {Q : Unit → BlockComputedAttr → Prop} :
    wp (isValidBlockId b) Q T s ↔
      (s.Valid b → Q () s) ∧ (¬s.Valid b → T (.runtimeError "blockId is error!") s) := by
  unfold isValidBlockId
  rw [wp_bind, wp_get]
  change wp (if ¬s.Valid b then _ else _) Q T s ↔ _
  by_cases h : s.Valid b <;> simp [h]

/-- `Enable` turns an inactive id into one that is active, not computed and never accessed. -/
theorem wp_enable {Q : Unit → BlockComputedAttr → Prop} :
    wp (enable b) Q T s ↔
      (s.Valid b → (s.blockInfos b).active = false →
        Q () (s.updateInfo b fun _ => { active := true })) ∧
      (s.Valid b → (s.blockInfos b).active = true →
        T (.runtimeError "activeFlag_ is true, illegal to run Enable function!") s) ∧
      (¬s.Valid b → T (.runtimeError "blockId is error!") s) := by
  unfold enable reset isActive setActive setComputed updateAccessTime
  by_cases h : s.Valid b
  · cases ha : (s.blockInfos b).active <;> simp [h, ha, updateInfo_updateInfo, Function.comp_def]
  · simp [h]

/-- `Disable` turns an active id into one that is inactive, not computed and never accessed. -/
theorem wp_disable {Q : Unit → BlockComputedAttr → Prop} :
    wp (disable b) Q T s ↔
      (s.Valid b → (s.blockInfos b).active = true → Q () (s.updateInfo b fun _ => {})) ∧
      (s.Valid b → (s.blockInfos b).active = false →
        T (.runtimeError "activeFlag_ is true, illegal to run Enable function!") s) ∧
      (¬s.Valid b → T (.runtimeError "blockId is error!") s) := by
  unfold disable reset isActive setActive setComputed updateAccessTime
  by_cases h : s.Valid b
  · cases ha : (s.blockInfos b).active <;> simp [h, ha, updateInfo_updateInfo, Function.comp_def]
  · simp [h]

end Rules

end BlockComputedAttr

/-! ## Hit rate -/

/-- `HitRateCalculator`; the warning about an overflow is left out. -/
structure HitRateCalculator where
  hitNum : Nat
  missNum : Nat

namespace HitRateCalculator

def record (hit : Bool) (c : HitRateCalculator) : HitRateCalculator :=
  if hit then { c with hitNum := c.hitNum + 1 } else { c with missNum := c.missNum + 1 }

end HitRateCalculator

/-! ## The evictor -/

/-- How access times are compared. The code computes in single precision, so that times which are
far from each other may be close. However the operations round, a time is close to itself. -/
class TimeComparison where
  /-- `IsClose` with its default tolerances. -/
  isClose : TimeStamp → TimeStamp → Bool
  /-- The distance is more than `epsilon`. -/
  differ : TimeStamp → TimeStamp → Bool
  isClose_self : ∀ t, isClose t t = true

export TimeComparison (isClose isClose_self)

/-- The comparison of exact times. The tolerances are the single-precision value of 1e-6. -/
instance : TimeComparison where
  isClose a b :=
    let tol : Rat := 8796093 / 8796093022208
    decide (|a - b| ≤ max tol (tol * max |a| |b|))
  differ a b := decide (|a - b| > 1 / 8388608)
  isClose_self a := by
    simp only [sub_self, abs_zero, decide_eq_true_eq]
    exact le_max_of_le_left (by positivity)

structure BlockMetaData (HashValue : Type) where
  blockId : BlockId
  prefixHash : HashValue
  hashedTokensNum : Nat
  lastAccessedTime : TimeStamp

/-- `operator<`: the least recently accessed block is the greatest, and among blocks accessed at
the same time the one with the most tokens. -/
def BlockMetaData.lt [TimeComparison] (a b : BlockMetaData HashValue) : Bool :=
  if TimeComparison.differ a.lastAccessedTime b.lastAccessedTime then
    decide (a.lastAccessedTime > b.lastAccessedTime)
  else
    decide (a.hashedTokensNum < b.hashedTokensNum)

def lruEvictorCleanupThreshold : Nat := 50

/-- The candidates for eviction, and the queue that orders them. Removing a candidate leaves its
queue entry behind, so the queue can hold stale entries. -/
structure LRUEvictor (HashValue : Type) where
  candidates : AList fun _ : BlockId => BlockMetaData HashValue
  priorityQueue : List (BlockMetaData HashValue)

namespace LRUEvictor

def new : LRUEvictor HashValue := ⟨∅, []⟩

def containsBlock (e : LRUEvictor HashValue) (b : BlockId) : Bool :=
  (e.candidates.lookup b).isSome

def getNumblocks (e : LRUEvictor HashValue) : Nat := e.candidates.entries.length

section Evict

variable [TimeComparison]

/-- The loop of `Evict`; every round pops one element, so the length of the queue bounds the
number of rounds. -/
def evictLoop : Nat → EStateM Exn (LRUEvictor HashValue) (HashValue × BlockId)
  | 0 => throw (.runtimeError "No usable cache memory left")
  | n + 1 => do
    let e ← get
    match PriorityQueue.pop BlockMetaData.lt e.priorityQueue with
    | none => throw (.runtimeError "No usable cache memory left")
    | some (data, rest) =>
      set { e with priorityQueue := rest }
      match e.candidates.lookup data.blockId with
      | none => evictLoop n
      | some d =>
        if isClose d.lastAccessedTime data.lastAccessedTime then
          set (LRUEvictor.mk (e.candidates.erase data.blockId) rest)
          return (d.prefixHash, data.blockId)
        else
          evictLoop n

def evict : EStateM Exn (LRUEvictor HashValue) (HashValue × BlockId) := do
  let e ← get
  if e.candidates.entries.isEmpty then
    throw (.runtimeError "No usable cache memory!")
  evictLoop e.priorityQueue.length

end Evict

/-- `Cleanup` rebuilds the queue from the candidates. -/
def cleanup (e : LRUEvictor HashValue) : LRUEvictor HashValue :=
  { e with priorityQueue := e.candidates.entries.map (·.2) }

def add (b : BlockId) (prefixHash : HashValue) (numHashedTokens : Nat)
    (lastAccessedTime : TimeStamp) (e : LRUEvictor HashValue) : LRUEvictor HashValue :=
  let data := ⟨b, prefixHash, numHashedTokens, lastAccessedTime⟩
  let e : LRUEvictor HashValue :=
    { candidates := e.candidates.insert b data, priorityQueue := data :: e.priorityQueue }
  if e.priorityQueue.length > lruEvictorCleanupThreshold * e.candidates.entries.length then
    e.cleanup
  else
    e

/-- `Update`; for an id that is no candidate the code makes one of indeterminate contents. -/
def update (b : BlockId) (lastAccessed : TimeStamp) :
    EStateM Exn (LRUEvictor HashValue) Unit := do
  let e ← get
  match e.candidates.lookup b with
  | none => throw (.undefinedBehavior "update of a block that is no candidate")
  | some d =>
    set { e with candidates := e.candidates.insert b { d with lastAccessedTime := lastAccessed } }

def remove (b : BlockId) (e : LRUEvictor HashValue) : LRUEvictor HashValue :=
  { e with candidates := e.candidates.erase b }

/-! ### Eviction -/

/-- Every candidate is recorded under its own id and has an up-to-date queue entry. -/
def Covered (e : LRUEvictor HashValue) : Prop :=
  ∀ b d, e.candidates.lookup b = some d → d.blockId = b ∧ d ∈ e.priorityQueue

/-- The outcome of an eviction from `e`: one candidate is gone and nothing else changed. -/
def Evicted (e : LRUEvictor HashValue) (r : HashValue × BlockId) (e' : LRUEvictor HashValue) :
    Prop :=
  (∃ d, e.candidates.lookup r.2 = some d ∧ r.1 = d.prefixHash) ∧
    e'.candidates = e.candidates.erase r.2 ∧ (e.Covered → e'.Covered)

/-- The entry seems to belong to a candidate. -/
def Usable [TimeComparison] (e : LRUEvictor HashValue) (q : BlockMetaData HashValue) : Prop :=
  ∃ d, e.candidates.lookup q.blockId = some d ∧
    isClose d.lastAccessedTime q.lastAccessedTime = true

/-- The loop of `Evict` has passed over `skipped`, and found the candidate `d` by the entry `q`. -/
structure Found [TimeComparison] (e : LRUEvictor HashValue) (r : HashValue × BlockId)
    (e' : LRUEvictor HashValue) (skipped : List (BlockMetaData HashValue))
    (q d : BlockMetaData HashValue) : Prop where
  queue : e.priorityQueue.Perm (skipped ++ q :: e'.priorityQueue)
  passed : ∀ q' ∈ skipped, ¬e.Usable q'
  blockId : q.blockId = r.2
  lookup : e.candidates.lookup r.2 = some d
  close : isClose d.lastAccessedTime q.lastAccessedTime = true
  prefixHash : r.1 = d.prefixHash
  erased : e'.candidates = e.candidates.erase r.2
  greatest : PriorityQueue.WeakOrderOn BlockMetaData.lt e.priorityQueue →
    ∀ q' ∈ e.priorityQueue, q' ∉ skipped → BlockMetaData.lt q q' = false

/-- An entry that belongs to no candidate is passed over. -/
theorem Found.skip [TimeComparison] {e e' : LRUEvictor HashValue} {r : HashValue × BlockId}
    {data q d : BlockMetaData HashValue} {rest skipped : List (BlockMetaData HashValue)}
    (hperm : e.priorityQueue.Perm (data :: rest)) (hstale : ¬e.Usable data)
    (h : Found { e with priorityQueue := rest } r e' skipped q d) :
    e.Found r e' (data :: skipped) q d where
  queue := hperm.trans (h.queue.cons data)
  passed := List.forall_mem_cons.mpr ⟨hstale, h.passed⟩
  blockId := h.blockId
  lookup := h.lookup
  close := h.close
  prefixHash := h.prefixHash
  erased := h.erased
  greatest hweak q' hq' hnot := by
    rw [List.mem_cons, not_or] at hnot
    rcases List.mem_cons.mp (hperm.subset hq') with rfl | hmem
    · exact absurd rfl hnot.1
    · have hrest := hweak.subset fun q hq => hperm.symm.subset (List.mem_cons_of_mem _ hq)
      exact h.greatest hrest q' hmem hnot.2

/-- The loop of `Evict` stops at the first entry that belongs to a candidate, and fails if no
entry does. -/
theorem wp_evictLoop [TimeComparison] (n : Nat) (e : LRUEvictor HashValue)
    (hn : e.priorityQueue.length = n) :
    wp (evictLoop n) (fun r e' => ∃ skipped q d, e.Found r e' skipped q d)
      (fun _ e' => e'.candidates = e.candidates ∧ ∀ q ∈ e.priorityQueue, ¬e.Usable q) e := by
  induction n generalizing e with
  | zero =>
    rw [List.eq_nil_of_length_eq_zero hn]
    exact ⟨rfl, fun q hq => by cases hq⟩
  | succ n ih =>
    unfold evictLoop
    rw [wp_bind, wp_get]
    cases hp : PriorityQueue.pop BlockMetaData.lt e.priorityQueue with
    | none =>
      rw [PriorityQueue.pop_eq_none_iff.mp hp] at hn
      cases hn
    | some r =>
      obtain ⟨data, rest⟩ := r
      have hperm := PriorityQueue.pop_perm hp
      have hlen : rest.length = n := by
        have := PriorityQueue.pop_length hp
        omega
      have skip (hstale : ¬e.Usable data) :
          wp (evictLoop n) (fun r e' => ∃ skipped q d, e.Found r e' skipped q d)
            (fun _ e' => e'.candidates = e.candidates ∧ ∀ q ∈ e.priorityQueue, ¬e.Usable q)
            { e with priorityQueue := rest } := by
        refine wp_mono (ih { e with priorityQueue := rest } hlen) ?_ ?_
        · rintro r e' ⟨skipped, q, d, hfound⟩
          exact ⟨data :: skipped, q, d, hfound.skip hperm hstale⟩
        · intro _ e' ⟨hcand, hnone⟩
          refine ⟨hcand, fun q hq => ?_⟩
          rcases List.mem_cons.mp (hperm.subset hq) with rfl | hq
          · exact hstale
          · exact hnone q hq
      simp only [wp_bind, wp_set]
      cases hd : e.candidates.lookup data.blockId with
      | none => exact skip (by simp [Usable, hd])
      | some d =>
        cases hclose : isClose d.lastAccessedTime data.lastAccessedTime with
        | false =>
          simp only [hclose, Bool.false_eq_true, if_false]
          exact skip (by simp [Usable, hd, hclose])
        | true =>
          simp only [hclose, if_true, wp_bind, wp_set, wp_pure]
          exact ⟨[], data, d, hperm, by simp, rfl, hd, hclose, rfl, rfl,
            fun hweak q hq _ => PriorityQueue.pop_greatest hweak hp q hq⟩

/-- What a candidate is recorded under is not passed over. -/
theorem Found.mem_queue [TimeComparison] {e e' : LRUEvictor HashValue} {r : HashValue × BlockId}
    {q q' d : BlockMetaData HashValue} {skipped : List (BlockMetaData HashValue)}
    (h : e.Found r e' skipped q d) (hmem : q' ∈ e.priorityQueue) (husable : e.Usable q')
    (hne : q'.blockId ≠ r.2) : q' ∈ e'.priorityQueue := by
  rcases List.mem_append.mp (h.queue.subset hmem) with hskip | hq
  · exact absurd husable (h.passed q' hskip)
  rcases List.mem_cons.mp hq with rfl | hq
  · exact absurd h.blockId hne
  · exact hq

theorem Found.evicted [TimeComparison] {e e' : LRUEvictor HashValue} {r : HashValue × BlockId}
    {q d : BlockMetaData HashValue} {skipped : List (BlockMetaData HashValue)}
    (h : e.Found r e' skipped q d) : e.Evicted r e' := by
  refine ⟨⟨d, h.lookup, h.prefixHash⟩, h.erased, fun hc b d' hd' => ?_⟩
  have hne : b ≠ r.2 := by
    rintro rfl
    simp [h.erased] at hd'
  rw [h.erased, AList.lookup_erase_ne hne] at hd'
  obtain ⟨hb, hmem⟩ := hc b d' hd'
  exact ⟨hb, h.mem_queue hmem ⟨d', hb.symm ▸ hd', isClose_self _⟩ (hb ▸ hne)⟩

/-- An eviction takes one candidate out. It fails only if there is none, as long as every
candidate has its queue entry. -/
theorem wp_evict [TimeComparison] (e : LRUEvictor HashValue) :
    wp evict e.Evicted (fun _ _ => e.Covered → e.candidates.entries = []) e := by
  unfold evict
  rw [wp_bind, wp_get]
  cases h : e.candidates.entries with
  | nil => simp
  | cons x xs =>
    simp only [List.isEmpty_cons, Bool.false_eq_true, if_false]
    refine wp_mono (wp_evictLoop _ e rfl) ?_ fun _ _ hfail hc => ?_
    · rintro r e' ⟨skipped, q, d, hfound⟩
      exact hfound.evicted
    · have hd : e.candidates.lookup x.1 = some x.2 :=
        AList.mem_lookup_iff.mpr (h ▸ List.mem_cons_self)
      obtain ⟨hb, hmem⟩ := hc _ _ hd
      exact absurd ⟨x.2, hb.symm ▸ hd, isClose_self _⟩ (hfail.2 _ hmem)

theorem covered_new : (new : LRUEvictor HashValue).Covered := by
  intro b d h
  simp [new] at h

theorem covered_add {e : LRUEvictor HashValue} (h : e.Covered) (b : BlockId)
    (prefixHash : HashValue) (numHashedTokens : Nat) (lastAccessedTime : TimeStamp) :
    (e.add b prefixHash numHashedTokens lastAccessedTime).Covered := by
  simp only [add]
  split
  · intro c d hd
    refine ⟨?_, List.mem_map.mpr ⟨⟨c, d⟩, AList.mem_lookup_iff.mp hd, rfl⟩⟩
    by_cases hc : c = b
    · subst hc
      rw [cleanup, AList.lookup_insert, Option.some.injEq] at hd
      rw [← hd]
    · rw [cleanup, AList.lookup_insert_ne hc] at hd
      exact (h c d hd).1
  · intro c d hd
    by_cases hc : c = b
    · subst hc
      rw [AList.lookup_insert, Option.some.injEq] at hd
      simp [← hd]
    · rw [AList.lookup_insert_ne hc] at hd
      exact ⟨(h c d hd).1, List.mem_cons_of_mem _ (h c d hd).2⟩

@[simp]
theorem candidates_add (e : LRUEvictor HashValue) (b : BlockId) (prefixHash : HashValue)
    (numHashedTokens : Nat) (lastAccessedTime : TimeStamp) :
    (e.add b prefixHash numHashedTokens lastAccessedTime).candidates =
      e.candidates.insert b ⟨b, prefixHash, numHashedTokens, lastAccessedTime⟩ := by
  simp only [add, cleanup]
  split <;> rfl

theorem covered_remove {e : LRUEvictor HashValue} (h : e.Covered) (b : BlockId) :
    (e.remove b).Covered := by
  intro c d hd
  have hne : c ≠ b := by
    rintro rfl
    simp [remove] at hd
  rw [remove, AList.lookup_erase_ne hne] at hd
  exact h c d hd

@[simp]
theorem candidates_remove (e : LRUEvictor HashValue) (b : BlockId) :
    (e.remove b).candidates = e.candidates.erase b := rfl

end LRUEvictor

end MindieLLM
