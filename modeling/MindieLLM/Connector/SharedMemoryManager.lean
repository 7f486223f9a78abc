import MindieLLM.Program.Population
import MindieLLM.Program.Reaches
import Mathlib.Data.Fintype.Option

/-!
# Decisions over shared memory

A producer broadcasts lists of integers to consumers through one segment of shared memory. A word of
the segment for each consumer says whether it can read; after these comes the length of the list and
then its items. A mutex guards the segment, and a semaphore counts the reads that are still to come:
the producer releases it once for each consumer, and waits until it is zero before it writes again.
The wait gives up after ten thousand looks.

The mutex and the counting semaphore are taken and released, and the semaphore is looked at, one
step at a time. What is done to the segment between two such steps is one step: nobody touches the
segment without the mutex. All accesses are to whole words.

## Main definitions

* `writeList`, `readList`: the list in the segment
* `step`: the statements of the producer and of the consumers
* `Delivers`: each list is read once by each consumer, in order, and nobody blocks for ever
* `Awaited`: the condition on a step

## Main results

* `delivers_of_awaited`: lists that can be packed, with waits that were not in vain, are delivered
* `not_delivers_raised`: after a write that raises a consumer blocks, with the mutex taken
-/

namespace MindieLLM.ShareMemory

open Program

/-! ## The segment -/

/-- What a list in Python may hold. -/
inductive Item
  | int (value : ℤ)
  | other
  deriving DecidableEq

/-- `_shm_size` in words. -/
def SHM_WORDS : ℕ := 1024

/-- The values of a C `int`. -/
def FitsInt (value : ℤ) : Prop := -2147483648 ≤ value ∧ value ≤ 2147483647

instance (value : ℤ) : Decidable (FitsInt value) := inferInstanceAs (Decidable (_ ∧ _))

/-- `struct.pack` with the type `i`, which may raise. -/
def pack : Item → Option ℤ
  | .int value => if FitsInt value then some value else none
  | .other => none

abbrev Segment : Type := ℕ → ℤ

/-- The items are written until one cannot be, which raises. -/
def writeItems (offset : ℕ) : List Item → Segment → Segment × Bool
  | [], memory => (memory, true)
  | item :: rest, memory =>
    match pack item with
    | none => (memory, false)
    | some value =>
      if offset < SHM_WORDS then
        writeItems (offset + 1) rest (Function.update memory offset value)
      else
        (memory, false)

/-- The length of the list and its items, after the words of `n` consumers. -/
def writeList (n : ℕ) (dataList : List Item) (memory : Segment) : Segment × Bool :=
  writeItems n (.int dataList.length :: dataList) memory

/-- Whether the words up to an offset are in the segment. -/
def inSegment (offset : ℕ) : Bool := offset ≤ SHM_WORDS

/-- Raises where a word is not in the segment. -/
def readList (n : ℕ) (memory : Segment) : Option (List ℤ) :=
  if inSegment (n + 1) ∧ inSegment (n + 1 + (memory n).toNat) then
    some ((List.range (memory n).toNat).map fun k => memory (n + 1 + k))
  else
    none

def notifyAllConsumerCanRead (n : ℕ) (memory : Segment) : Segment × Bool :=
  writeItems 0 (List.replicate n (.int 1)) memory

/-! ## The parties -/

/-- The next statement of `write_list_memory`. -/
inductive ProducerPc
  | idle
  | poll (dataList : List Item) (looks : ℕ)
  | acquire (dataList : List Item) (gaveUp : Bool)
  | write (dataList : List Item)
  | release (left : ℕ)
  | notify
  | unlock
  /-- It has raised with the mutex taken. -/
  | raised

/-- The next statement of `read_list_memory`. -/
inductive ConsumerPc
  | idle
  | acquire
  | check
  | unlockNone
  | acquireData
  | read
  | clear (dataList : List ℤ)
  | unlock (dataList : List ℤ)
  /-- It has raised with the mutex taken. -/
  | raised

/-- A consumer is its id less one. -/
structure State (n : ℕ) where
  sem : ℕ
  dataSem : ℕ
  memory : Segment
  producer : ProducerPc
  consumer : Fin n → ConsumerPc
  /-- The lists that were written without raising. -/
  written : List (List ℤ)
  /-- The lists that the calls of a consumer returned. -/
  reads : Fin n → List (List ℤ)

variable {n : ℕ}

def State.init : State n where
  sem := 1
  dataSem := 0
  memory := fun _ => 0
  producer := .idle
  consumer := fun _ => .idle
  written := []
  reads := fun _ => []

def Item.value : Item → ℤ
  | .int value => value
  | .other => 0

/-- How often the producer looks at the semaphore. -/
def POLLS : ℕ := 10000

def producerStep (s : State n) : Option (State n) :=
  match s.producer with
  | .idle | .raised => none
  | .poll dataList looks =>
    if s.dataSem = 0 then some { s with producer := .acquire dataList false }
    else if looks ≤ 1 then some { s with producer := .acquire dataList true }
    else some { s with producer := .poll dataList (looks - 1) }
  | .acquire dataList _ =>
    if 0 < s.sem then some { s with sem := s.sem - 1, producer := .write dataList } else none
  | .write dataList =>
    match writeList n dataList s.memory with
    | (memory, true) =>
      some { s with
        memory
        written := s.written ++ [dataList.map Item.value]
        producer := if n = 0 then .notify else .release n }
    | (memory, false) => some { s with memory, producer := .notify }
  | .release left =>
    some { s with
      dataSem := s.dataSem + 1
      producer := if left ≤ 1 then .notify else .release (left - 1) }
  | .notify =>
    match notifyAllConsumerCanRead n s.memory with
    | (memory, true) => some { s with memory, producer := .unlock }
    | (memory, false) => some { s with memory, producer := .raised }
  | .unlock => some { s with sem := s.sem + 1, producer := .idle }

def consumerStep (i : Fin n) (s : State n) : Option (State n) :=
  let goTo (pc : ConsumerPc) (s : State n) : State n :=
    { s with consumer := Function.update s.consumer i pc }
  match s.consumer i with
  | .idle | .raised => none
  | .acquire => if 0 < s.sem then some (goTo .check { s with sem := s.sem - 1 }) else none
  | .check =>
    if inSegment (i + 1) then
      some (goTo (if s.memory i = 0 then .unlockNone else .acquireData) s)
    else
      some (goTo .raised s)
  | .unlockNone => some (goTo .idle { s with sem := s.sem + 1 })
  | .acquireData =>
    if 0 < s.dataSem then some (goTo .read { s with dataSem := s.dataSem - 1 }) else none
  | .read =>
    match readList n s.memory with
    | some dataList => some (goTo (.clear dataList) s)
    | none => some (goTo .raised s)
  | .clear dataList =>
    some (goTo (.unlock dataList) { s with memory := Function.update s.memory i 0 })
  | .unlock dataList =>
    some (goTo .idle { s with
      sem := s.sem + 1
      reads := Function.update s.reads i (s.reads i ++ [dataList]) })

inductive Op (n : ℕ)
  /-- The producer calls `write_list_memory`. -/
  | write (dataList : List Item)
  | producer
  /-- A consumer calls `read_list_memory`. -/
  | read (i : Fin n)
  | consumer (i : Fin n)

def step (s : State n) : Op n → Option (State n)
  | .write dataList =>
    match s.producer with
    | .idle => some { s with producer := .poll dataList POLLS }
    | _ => none
  | .producer => producerStep s
  | .read i =>
    match s.consumer i with
    | .idle => some { s with consumer := Function.update s.consumer i .acquire }
    | _ => none
  | .consumer i => consumerStep i s

/-! ## Delivery -/

/-- Whether the producer has taken the mutex. -/
def ProducerPc.holds : ProducerPc → Bool
  | .write _ | .release _ | .notify | .unlock | .raised => true
  | _ => false

/-- Whether a consumer has taken the mutex. -/
def ConsumerPc.holds : ConsumerPc → Bool
  | .idle | .acquire => false
  | _ => true

/-- Each consumer has read the lists in order, each once, up to all of them or all but the last. One
that has not read the last can, once the producer is through. And who has taken the mutex goes on,
so that the others, who wait for nothing but the mutex, do not wait for ever. -/
structure Delivers (s : State n) : Prop where
  inOrder : ∀ i, s.reads i <+: s.written
  atMostOne : ∀ i, s.written.length ≤ (s.reads i).length + 1
  available : s.producer.holds = false → ∀ i, s.consumer i = .idle → s.reads i ≠ s.written →
    s.memory i ≠ 0 ∧ ∃ last, readList n s.memory = some last ∧ s.written = s.reads i ++ [last]
  producerGoesOn : s.producer.holds = true → (step s .producer).isSome
  consumerGoesOn : ∀ i, (s.consumer i).holds = true → (step s (.consumer i)).isSome
  mutex : s.sem = 0 → s.producer.holds = true ∨ ∃ i, (s.consumer i).holds = true

/-- Whether a list can be written: all its items fit into words, and all of it into the segment. -/
def Packs (n : ℕ) (dataList : List Item) : Prop :=
  (∀ item ∈ dataList, (pack item).isSome) ∧ n + 1 + dataList.length ≤ SHM_WORDS

instance (n : ℕ) (dataList : List Item) : Decidable (Packs n dataList) :=
  inferInstanceAs (Decidable (_ ∧ _))

/-- **The condition on a step.** No write raises, each consumer has its word in the segment, and
where the wait was given up, all consumers have read before the producer takes the mutex. -/
def Awaited (s : State n) : Op n → Prop
  | .write dataList => Packs n dataList
  | .read i => i + 1 ≤ SHM_WORDS
  | .producer =>
    match s.producer with
    | .acquire _ true => s.dataSem = 0
    | _ => True
  | _ => True

/-! ## The list in the segment -/

theorem pack_eq {item : Item} (h : (pack item).isSome) : pack item = some item.value := by
  cases item with
  | int value =>
    simp only [pack] at h ⊢
    split at h
    · next hfits => rw [if_pos hfits]; rfl
    · cases h
  | other => cases h

/-- Items that can be packed, and that fit, are written one word after the other. -/
theorem writeItems_eq (items : List Item) (offset : ℕ) (memory : Segment)
    (hitems : ∀ item ∈ items, (pack item).isSome) (hfits : offset + items.length ≤ SHM_WORDS) :
    ∃ memory', writeItems offset items memory = (memory', true) ∧
      (∀ k, k < offset → memory' k = memory k) ∧
      (∀ k, offset + items.length ≤ k → memory' k = memory k) ∧
      ∀ k (h : k < items.length), memory' (offset + k) = items[k].value := by
  induction items generalizing offset memory with
  | nil => exact ⟨memory, rfl, fun _ _ => rfl, fun _ _ => rfl, nofun⟩
  | cons item rest ih =>
    rw [List.length_cons] at hfits
    obtain ⟨memory', hwrite, hbefore, hafter, hitem⟩ :=
      ih (offset + 1) (Function.update memory offset item.value)
        (fun item hmem => hitems item (List.mem_cons_of_mem _ hmem)) (by omega)
    refine ⟨memory', ?_, fun k hk => ?_, fun k hk => ?_, fun k hk => ?_⟩
    · unfold writeItems
      rw [pack_eq (hitems item (List.mem_cons_self ..))]
      dsimp only
      rw [if_pos (by omega)]
      exact hwrite
    · rw [hbefore k (by omega), Function.update_of_ne (by omega)]
    · rw [List.length_cons] at hk
      rw [hafter k (by omega), Function.update_of_ne (by omega)]
    · cases k with
      | zero =>
        rw [Nat.add_zero, hbefore offset (by omega), Function.update_self]
        rfl
      | succ k =>
        have hword : offset + (k + 1) = offset + 1 + k := by omega
        rw [List.length_cons] at hk
        rw [hword, hitem k (by omega)]
        rfl

/-- **What is written is read.** The words before the list stay. -/
theorem writeList_eq {dataList : List Item} (hpacks : Packs n dataList) (memory : Segment) :
    ∃ memory', writeList n dataList memory = (memory', true) ∧
      readList n memory' = some (dataList.map Item.value) ∧ ∀ k, k < n → memory' k = memory k := by
  obtain ⟨hitems, hfits⟩ := hpacks
  have hlength : (pack (.int dataList.length)).isSome := by
    have hint : FitsInt dataList.length := by
      simp only [SHM_WORDS] at hfits
      constructor <;> omega
    simp [pack, hint]
  obtain ⟨memory', hwrite, hbefore, -, hitem⟩ :=
    writeItems_eq (.int dataList.length :: dataList) n memory
      (List.forall_mem_cons.mpr ⟨hlength, hitems⟩) (by rw [List.length_cons]; omega)
  have hsize : memory' n = dataList.length := hitem 0 (by simp)
  refine ⟨memory', hwrite, ?_, hbefore⟩
  unfold readList inSegment
  rw [hsize, Int.toNat_natCast, if_pos (by simp only [decide_eq_true_eq]; omega), Option.some_inj]
  apply List.ext_getElem
  · simp
  · intro k hk hk'
    rw [List.length_map] at hk'
    have hword : n + 1 + k = n + (k + 1) := by omega
    rw [List.getElem_map, List.getElem_range, List.getElem_map, hword, hitem (k + 1) (by simpa)]
    rfl

/-- The words of the consumers are not those of the list. -/
theorem readList_congr {memory memory' : Segment} (h : ∀ k, n ≤ k → memory' k = memory k) :
    readList n memory' = readList n memory := by
  have hword (k : ℕ) : memory' (n + 1 + k) = memory (n + 1 + k) := h _ (by omega)
  simp only [readList, h n (Nat.le_refl n), hword]

theorem notifyAllConsumerCanRead_eq (hfits : n ≤ SHM_WORDS) (memory : Segment) :
    ∃ memory', notifyAllConsumerCanRead n memory = (memory', true) ∧
      (∀ i : Fin n, memory' i = 1) ∧ ∀ k, n ≤ k → memory' k = memory k := by
  obtain ⟨memory', hwrite, -, hafter, hitem⟩ :=
    writeItems_eq (List.replicate n (.int 1)) 0 memory
      (fun item hmem => by rw [List.eq_of_mem_replicate hmem]; rfl) (by simpa using hfits)
  rw [List.length_replicate] at hafter
  refine ⟨memory', hwrite, fun i => ?_, fun k hk => hafter k (by omega)⟩
  have hone := hitem i (by simp)
  rw [Nat.zero_add, List.getElem_replicate] at hone
  exact hone

/-! ## The invariant -/

/-- Who has taken the mutex: the producer or a consumer. -/
def holders (s : State n) : Option (Fin n) → Bool
  | none => s.producer.holds
  | some i => (s.consumer i).holds

/-- Whether a consumer has taken its unit of the counting semaphore. -/
def ConsumerPc.took : ConsumerPc → Bool
  | .read | .clear _ => true
  | _ => false

/-- Whether a unit of the counting semaphore is there for a consumer. -/
def owing (s : State n) (i : Fin n) : Bool := s.memory i ≠ 0 && !(s.consumer i).took

/-- How the counting semaphore agrees with the flags, for each statement of the producer. -/
def CountOk (s : State n) : Prop :=
  match s.producer with
  | .write _ => s.dataSem = 0 ∧ ∀ i : Fin n, s.memory i = 0
  | .release left =>
    s.dataSem + left = n ∧ 0 < left ∧ s.written ≠ [] ∧ ∀ i : Fin n, s.memory i = 0
  | .notify => s.dataSem = n ∧ s.written ≠ [] ∧ ∀ i : Fin n, s.memory i = 0
  | .raised => False
  | _ => s.dataSem = population (owing s)

/-- The lists that the consumers have been told about. -/
def published (s : State n) : List (List ℤ) :=
  match s.producer with
  | .release _ | .notify => s.written.dropLast
  | _ => s.written

/-- The list that a consumer is about to return. -/
def ConsumerPc.returning : ConsumerPc → List (List ℤ)
  | .unlock dataList => [dataList]
  | _ => []

/-- What a consumer has read agrees with its flag. -/
def ReadsOk (s : State n) (i : Fin n) : Prop :=
  if s.memory i = 0 then s.reads i ++ (s.consumer i).returning = published s
  else ∃ last, published s = s.reads i ++ [last]

/-- What a consumer knows at each statement. -/
def ConsumerOk (s : State n) (i : Fin n) : Prop :=
  match s.consumer i with
  | .idle => True
  | .acquire | .check | .unlockNone => i + 1 ≤ SHM_WORDS
  | .acquireData | .read => s.memory i ≠ 0
  | .clear dataList => s.memory i ≠ 0 ∧ s.written.getLast? = some dataList
  | .unlock _ => s.memory i = 0
  | .raised => False

/-- The list that the producer is going to write can be written. -/
def ProducerOk (s : State n) : Prop :=
  match s.producer with
  | .poll dataList _ | .write dataList => Packs n dataList
  | .acquire dataList gaveUp => Packs n dataList ∧ (gaveUp = false → s.dataSem = 0)
  | .release _ | .notify => n ≤ SHM_WORDS
  | .idle | .unlock | .raised => True

structure Invariant (s : State n) : Prop where
  mutex : s.sem + population (holders s) = 1
  count : CountOk s
  producer : ProducerOk s
  consumer : ∀ i, ConsumerOk s i
  reads : ∀ i, ReadsOk s i
  last : ∀ last ∈ s.written.getLast?, readList n s.memory = some last

theorem invariant_init : Invariant (.init : State n) := by
  have hholders : population (holders (.init : State n)) = 0 := by
    rw [population_eq_zero]
    rintro (_ | i) <;> rfl
  have howing : population (owing (.init : State n)) = 0 := by
    rw [population_eq_zero]
    exact fun i => rfl
  refine ⟨?_, howing.symm, trivial, fun _ => trivial, fun i => ?_, nofun⟩
  · rw [hholders]
    rfl
  · have hflag : (State.init : State n).memory i = 0 := rfl
    unfold ReadsOk
    rw [if_pos hflag]
    rfl

namespace Invariant

variable {s : State n} (hinv : Invariant s)

include hinv

theorem alone {p q : Option (Fin n)} (hp : holders s p = true) (hq : holders s q = true) :
    p = q := by
  have hmutex := hinv.mutex
  exact eq_of_population_le_one (by omega) hp hq

/-- While the producer has the mutex no consumer has it. -/
theorem consumer_of_producer (hholds : s.producer.holds = true) (i : Fin n) :
    (s.consumer i).holds = false := by
  by_contra h
  cases hinv.alone (p := none) (q := some i) hholds (by simpa [holders] using h)

theorem producer_of_consumer {i : Fin n} (hholds : (s.consumer i).holds = true) :
    s.producer.holds = false := by
  by_contra h
  cases hinv.alone (p := none) (q := some i) (by simpa [holders] using h) hholds

/-- While the mutex is free nobody has it. -/
theorem free (hsem : 0 < s.sem) (p : Option (Fin n)) : holders s p = false := by
  have hmutex := hinv.mutex
  exact population_eq_zero.mp (by omega) p

end Invariant

theorem ConsumerPc.took_of_not_holds {pc : ConsumerPc} (h : pc.holds = false) :
    pc.took = false := by
  cases pc <;> first | rfl | cases h

theorem ConsumerPc.returning_of_not_holds {pc : ConsumerPc} (h : pc.holds = false) :
    pc.returning = [] := by
  cases pc <;> first | rfl | cases h

/-- Outside what the producer does under the mutex, the counting semaphore counts the flags. -/
theorem countOk_iff {s : State n} (hholds : s.producer.holds = false ∨ s.producer = .unlock) :
    CountOk s ↔ s.dataSem = population (owing s) := by
  unfold CountOk
  rcases hholds with hholds | hunlock
  · split <;> first | rfl | simp_all [ProducerPc.holds]
  · rw [hunlock]

theorem published_eq {s : State n} (hholds : s.producer.holds = false ∨ s.producer = .unlock) :
    published s = s.written := by
  unfold published
  rcases hholds with hholds | hunlock
  · split <;> first | rfl | simp_all [ProducerPc.holds]
  · rw [hunlock]

theorem ConsumerOk.congr {s s' : State n} {i : Fin n} (h : ConsumerOk s i)
    (hconsumer : s'.consumer i = s.consumer i) (hmemory : s'.memory i = s.memory i)
    (hwritten : s'.written = s.written) : ConsumerOk s' i := by
  unfold ConsumerOk at h ⊢
  rwa [hconsumer, hmemory, hwritten]

theorem ReadsOk.congr {s s' : State n} {i : Fin n} (h : ReadsOk s i)
    (hreturning : (s'.consumer i).returning = (s.consumer i).returning)
    (hmemory : s'.memory i = s.memory i) (hreads : s'.reads i = s.reads i)
    (hpublished : published s' = published s) : ReadsOk s' i := by
  unfold ReadsOk at h ⊢
  rwa [hreturning, hmemory, hreads, hpublished]

/-- A step of the producer under the mutex, which does not give it back. -/
theorem holders_producer {s s' : State n} (hholds : s.producer.holds = true)
    (hholds' : s'.producer.holds = true) (hconsumer : s'.consumer = s.consumer) :
    holders s' = holders s := by
  funext p
  cases p with
  | none => exact hholds'.trans hholds.symm
  | some i =>
    unfold holders
    rw [hconsumer]

/-! ## Steps of the producer -/

namespace Invariant

variable {s : State n} (hinv : Invariant s)

include hinv

/-- What the producer does without the mutex. -/
theorem setProducer {pc : ProducerPc} (hholds : s.producer.holds = false) (hpc : pc.holds = false)
    (hok : ProducerOk { s with producer := pc }) : Invariant { s with producer := pc } := by
  have hholders : holders { s with producer := pc } = holders s := by
    funext p
    cases p with
    | none => exact hpc.trans hholds.symm
    | some i => rfl
  have hpublished : published { s with producer := pc } = published s :=
    (published_eq (.inl hpc)).trans (published_eq (.inl hholds)).symm
  refine ⟨?_, (countOk_iff (.inl hpc)).mpr ((countOk_iff (.inl hholds)).mp hinv.count), hok,
    hinv.consumer, fun i => (hinv.reads i).congr rfl rfl rfl hpublished, hinv.last⟩
  rw [hholders]
  exact hinv.mutex

/-- When the producer takes the mutex and no unit is left, all flags are zero. -/
theorem acquire {dataList : List Item} {gaveUp : Bool} (hpc : s.producer = .acquire dataList gaveUp)
    (hsem : 0 < s.sem) (hdata : s.dataSem = 0) :
    Invariant { s with sem := s.sem - 1, producer := .write dataList } := by
  have hholds : s.producer.holds = false := by rw [hpc]; rfl
  have hcount := (countOk_iff (.inl hholds)).mp hinv.count
  rw [hdata] at hcount
  have hflags (i : Fin n) : s.memory i = 0 := by
    have howing := population_eq_zero.mp hcount.symm i
    have htook := ConsumerPc.took_of_not_holds (hinv.free hsem (some i))
    simpa [owing, htook] using howing
  have hjoin := population_join (f := holders s)
    (g := holders { s with sem := s.sem - 1, producer := .write dataList }) (i := none) hholds rfl
    (fun p hp => by cases p with | none => exact absurd rfl hp | some i => rfl)
  have hpacks : Packs n dataList := by
    have hproducer := hinv.producer
    unfold ProducerOk at hproducer
    rw [hpc] at hproducer
    exact hproducer.1
  refine ⟨?_, ⟨hdata, hflags⟩, hpacks, hinv.consumer, fun i => ?_, hinv.last⟩
  · have hmutex := hinv.mutex
    rw [hjoin]
    dsimp only
    omega
  · exact (hinv.reads i).congr rfl rfl rfl (published_eq (.inl hholds)).symm

/-- The list is in the segment, and the consumers have not been told yet. -/
theorem write {dataList : List Item} {memory : Segment} (hpc : s.producer = .write dataList)
    (hread : readList n memory = some (dataList.map Item.value))
    (hmemory : ∀ k, k < n → memory k = s.memory k) :
    Invariant { s with
      memory
      written := s.written ++ [dataList.map Item.value]
      producer := if n = 0 then .notify else .release n } := by
  have hholds : s.producer.holds = true := by rw [hpc]; rfl
  have hcount := hinv.count
  have hpacks := hinv.producer
  unfold CountOk at hcount
  unfold ProducerOk at hpacks
  rw [hpc] at hcount hpacks
  obtain ⟨hdata, hflags⟩ := hcount
  have hflags' (i : Fin n) : memory i = 0 := (hmemory i i.isLt).trans (hflags i)
  have hfits : n ≤ SHM_WORDS := by
    have hfits := hpacks.2
    omega
  have hwritten : s.written ++ [dataList.map Item.value] ≠ [] := by simp
  refine ⟨?_, ?_, ?_, fun i => ?_, fun i => ?_, ?_⟩
  · rw [holders_producer hholds ?_ ?_]
    · exact hinv.mutex
    · dsimp only
      split <;> rfl
    · rfl
  · unfold CountOk
    by_cases hn : n = 0
    · simp only [if_pos hn]
      exact ⟨hdata.trans hn.symm, hwritten, hflags'⟩
    · simp only [if_neg hn]
      exact ⟨by rw [hdata, Nat.zero_add], Nat.pos_of_ne_zero hn, hwritten, hflags'⟩
  · unfold ProducerOk
    by_cases hn : n = 0
    · simp only [if_pos hn]
      exact hfits
    · simp only [if_neg hn]
      exact hfits
  · have hconsumer := hinv.consumer i
    have hnot := hinv.consumer_of_producer hholds i
    unfold ConsumerOk at hconsumer ⊢
    dsimp only
    cases hi : s.consumer i <;> rw [hi] at hconsumer hnot <;> first | exact hconsumer | cases hnot
  · have hreads := hinv.reads i
    have hbefore : published s = s.written := by
      unfold published
      rw [hpc]
    have hafter : published { s with
        memory
        written := s.written ++ [dataList.map Item.value]
        producer := if n = 0 then .notify else .release n } = s.written := by
      unfold published
      by_cases hn : n = 0
      · simp only [if_pos hn, List.dropLast_concat]
      · simp only [if_neg hn, List.dropLast_concat]
    exact hreads.congr rfl (hmemory i i.isLt) rfl (hafter.trans hbefore.symm)
  · intro last hlast
    rw [List.getLast?_concat, Option.mem_some_iff] at hlast
    rw [← hlast]
    exact hread

theorem release {left : ℕ} (hpc : s.producer = .release left) :
    Invariant { s with
      dataSem := s.dataSem + 1
      producer := if left ≤ 1 then .notify else .release (left - 1) } := by
  have hholds : s.producer.holds = true := by rw [hpc]; rfl
  have hcount := hinv.count
  have hfits := hinv.producer
  unfold CountOk at hcount
  unfold ProducerOk at hfits
  rw [hpc] at hcount hfits
  obtain ⟨hdata, hleft, hwritten, hflags⟩ := hcount
  have hbefore : published s = s.written.dropLast := by
    unfold published
    rw [hpc]
  by_cases hlast : left ≤ 1
  · simp only [if_pos hlast]
    refine ⟨?_, ⟨?_, hwritten, hflags⟩, hfits, hinv.consumer,
      fun i => (hinv.reads i).congr rfl rfl rfl hbefore.symm, hinv.last⟩
    · rw [holders_producer hholds ?_ ?_]
      · exact hinv.mutex
      · rfl
      · rfl
    · dsimp only
      omega
  · simp only [if_neg hlast]
    refine ⟨?_, ⟨?_, ?_, hwritten, hflags⟩, hfits, hinv.consumer,
      fun i => (hinv.reads i).congr rfl rfl rfl hbefore.symm, hinv.last⟩
    · rw [holders_producer hholds ?_ ?_]
      · exact hinv.mutex
      · rfl
      · rfl
    · dsimp only
      omega
    · omega

/-- With a unit for each consumer in the semaphore, all flags are set. -/
theorem notify {memory : Segment} (hpc : s.producer = .notify)
    (hflags' : ∀ i : Fin n, memory i = 1) (hmemory : ∀ k, n ≤ k → memory k = s.memory k) :
    Invariant { s with memory, producer := .unlock } := by
  have hholds : s.producer.holds = true := by rw [hpc]; rfl
  have hcount := hinv.count
  unfold CountOk at hcount
  rw [hpc] at hcount
  obtain ⟨hdata, hwritten, hflags⟩ := hcount
  have hnot := hinv.consumer_of_producer hholds
  have howing (i : Fin n) : owing { s with memory, producer := .unlock } i = true := by
    simp [owing, hflags', ConsumerPc.took_of_not_holds (hnot i)]
  refine ⟨?_, ?_, trivial, fun i => ?_, fun i => ?_, ?_⟩
  · rw [holders_producer hholds ?_ ?_]
    · exact hinv.mutex
    · rfl
    · rfl
  · refine (countOk_iff (.inr rfl)).mpr ?_
    rw [population_all howing, Fintype.card_fin]
    exact hdata
  · have hconsumer := hinv.consumer i
    unfold ConsumerOk at hconsumer ⊢
    dsimp only
    cases hi : s.consumer i <;> rw [hi] at hconsumer <;> have hnot := hnot i <;> rw [hi] at hnot <;>
      first | exact hconsumer | cases hnot
  · have hreads := hinv.reads i
    unfold ReadsOk at hreads ⊢
    rw [if_pos (hflags i), ConsumerPc.returning_of_not_holds (hnot i), List.append_nil] at hreads
    rw [if_neg (by simp [hflags'])]
    have hbefore : published s = s.written.dropLast := by
      unfold published
      rw [hpc]
    refine ⟨s.written.getLast hwritten, ?_⟩
    dsimp only
    rw [hreads, hbefore]
    exact (List.dropLast_concat_getLast hwritten).symm
  · intro last hlast
    rw [readList_congr hmemory]
    exact hinv.last last hlast

theorem unlock (hpc : s.producer = .unlock) :
    Invariant { s with sem := s.sem + 1, producer := .idle } := by
  have hleave := population_leave (f := holders s)
    (g := holders { s with sem := s.sem + 1, producer := .idle }) (i := none)
    (by unfold holders; rw [hpc]; rfl) rfl
    (fun p hp => by cases p with | none => exact absurd rfl hp | some i => rfl)
  refine ⟨?_, ?_, trivial, hinv.consumer, fun i => ?_, hinv.last⟩
  · have hmutex := hinv.mutex
    dsimp only
    omega
  · exact (countOk_iff (.inl rfl)).mpr ((countOk_iff (.inr hpc)).mp hinv.count)
  · exact (hinv.reads i).congr rfl rfl rfl (published_eq (.inr hpc)).symm

end Invariant

/-! ## Steps of a consumer -/

/-- A step of one consumer: what the others know stays, and so does what the producer does. -/
structure ConsumerStep (i : Fin n) (s s' : State n) : Prop where
  producer : s'.producer = s.producer
  consumer : ∀ j, j ≠ i → s'.consumer j = s.consumer j
  memory : ∀ j : Fin n, j ≠ i → s'.memory j = s.memory j
  reads : ∀ j, j ≠ i → s'.reads j = s.reads j
  list : ∀ k, n ≤ k → s'.memory k = s.memory k
  written : s'.written = s.written

namespace ConsumerStep

variable {s s' : State n} {i : Fin n} (hstep : ConsumerStep i s s')

include hstep

theorem holders_of_ne {p : Option (Fin n)} (hp : p ≠ some i) : holders s' p = holders s p := by
  cases p with
  | none => exact congrArg ProducerPc.holds hstep.producer
  | some j => exact congrArg ConsumerPc.holds (hstep.consumer j fun h => hp (congrArg some h))

theorem owing_of_ne {j : Fin n} (hj : j ≠ i) : owing s' j = owing s j := by
  unfold owing
  rw [hstep.memory j hj, hstep.consumer j hj]

theorem published : published s' = published s := by
  unfold ShareMemory.published
  rw [hstep.producer, hstep.written]

theorem take (hmutex : s.sem + population (holders s) = 1) (hsem : 0 < s.sem)
    (hsem' : s'.sem = s.sem - 1) (hholds : (s.consumer i).holds = false)
    (hholds' : (s'.consumer i).holds = true) : s'.sem + population (holders s') = 1 := by
  have hjoin := population_join (f := holders s) (g := holders s') (i := some i) hholds hholds'
    fun p hp => hstep.holders_of_ne hp
  omega

theorem give (hmutex : s.sem + population (holders s) = 1) (hsem' : s'.sem = s.sem + 1)
    (hholds : (s.consumer i).holds = true) (hholds' : (s'.consumer i).holds = false) :
    s'.sem + population (holders s') = 1 := by
  have hleave := population_leave (f := holders s) (g := holders s') (i := some i) hholds hholds'
    fun p hp => hstep.holders_of_ne hp
  omega

theorem keep (hmutex : s.sem + population (holders s) = 1) (hsem' : s'.sem = s.sem)
    (hholds : (s'.consumer i).holds = (s.consumer i).holds) :
    s'.sem + population (holders s') = 1 := by
  have hholders : population (holders s') = population (holders s) := by
    refine population_congr fun p => ?_
    by_cases hp : p = some i
    · rw [hp]
      exact hholds
    · exact hstep.holders_of_ne hp
  omega

/-- What a consumer does without a change of the semaphores' counts. -/
theorem countOk (hcount : CountOk s) (hdata : s'.dataSem = s.dataSem)
    (howing : owing s' i = owing s i) (hflag : s.memory i = 0 → s'.memory i = 0) : CountOk s' := by
  have hpopulation : population (owing s') = population (owing s) := by
    refine population_congr fun j => ?_
    by_cases hj : j = i
    · rw [hj, howing]
    · exact hstep.owing_of_ne hj
  have hflags (h : ∀ j : Fin n, s.memory j = 0) (j : Fin n) : s'.memory j = 0 := by
    by_cases hj : j = i
    · rw [hj]
      exact hflag (h i)
    · rw [hstep.memory j hj]
      exact h j
  unfold CountOk at hcount ⊢
  rw [hstep.producer, hdata, hstep.written, hpopulation]
  split at hcount
  · exact ⟨hcount.1, hflags hcount.2⟩
  · exact ⟨hcount.1, hcount.2.1, hcount.2.2.1, hflags hcount.2.2.2⟩
  · exact ⟨hcount.1, hcount.2.1, hflags hcount.2.2⟩
  · exact hcount
  · exact hcount

/-- **A step of a consumer**, apart from its mutex, its unit and what it knows itself. -/
theorem invariant (hinv : Invariant s) (hmutex : s'.sem + population (holders s') = 1)
    (hcount : CountOk s') (hdata : s'.dataSem ≤ s.dataSem) (hconsumer : ConsumerOk s' i)
    (hreads : ReadsOk s' i) : Invariant s' := by
  refine ⟨hmutex, hcount, ?_, fun j => ?_, fun j => ?_, fun last hlast => ?_⟩
  · have hproducer := hinv.producer
    unfold ProducerOk at hproducer ⊢
    rw [hstep.producer]
    split at hproducer
    · exact hproducer
    · exact hproducer
    · refine ⟨hproducer.1, fun h => ?_⟩
      have hzero := hproducer.2 h
      omega
    · exact hproducer
    · exact hproducer
    · trivial
    · trivial
    · trivial
  · by_cases hj : j = i
    · rw [hj]
      exact hconsumer
    · exact (hinv.consumer j).congr (hstep.consumer j hj) (hstep.memory j hj) hstep.written
  · by_cases hj : j = i
    · rw [hj]
      exact hreads
    · exact (hinv.reads j).congr (by rw [hstep.consumer j hj]) (hstep.memory j hj)
        (hstep.reads j hj) hstep.published
  · rw [hstep.written] at hlast
    rw [readList_congr hstep.list]
    exact hinv.last last hlast

end ConsumerStep

/-- A consumer that only goes on. -/
theorem consumerStep_goTo (s : State n) (i : Fin n) (pc : ConsumerPc) (sem dataSem : ℕ) :
    ConsumerStep i s
      { s with sem, dataSem, consumer := Function.update s.consumer i pc } where
  producer := rfl
  consumer _ hj := Function.update_of_ne hj ..
  memory _ _ := rfl
  reads _ _ := rfl
  list _ _ := rfl
  written := rfl

namespace Invariant

variable {s : State n} (hinv : Invariant s) {i : Fin n}

include hinv

/-- A statement of a consumer that changes neither the segment nor the semaphores. -/
theorem setConsumer {pc : ConsumerPc} (hholds : pc.holds = (s.consumer i).holds)
    (htook : pc.took = (s.consumer i).took)
    (hreturning : pc.returning = (s.consumer i).returning)
    (hok : ConsumerOk { s with consumer := Function.update s.consumer i pc } i) :
    Invariant { s with consumer := Function.update s.consumer i pc } := by
  have hstep := consumerStep_goTo s i pc s.sem s.dataSem
  refine hstep.invariant hinv (hstep.keep hinv.mutex rfl ?_)
    (hstep.countOk hinv.count rfl ?_ id) (Nat.le_refl _) hok ?_
  · simpa using hholds
  · simp [owing, htook]
  · exact (hinv.reads i).congr (by simpa using hreturning) rfl rfl rfl

theorem takeMutex (hpc : s.consumer i = .acquire) (hsem : 0 < s.sem) :
    Invariant { s with sem := s.sem - 1, consumer := Function.update s.consumer i .check } := by
  have hstep := consumerStep_goTo s i .check (s.sem - 1) s.dataSem
  have hconsumer := hinv.consumer i
  unfold ConsumerOk at hconsumer
  rw [hpc] at hconsumer
  refine hstep.invariant hinv (hstep.take hinv.mutex hsem rfl ?_ ?_)
    (hstep.countOk hinv.count rfl ?_ id) (Nat.le_refl _) ?_ ?_
  · rw [hpc]
    rfl
  · simp [ConsumerPc.holds]
  · simp [owing, hpc, ConsumerPc.took]
  · simp only [ConsumerOk, Function.update_self]
    exact hconsumer
  · exact (hinv.reads i).congr (by simp [hpc, ConsumerPc.returning]) rfl rfl rfl

theorem unlockNone (hpc : s.consumer i = .unlockNone) :
    Invariant { s with sem := s.sem + 1, consumer := Function.update s.consumer i .idle } := by
  have hstep := consumerStep_goTo s i .idle (s.sem + 1) s.dataSem
  refine hstep.invariant hinv (hstep.give hinv.mutex rfl ?_ ?_)
    (hstep.countOk hinv.count rfl ?_ id) (Nat.le_refl _) ?_ ?_
  · rw [hpc]
    rfl
  · simp [ConsumerPc.holds]
  · simp [owing, hpc, ConsumerPc.took]
  · simp only [ConsumerOk, Function.update_self]
  · exact (hinv.reads i).congr (by simp [hpc, ConsumerPc.returning]) rfl rfl rfl

/-- While a consumer that has seen its flag has the mutex, the semaphore counts the flags. -/
theorem dataSem_eq (hholds : (s.consumer i).holds = true) : s.dataSem = population (owing s) :=
  (countOk_iff (.inl (hinv.producer_of_consumer hholds))).mp hinv.count

/-- A consumer that has seen its flag finds a unit. -/
theorem dataSem_pos (hpc : s.consumer i = .acquireData) : 0 < s.dataSem := by
  have hconsumer := hinv.consumer i
  unfold ConsumerOk at hconsumer
  rw [hpc] at hconsumer
  rw [hinv.dataSem_eq (i := i) (by rw [hpc]; rfl)]
  refine population_pos (i := i) ?_
  unfold owing
  rw [hpc]
  simpa [ConsumerPc.took] using hconsumer

theorem takeUnit (hpc : s.consumer i = .acquireData) :
    Invariant { s with
      dataSem := s.dataSem - 1, consumer := Function.update s.consumer i .read } := by
  have hstep := consumerStep_goTo s i .read s.sem (s.dataSem - 1)
  have hholds : (s.consumer i).holds = true := by rw [hpc]; rfl
  have hpos := hinv.dataSem_pos hpc
  have hcount := hinv.dataSem_eq hholds
  have hconsumer := hinv.consumer i
  unfold ConsumerOk at hconsumer
  rw [hpc] at hconsumer
  have hleave := population_leave (f := owing s) (g := owing { s with
      dataSem := s.dataSem - 1, consumer := Function.update s.consumer i .read }) (i := i)
    (by simpa [owing, hpc, ConsumerPc.took] using hconsumer) (by simp [owing, ConsumerPc.took])
    fun j hj => hstep.owing_of_ne hj
  refine hstep.invariant hinv (hstep.keep hinv.mutex rfl ?_) ?_ (Nat.sub_le ..) ?_ ?_
  · simp [hpc, ConsumerPc.holds]
  · refine (countOk_iff (.inl ?_)).mpr ?_
    · exact hinv.producer_of_consumer hholds
    · dsimp only
      omega
  · simp only [ConsumerOk, Function.update_self]
    exact hconsumer
  · exact (hinv.reads i).congr (by simp [hpc, ConsumerPc.returning]) rfl rfl rfl

/-- A consumer whose flag is set reads the last list, which it has not read. -/
theorem unread (hholds : s.producer.holds = false) (hflag : s.memory i ≠ 0) :
    ∃ last, readList n s.memory = some last ∧ s.written = s.reads i ++ [last] := by
  have hreads := hinv.reads i
  unfold ReadsOk at hreads
  rw [if_neg hflag, published_eq (.inl hholds)] at hreads
  obtain ⟨last, hwritten⟩ := hreads
  exact ⟨last, hinv.last last (by rw [hwritten, List.getLast?_concat]; rfl), hwritten⟩

/-- The flag is cleared once the list has been read. -/
theorem clear {dataList : List ℤ} (hpc : s.consumer i = .clear dataList) :
    Invariant { s with
      memory := Function.update s.memory i 0
      consumer := Function.update s.consumer i (.unlock dataList) } := by
  have hstep : ConsumerStep i s { s with
      memory := Function.update s.memory i 0
      consumer := Function.update s.consumer i (.unlock dataList) } :=
    { producer := rfl
      consumer := fun _ hj => Function.update_of_ne hj ..
      memory := fun j hj => Function.update_of_ne (fun h => hj (Fin.ext h)) ..
      reads := fun _ _ => rfl
      list := fun k hk => Function.update_of_ne (by omega) ..
      written := rfl }
  have hholds : (s.consumer i).holds = true := by rw [hpc]; rfl
  have hconsumer := hinv.consumer i
  unfold ConsumerOk at hconsumer
  rw [hpc] at hconsumer
  obtain ⟨hflag, hlast⟩ := hconsumer
  obtain ⟨last, -, hwritten⟩ := hinv.unread (hinv.producer_of_consumer hholds) hflag
  obtain rfl : last = dataList := by simpa [hwritten] using hlast
  refine hstep.invariant hinv (hstep.keep hinv.mutex rfl ?_)
    (hstep.countOk hinv.count rfl ?_ fun _ => Function.update_self ..) (Nat.le_refl _) ?_ ?_
  · simp [hpc, ConsumerPc.holds]
  · simp [owing, hpc, ConsumerPc.took]
  · simp only [ConsumerOk, Function.update_self]
  · unfold ReadsOk
    simp only [Function.update_self, if_true]
    rw [hstep.published, published_eq (.inl (hinv.producer_of_consumer hholds))]
    exact hwritten.symm

theorem unlockList {dataList : List ℤ} (hpc : s.consumer i = .unlock dataList) :
    Invariant { s with
      sem := s.sem + 1
      reads := Function.update s.reads i (s.reads i ++ [dataList])
      consumer := Function.update s.consumer i .idle } := by
  have hstep : ConsumerStep i s { s with
      sem := s.sem + 1
      reads := Function.update s.reads i (s.reads i ++ [dataList])
      consumer := Function.update s.consumer i .idle } :=
    { producer := rfl
      consumer := fun _ hj => Function.update_of_ne hj ..
      memory := fun _ _ => rfl
      reads := fun _ hj => Function.update_of_ne hj ..
      list := fun _ _ => rfl
      written := rfl }
  have hflag := hinv.consumer i
  have hreads := hinv.reads i
  unfold ConsumerOk at hflag
  rw [hpc] at hflag
  unfold ReadsOk at hreads
  rw [if_pos hflag, hpc] at hreads
  refine hstep.invariant hinv (hstep.give hinv.mutex rfl ?_ ?_)
    (hstep.countOk hinv.count rfl ?_ id) (Nat.le_refl _) ?_ ?_
  · rw [hpc]
    rfl
  · simp [ConsumerPc.holds]
  · simp [owing, hpc, ConsumerPc.took]
  · simp only [ConsumerOk, Function.update_self]
  · unfold ReadsOk
    simp only [Function.update_self]
    rw [if_pos hflag, hstep.published]
    simpa [ConsumerPc.returning] using hreads

/-! ## Runs -/

theorem consumerStep {s' : State n} (hs : consumerStep i s = some s') : Invariant s' := by
  unfold ShareMemory.consumerStep at hs
  have hok := hinv.consumer i
  unfold ConsumerOk at hok
  dsimp only at hs
  split at hs
  · cases hs
  · cases hs
  · next hpc =>
    split at hs
    · next hsem =>
      cases hs
      exact hinv.takeMutex hpc hsem
    · cases hs
  · next hpc =>
    rw [hpc] at hok
    have hfits : inSegment (i + 1) = true := by simpa [inSegment] using hok
    rw [if_pos hfits] at hs
    cases hs
    by_cases hflag : s.memory i = 0
    · rw [if_pos hflag]
      refine hinv.setConsumer (by rw [hpc]; rfl) (by rw [hpc]; rfl) (by rw [hpc]; rfl) ?_
      simp only [ConsumerOk, Function.update_self]
      exact hok
    · rw [if_neg hflag]
      refine hinv.setConsumer (by rw [hpc]; rfl) (by rw [hpc]; rfl) (by rw [hpc]; rfl) ?_
      simp only [ConsumerOk, Function.update_self]
      exact hflag
  · next hpc =>
    cases hs
    exact hinv.unlockNone hpc
  · next hpc =>
    split at hs
    · cases hs
      exact hinv.takeUnit hpc
    · cases hs
  · next hpc =>
    rw [hpc] at hok
    have hholds := hinv.producer_of_consumer (i := i) (by rw [hpc]; rfl)
    obtain ⟨last, hread, hwritten⟩ := hinv.unread hholds hok
    rw [hread] at hs
    cases hs
    refine hinv.setConsumer (by rw [hpc]; rfl) (by rw [hpc]; rfl) (by rw [hpc]; rfl) ?_
    simp only [ConsumerOk, Function.update_self]
    exact ⟨hok, by rw [hwritten, List.getLast?_concat]⟩
  · next dataList hpc =>
    cases hs
    exact hinv.clear hpc
  · next dataList hpc =>
    cases hs
    exact hinv.unlockList hpc

theorem producerStep {s' : State n} (hgood : Awaited s .producer)
    (hs : producerStep s = some s') : Invariant s' := by
  unfold ShareMemory.producerStep at hs
  have hok := hinv.producer
  unfold ProducerOk at hok
  split at hs
  · cases hs
  · cases hs
  · next dataList looks hpc =>
    have hholds : s.producer.holds = false := by rw [hpc]; rfl
    rw [hpc] at hok
    split at hs
    · next hzero =>
      cases hs
      exact hinv.setProducer hholds rfl ⟨hok, fun _ => hzero⟩
    · split at hs
      · cases hs
        exact hinv.setProducer hholds rfl ⟨hok, nofun⟩
      · cases hs
        exact hinv.setProducer hholds rfl hok
  · next dataList gaveUp hpc =>
    rw [hpc] at hok
    split at hs
    · next hsem =>
      cases hs
      refine hinv.acquire hpc hsem ?_
      cases gaveUp with
      | false => exact hok.2 rfl
      | true => simpa only [Awaited, hpc] using hgood
    · cases hs
  · next dataList hpc =>
    rw [hpc] at hok
    obtain ⟨memory, hwrite, hread, hmemory⟩ := writeList_eq hok s.memory
    rw [hwrite] at hs
    cases hs
    exact hinv.write hpc hread hmemory
  · next left hpc =>
    cases hs
    exact hinv.release hpc
  · next hpc =>
    rw [hpc] at hok
    obtain ⟨memory, hnotify, hflags, hmemory⟩ := notifyAllConsumerCanRead_eq hok s.memory
    rw [hnotify] at hs
    cases hs
    exact hinv.notify hpc hflags hmemory
  · next hpc =>
    cases hs
    exact hinv.unlock hpc

theorem step {s' : State n} {op : Op n} (hgood : Awaited s op) (hs : step s op = some s') :
    Invariant s' := by
  cases op with
  | write dataList =>
    simp only [ShareMemory.step] at hs
    split at hs
    · next hpc =>
      cases hs
      exact hinv.setProducer (by rw [hpc]; rfl) rfl hgood
    · cases hs
  | producer => exact hinv.producerStep hgood hs
  | read i =>
    simp only [ShareMemory.step] at hs
    split at hs
    · next hpc =>
      cases hs
      refine hinv.setConsumer (by rw [hpc]; rfl) (by rw [hpc]; rfl) (by rw [hpc]; rfl) ?_
      simp only [ConsumerOk, Function.update_self]
      exact hgood
    · cases hs
  | consumer i => exact hinv.consumerStep hs

/-! ## Delivery -/

/-- Only while the producer releases the units does it know of a list that the consumers do not. -/
theorem published_cases : published s = s.written ∨
    s.producer.holds = true ∧ published s = s.written.dropLast ∧ ∀ i : Fin n, s.memory i = 0 := by
  have hcount := hinv.count
  unfold CountOk at hcount
  cases hpc : s.producer <;> rw [hpc] at hcount
  case release left => exact .inr ⟨rfl, by simp [published, hpc], hcount.2.2.2⟩
  case notify => exact .inr ⟨rfl, by simp [published, hpc], hcount.2.2⟩
  all_goals exact .inl (by simp [published, hpc])

theorem inOrder (i : Fin n) : s.reads i <+: s.written := by
  have hpublished : published s <+: s.written := by
    rcases hinv.published_cases with h | ⟨-, h, -⟩
    · rw [h]
    · rw [h]
      exact List.dropLast_prefix _
  refine List.IsPrefix.trans ?_ hpublished
  have hreads := hinv.reads i
  unfold ReadsOk at hreads
  split at hreads
  · rw [← hreads]
    exact List.prefix_append ..
  · obtain ⟨last, hlast⟩ := hreads
    rw [hlast]
    exact List.prefix_append ..

theorem atMostOne (i : Fin n) : s.written.length ≤ (s.reads i).length + 1 := by
  have hreads := hinv.reads i
  unfold ReadsOk at hreads
  rcases hinv.published_cases with h | ⟨hholds, h, hflags⟩
  · rw [h] at hreads
    split at hreads
    · have hlength : (s.consumer i).returning.length ≤ 1 := by
        cases s.consumer i <;> simp [ConsumerPc.returning]
      rw [← hreads, List.length_append]
      omega
    · obtain ⟨last, hlast⟩ := hreads
      rw [hlast, List.length_append, List.length_singleton]
  · rw [if_pos (hflags i), h,
      ConsumerPc.returning_of_not_holds (hinv.consumer_of_producer hholds i),
      List.append_nil] at hreads
    rw [hreads, List.length_dropLast]
    omega

theorem available (hholds : s.producer.holds = false) (hidle : s.consumer i = .idle)
    (hbehind : s.reads i ≠ s.written) :
    s.memory i ≠ 0 ∧ ∃ last, readList n s.memory = some last ∧ s.written = s.reads i ++ [last] := by
  have hflag : s.memory i ≠ 0 := by
    intro hzero
    have hreads := hinv.reads i
    unfold ReadsOk at hreads
    rw [if_pos hzero, hidle, published_eq (.inl hholds)] at hreads
    exact hbehind (by simpa [ConsumerPc.returning] using hreads)
  exact ⟨hflag, hinv.unread hholds hflag⟩

/-- The producer goes on while it has the mutex. -/
theorem producerGoesOn (hholds : s.producer.holds = true) :
    (ShareMemory.step s .producer).isSome := by
  have hcount := hinv.count
  unfold CountOk at hcount
  change (ShareMemory.producerStep s).isSome
  unfold ShareMemory.producerStep
  cases hpc : s.producer <;> rw [hpc] at hcount hholds
  case write dataList =>
    dsimp only
    rcases writeList n dataList s.memory with ⟨memory, _ | _⟩ <;> rfl
  case notify =>
    dsimp only
    rcases notifyAllConsumerCanRead n s.memory with ⟨memory, _ | _⟩ <;> rfl
  case raised => exact hcount.elim
  all_goals first | rfl | cases hholds

/-- A consumer goes on while it has the mutex: it finds its unit. -/
theorem consumerGoesOn (hholds : (s.consumer i).holds = true) :
    (ShareMemory.step s (.consumer i)).isSome := by
  have hok := hinv.consumer i
  have hpos := hinv.dataSem_pos (i := i)
  unfold ConsumerOk at hok
  change (ShareMemory.consumerStep i s).isSome
  unfold ShareMemory.consumerStep
  dsimp only
  cases hpc : s.consumer i <;> rw [hpc] at hok hholds
  case check =>
    dsimp only
    split <;> rfl
  case acquireData =>
    dsimp only
    rw [if_pos (hpos hpc)]
    rfl
  case read =>
    dsimp only
    cases readList n s.memory <;> rfl
  case raised => exact hok.elim
  all_goals first | rfl | cases hholds

theorem delivers : Delivers s where
  inOrder := hinv.inOrder
  atMostOne := hinv.atMostOne
  available hholds _ := hinv.available hholds
  producerGoesOn := hinv.producerGoesOn
  consumerGoesOn _ := hinv.consumerGoesOn
  mutex hsem := by
    by_contra hnot
    have hnobody : population (holders s) = 0 := by
      rw [population_eq_zero]
      rintro (_ | i)
      · exact Bool.eq_false_iff.mpr fun h => hnot (.inl h)
      · exact Bool.eq_false_iff.mpr fun h => hnot (.inr ⟨i, h⟩)
    have hmutex := hinv.mutex
    omega

end Invariant

/-- **Delivery.** In every run whose writes do not raise, and whose waits were not given up in vain,
each consumer reads each list once and in order, and nobody blocks for ever. -/
theorem delivers_of_awaited {s : State n} (h : Reaches step Awaited .init s) : Delivers s :=
  (h.invariant invariant_init fun _ _ _ hinv hgood hs => hinv.step hgood hs).delivers

instance (s : State n) : (op : Op n) → Decidable (Awaited s op)
  | .write dataList => inferInstanceAs (Decidable (Packs n dataList))
  | .read i => inferInstanceAs (Decidable (i + 1 ≤ SHM_WORDS))
  | .producer => by
    unfold Awaited
    dsimp only
    split <;> infer_instance
  | .consumer _ => .isTrue trivial

/-- Two lists for two consumers. The second list waits until both have read the first. -/
theorem delivers_of_awaited_list : ∃ s : State 2, Reaches step Awaited .init s ∧
    (s.reads 0 = [[5, 6], [7]] ∧ s.reads 1 = [[5, 6], [7]]) ∧ Delivers s := by
  let reads (i : Fin 2) : List (Op 2) := .read i :: List.replicate 6 (.consumer i)
  obtain ⟨s, hs, hreads⟩ : ∃ s : State 2, Reaches step Awaited .init s ∧
      s.reads 0 = [[5, 6], [7]] ∧ s.reads 1 = [[5, 6], [7]] :=
    exists_reaches (.write [.int 5, .int 6] :: List.replicate 7 .producer ++ reads 0 ++
      .write [.int 7] :: .producer :: reads 1 ++ List.replicate 7 .producer ++ reads 1 ++ reads 0)
      (by decide +kernel)
  exact ⟨s, hs, hreads, delivers_of_awaited hs⟩

/-- A write raises, and sets the flag without a unit: the consumer blocks with the mutex taken. -/
theorem not_delivers_raised : ¬∀ (n : ℕ) (s : State n), Reaches step (fun _ _ => True) .init s →
    Delivers s := by
  intro h
  obtain ⟨s, hs, hholds, hblocked⟩ : ∃ s : State 1, Reaches step (fun _ _ => True) .init s ∧
      (s.consumer 0).holds = true ∧ (step s (.consumer 0)).isNone = true :=
    exists_reaches (.write [.other] :: List.replicate 5 .producer ++
      .read 0 :: List.replicate 2 (.consumer 0)) (by decide +kernel)
  have hgoes := (h 1 s hs).consumerGoesOn 0 hholds
  rw [Option.isNone_iff_eq_none] at hblocked
  rw [hblocked] at hgoes
  cases hgoes

end MindieLLM.ShareMemory
