import MindieLLM.Program.Reaches
import MindieLLM.Program.Rendezvous
import Mathlib.Data.Fintype.Basic

/-!
# The all-gather of a group of threads

The scheduling threads of the data-parallel ranks of one process exchange data in
`ThreadGroupCC::AllGather`: each thread copies its data in its own buffer, sets its flag in the
readiness row of each thread, waits until its own row is full, copies all buffers out, sets its row
of the other matrix and waits until all threads have read its buffer.

The copies are outside the lock: the copy of a thread's data in its buffer is a step, and so is the
copy of each buffer out. What a thread does while it holds the lock, up to the test of the condition
that it waits for, is one step. A thread whose condition fails sleeps until it is notified, or wakes
without a reason, and then tests the condition again.

The buffers hold `std::any`, so the calls of one group may be about different types: `ty k` is the
type of all `k`-th calls. The indices of the threads are `Fin n`; an index that is out of range
makes the source throw, and each thread has an index of its own.

## Main definitions

* `PC`, `Thread`, `State`: where a thread is in a call, and the shared buffers and flags
* `stepThread`, `step`: the steps of a thread, and the wake-ups without a reason
* `MayRead`: a thread has not finished the copies out of a call

## Main results

* `invariant_of_reaches`: flags, buffers and threads fit together in every state reached
* `allGather_correct`: the calls return what was sent, no buffer is written too early, and the
  group does not block
-/

namespace MindieLLM.ThreadGroupCC

open Program

variable {Ty : Type} {Elem : Ty → Type} {ty : ℕ → Ty} {n total : ℕ}

/-- `std::any`: a value with its type. -/
abbrev Any (Elem : Ty → Type) : Type := (t : Ty) × Elem t

/-- `std::any_cast`; without a value where it throws. -/
def anyCast [DecidableEq Ty] (t : Ty) (a : Any Elem) : Option (Elem t) :=
  if h : a.1 = t then some (h ▸ a.2) else none

def copyData2Buf {t : Ty} (src : List (Elem t)) : List (Any Elem) := src.map fun x => ⟨t, x⟩

def copyBuf2Data [DecidableEq Ty] (t : Ty) (src : List (Any Elem)) : Option (List (Elem t)) :=
  src.mapM (anyCast t)

@[simp] theorem copyBuf2Data_copyData2Buf [DecidableEq Ty] {t : Ty} (src : List (Elem t)) :
    copyBuf2Data t (copyData2Buf src) = some src := by
  unfold copyBuf2Data copyData2Buf
  induction src with
  | nil => rfl
  | cons x rest ih => simp [List.mapM_cons, anyCast, ih]

/-- Where a thread is in `AllGather`. -/
inductive PC (T : Type)
  /-- before the copy of its data in its buffer; outside a call, too -/
  | copyData
  /-- before it takes the lock in `AllGatherSend_` -/
  | send
  /-- before the test of the first condition -/
  | recv
  /-- asleep on `allGatherDataReadyCv_` -/
  | sleepReady
  /-- the copies out, with what is copied so far -/
  | copyBuf (recvData : List (List T))
  /-- asleep on `allGatherAllReadCv_` -/
  | sleepRead (recvData : List (List T))
  /-- before another test of the second condition -/
  | recheck (recvData : List (List T))
  /-- an `any_cast` failed -/
  | thrown

namespace PC

variable {T : Type}

/-- `allGatherDataReadyCv_.notify_all()`. -/
def notifyReady : PC T → PC T
  | .sleepReady => .recv
  | pc => pc

/-- `allGatherAllReadCv_.notify_all()`. -/
def notifyRead : PC T → PC T
  | .sleepRead recvData => .recheck recvData
  | pc => pc

end PC

structure Thread (Elem : Ty → Type) (ty : ℕ → Ty) where
  /-- the calls it has returned from -/
  calls : ℕ
  pc : PC (Elem (ty calls))
  /-- what they have returned -/
  returned : List ((t : Ty) × List (List (Elem t)))

/-- The thread at another place of the same call. -/
def Thread.goto (t : Thread Elem ty) (pc : PC (Elem (ty t.calls))) : Thread Elem ty :=
  { t with pc := pc }

structure State (Elem : Ty → Type) (ty : ℕ → Ty) (n : ℕ) where
  buf : Fin n → List (Any Elem)
  readyVec : Fin n → Fin n → Bool
  readerDoneVec : Fin n → Fin n → Bool
  thread : Fin n → Thread Elem ty

def State.start : State Elem ty n where
  buf _ := []
  readyVec _ _ := false
  readerDoneVec _ _ := false
  thread _ := ⟨0, .copyData, []⟩

def State.setThread (s : State Elem ty n) (w : Fin n) (t : Thread Elem ty) : State Elem ty n :=
  { s with thread := Function.update s.thread w t }

/-! ## The steps -/

/-- What `AllGatherSend_` does under the lock. -/
def allGatherSend (s : State Elem ty n) (idx : Fin n) : State Elem ty n where
  buf := s.buf
  readyVec := fun i j => if j = idx then true else s.readyVec i j
  readerDoneVec := fun i j => if j = idx then false else s.readerDoneVec i j
  thread := fun i => (s.thread i).goto (s.thread i).pc.notifyReady

/-- What `AllGatherRecv_` does under the lock after the copies, up to the wait. -/
def allGatherRecv (s : State Elem ty n) (idx : Fin n) : State Elem ty n where
  buf := s.buf
  readyVec := fun i j => if i = idx then false else s.readyVec i j
  readerDoneVec := fun i j => if i = idx then true else s.readerDoneVec i j
  thread := fun i => (s.thread i).goto (s.thread i).pc.notifyRead

/-- The test of the second condition: the thread, at `t`, returns or sleeps. -/
def waitAllRead (s : State Elem ty n) (idx : Fin n) (t : Thread Elem ty)
    (recvData : List (List (Elem (ty t.calls)))) : State Elem ty n :=
  s.setThread idx <|
    if ∀ i, s.readerDoneVec i idx = true then
      ⟨t.calls + 1, .copyData, t.returned ++ [⟨_, recvData⟩]⟩
    else
      t.goto (.sleepRead recvData)

/-- A step of thread `idx`, whose `k`-th call sends `sendData k idx`; each makes `total` calls. -/
def stepThread [DecidableEq Ty] (sendData : (k : ℕ) → Fin n → List (Elem (ty k))) (total : ℕ)
    (s : State Elem ty n) (idx : Fin n) : Option (State Elem ty n) :=
  let t := s.thread idx
  match t.pc with
  | .copyData =>
    if t.calls < total then
      let buf := Function.update s.buf idx (copyData2Buf (sendData t.calls idx))
      some ({ s with buf := buf }.setThread idx (t.goto .send))
    else
      none
  | .send => some ((allGatherSend s idx).setThread idx (t.goto .recv))
  | .recv =>
    let ready := ∀ i, s.readyVec idx i = true
    some (s.setThread idx (t.goto (if ready then .copyBuf [] else .sleepReady)))
  | .sleepReady => none
  | .copyBuf recvData =>
    if h : recvData.length < n then
      match copyBuf2Data (ty t.calls) (s.buf ⟨recvData.length, h⟩) with
      | some data => some (s.setThread idx (t.goto (.copyBuf (recvData ++ [data]))))
      | none => some (s.setThread idx (t.goto .thrown))
    else
      some (waitAllRead (allGatherRecv s idx) idx t recvData)
  | .sleepRead _ => none
  | .recheck recvData => some (waitAllRead s idx t recvData)
  | .thrown => none

inductive Action (n : ℕ)
  | run (idx : Fin n)
  /-- a wait may end without a notification -/
  | wake (idx : Fin n)

def step [DecidableEq Ty] (sendData : (k : ℕ) → Fin n → List (Elem (ty k))) (total : ℕ)
    (s : State Elem ty n) : Action n → Option (State Elem ty n)
  | .run idx => stepThread sendData total s idx
  | .wake idx =>
    let t := s.thread idx
    some (s.setThread idx (t.goto t.pc.notifyReady.notifyRead))

/-! ## Counters -/

namespace PC

variable {T : Type}

/-- A call counts as begun from the copy in the buffer on. -/
def begun : PC T → ℕ
  | .copyData => 0
  | _ => 1

/-- A call counts as sent from the flags on. -/
def sent : PC T → ℕ
  | .copyData | .send => 0
  | _ => 1

/-- A call counts as read when the copies out are over. -/
def read : PC T → ℕ
  | .sleepRead _ | .recheck _ => 1
  | _ => 0

variable (pc : PC T)

@[simp] theorem begun_notifyReady : pc.notifyReady.begun = pc.begun := by cases pc <;> rfl

@[simp] theorem begun_notifyRead : pc.notifyRead.begun = pc.begun := by cases pc <;> rfl

@[simp] theorem sent_notifyReady : pc.notifyReady.sent = pc.sent := by cases pc <;> rfl

@[simp] theorem sent_notifyRead : pc.notifyRead.sent = pc.sent := by cases pc <;> rfl

@[simp] theorem read_notifyReady : pc.notifyReady.read = pc.read := by cases pc <;> rfl

@[simp] theorem read_notifyRead : pc.notifyRead.read = pc.read := by cases pc <;> rfl

/-- What is true of a thread there, when `all` is what its call has to return. -/
def Fits (all : List (List T)) (readable notReady notRead : Prop) : PC T → Prop
  | .copyData | .send | .recv => True
  | .sleepReady => notReady
  | .copyBuf recvData => readable ∧ recvData <+: all
  | .sleepRead recvData => recvData = all ∧ notRead
  | .recheck recvData => recvData = all
  | .thrown => False

variable {pc} {all : List (List T)} {readable notReady notRead readable' notReady' notRead' : Prop}

/-- One that was notified need not wait for anything. -/
theorem Fits.notifyReady (h : pc.Fits all readable notReady notRead)
    (hreadable : readable → readable') (hread : notRead → notRead') :
    pc.notifyReady.Fits all readable' notReady' notRead' := by
  cases pc with
  | copyData | send | recv | recheck | thrown => exact h
  | sleepReady => trivial
  | copyBuf => exact ⟨hreadable h.1, h.2⟩
  | sleepRead => exact ⟨h.1, hread h.2⟩

theorem Fits.notifyRead (h : pc.Fits all readable notReady notRead)
    (hreadable : readable → readable') (hready : notReady → notReady') :
    pc.notifyRead.Fits all readable' notReady' notRead' := by
  cases pc with
  | copyData | send | recv | recheck | thrown => exact h
  | sleepReady => exact hready h
  | copyBuf => exact ⟨hreadable h.1, h.2⟩
  | sleepRead => exact h.1

end PC

namespace Thread

variable (t : Thread Elem ty)

def begun : ℕ := t.calls + t.pc.begun

def sent : ℕ := t.calls + t.pc.sent

def read : ℕ := t.calls + t.pc.read

variable (pc : PC (Elem (ty t.calls)))

@[simp] theorem goto_calls : (t.goto pc).calls = t.calls := rfl

@[simp] theorem goto_pc : (t.goto pc).pc = pc := rfl

@[simp] theorem goto_returned : (t.goto pc).returned = t.returned := rfl

@[simp] theorem goto_begun : (t.goto pc).begun = t.calls + pc.begun := rfl

@[simp] theorem goto_sent : (t.goto pc).sent = t.calls + pc.sent := rfl

@[simp] theorem goto_read : (t.goto pc).read = t.calls + pc.read := rfl

end Thread

/-- The copies out of the `k`-th call of a thread are not over. -/
def MayRead (t : Thread Elem ty) (k : ℕ) : Prop := t.read ≤ k

/-! ## The invariant -/

variable {sendData : (k : ℕ) → Fin n → List (Elem (ty k))} {s s' : State Elem ty n} {idx : Fin n}

/-- What the calls return. -/
def gathered (sendData : (k : ℕ) → Fin n → List (Elem (ty k))) (calls : ℕ) :
    List ((t : Ty) × List (List (Elem t))) :=
  (List.range calls).map fun k => ⟨ty k, List.ofFn (sendData k)⟩

/-- What holds of one thread, and of its buffer, when the flags say that it is `readable`,
`notReady` or `notRead`. -/
structure ThreadInv (sendData : (k : ℕ) → Fin n → List (Elem (ty k))) (total : ℕ) (idx : Fin n)
    (buf : List (Any Elem)) (t : Thread Elem ty) (readable notReady notRead : Prop) : Prop where
  buf : ∀ k, t.begun = k + 1 → buf = copyData2Buf (sendData k idx)
  fits : t.pc.Fits (List.ofFn (sendData t.calls)) readable notReady notRead
  begun_le : t.begun ≤ total
  returned : t.returned = gathered sendData t.calls

structure Inv (sendData : (k : ℕ) → Fin n → List (Elem (ty k))) (total : ℕ)
    (s : State Elem ty n) : Prop where
  rendezvous : Rendezvous (fun w => (s.thread w).calls) (fun w => (s.thread w).sent)
    (fun w => (s.thread w).read) s.readyVec s.readerDoneVec
  thread : ∀ w, ThreadInv sendData total w (s.buf w) (s.thread w)
    (∀ i, (s.thread w).read < (s.thread i).sent) (∃ i, s.readyVec w i = false)
    (∃ i, s.readerDoneVec i w = false)

theorem Inv.start : Inv sendData total State.start where
  rendezvous := Rendezvous.start
  thread _ := ⟨nofun, trivial, Nat.zero_le _, rfl⟩

/-- A state is given by what one thread becomes; the others are as before, up to a notification. -/
theorem Inv.setThread {t : Thread Elem ty}
    (hr : Rendezvous (Function.update (fun w => (s.thread w).calls) idx t.calls)
      (Function.update (fun w => (s.thread w).sent) idx t.sent)
      (Function.update (fun w => (s.thread w).read) idx t.read) s.readyVec s.readerDoneVec)
    (ht : ThreadInv sendData total idx (s.buf idx) t
      (∀ i, t.read < Function.update (fun w => (s.thread w).sent) idx t.sent i)
      (∃ i, s.readyVec idx i = false) (∃ i, s.readerDoneVec i idx = false))
    (hothers : ∀ w, w ≠ idx → ThreadInv sendData total w (s.buf w) (s.thread w)
      (∀ i, (s.thread w).read < Function.update (fun w => (s.thread w).sent) idx t.sent i)
      (∃ i, s.readyVec w i = false) (∃ i, s.readerDoneVec i w = false)) :
    Inv sendData total (s.setThread idx t) := by
  have hfield : ∀ f : Thread Elem ty → ℕ, (fun w => f ((s.setThread idx t).thread w)) =
      Function.update (fun w => f (s.thread w)) idx (f t) := by
    intro f
    funext w
    exact Function.apply_update (fun _ => f) s.thread idx t w
  have hsent : ∀ i, ((s.setThread idx t).thread i).sent =
      Function.update (fun w => (s.thread w).sent) idx t.sent i := congrFun (hfield _)
  constructor
  · rw [hfield, hfield, hfield]
    exact hr
  · intro w
    simp only [hsent]
    by_cases hw : w = idx
    · subst hw
      simpa [State.setThread] using ht
    · simpa [State.setThread, Function.update_of_ne hw] using hothers w hw

/-- The step of a thread that neither sends, reads nor returns. -/
theorem Inv.move (h : Inv sendData total s) {buf : List (Any Elem)}
    {pc : PC (Elem (ty (s.thread idx).calls))}
    (hsent : pc.sent = (s.thread idx).pc.sent) (hread : pc.read = (s.thread idx).pc.read)
    (ht : ThreadInv sendData total idx buf ((s.thread idx).goto pc)
      (∀ i, (s.thread idx).read < (s.thread i).sent) (∃ i, s.readyVec idx i = false)
      (∃ i, s.readerDoneVec i idx = false)) :
    Inv sendData total ({ s with buf := Function.update s.buf idx buf }.setThread idx
      ((s.thread idx).goto pc)) := by
  have hsent' : Function.update (fun w => (s.thread w).sent) idx
      ((s.thread idx).goto pc).sent = fun w => (s.thread w).sent := by
    rw [Function.update_eq_self_iff]
    simp [Thread.sent, hsent]
  have hread' : ((s.thread idx).goto pc).read = (s.thread idx).read := by
    simp [Thread.read, hread]
  refine Inv.setThread ?_ ?_ fun w hw => ?_
  · simp only [hsent', hread', Function.update_eq_self_iff.mpr]
    simpa only [Thread.goto_calls, Function.update_eq_self] using h.rendezvous
  · simp only [hsent', hread', Function.update_self]
    exact ht
  · simp only [hsent', Function.update_of_ne hw]
    exact h.thread w

theorem Inv.move_pc (h : Inv sendData total s) {pc : PC (Elem (ty (s.thread idx).calls))}
    (hsent : pc.sent = (s.thread idx).pc.sent) (hread : pc.read = (s.thread idx).pc.read)
    (hbegun : pc.begun = (s.thread idx).pc.begun)
    (hfits : pc.Fits (List.ofFn (sendData (s.thread idx).calls))
      (∀ i, (s.thread idx).read < (s.thread i).sent) (∃ i, s.readyVec idx i = false)
      (∃ i, s.readerDoneVec i idx = false)) :
    Inv sendData total (s.setThread idx ((s.thread idx).goto pc)) := by
  have hbegun' : ((s.thread idx).goto pc).begun = (s.thread idx).begun := by
    simp [Thread.begun, hbegun]
  have ht := h.thread idx
  have hmove := h.move hsent hread
    ⟨hbegun' ▸ ht.buf, hfits, hbegun' ▸ ht.begun_le, ht.returned⟩
  rwa [Function.update_eq_self] at hmove

theorem Inv.send (h : Inv sendData total s) (hpc : (s.thread idx).pc = .send) :
    Inv sendData total ((allGatherSend s idx).setThread idx ((s.thread idx).goto .recv)) := by
  have hsent : ∀ w, ((allGatherSend s idx).thread w).sent = (s.thread w).sent := by
    simp [allGatherSend, Thread.sent]
  have hread : ∀ w, ((allGatherSend s idx).thread w).read = (s.thread w).read := by
    simp [allGatherSend, Thread.read]
  have hread' : ((s.thread idx).goto .recv).read = (s.thread idx).read := by
    simp [Thread.read, hpc, PC.read]
  have hsent' : ((s.thread idx).goto .recv).sent = (s.thread idx).sent + 1 := by
    simp [Thread.sent, hpc, PC.sent]
  have hbegun : ((s.thread idx).goto .recv).begun = (s.thread idx).begun := by
    simp [Thread.begun, hpc, PC.begun]
  have hidx : (s.thread idx).sent = (s.thread idx).calls := by simp [Thread.sent, hpc, PC.sent]
  refine Inv.setThread ?_ ?_ fun w hw => ?_
  · have hr := h.rendezvous.sends hidx
    simp only [hsent, hread, hread', hsent']
    simpa [allGatherSend] using hr
  · have ht := h.thread idx
    exact ⟨hbegun ▸ ht.buf, trivial, hbegun ▸ ht.begun_le, ht.returned⟩
  · have ht := h.thread w
    simp only [hsent, hread, hsent']
    refine ⟨?_, ht.fits.notifyReady (fun hlt i => ?_) fun ⟨i, hi⟩ => ⟨i, ?_⟩, ?_, ht.returned⟩
    · simpa [allGatherSend, Thread.begun] using ht.buf
    · have hi := hlt i
      by_cases hidx : i = idx
      · subst hidx
        rw [Function.update_self]
        omega
      · rwa [Function.update_of_ne hidx]
    · simpa [allGatherSend, hw] using hi
    · simpa [allGatherSend, Thread.begun] using ht.begun_le

theorem Inv.recv (h : Inv sendData total s)
    {recvData : List (List (Elem (ty (s.thread idx).calls)))}
    (hpc : (s.thread idx).pc = .copyBuf recvData) (hlen : n ≤ recvData.length) :
    Inv sendData total
      ((allGatherRecv s idx).setThread idx ((s.thread idx).goto (.recheck recvData))) := by
  have hsent : ∀ w, ((allGatherRecv s idx).thread w).sent = (s.thread w).sent := by
    simp [allGatherRecv, Thread.sent]
  have hread : ∀ w, ((allGatherRecv s idx).thread w).read = (s.thread w).read := by
    simp [allGatherRecv, Thread.read]
  have hread' : ((s.thread idx).goto (.recheck recvData)).read = (s.thread idx).read + 1 := by
    simp [Thread.read, hpc, PC.read]
  have hsent' : ((s.thread idx).goto (.recheck recvData)).sent = (s.thread idx).sent := by
    simp [Thread.sent, hpc, PC.sent]
  have hbegun : ((s.thread idx).goto (.recheck recvData)).begun = (s.thread idx).begun := by
    simp [Thread.begun, hpc, PC.begun]
  have hidx := (h.thread idx).fits
  simp only [hpc, PC.Fits] at hidx
  refine Inv.setThread ?_ ?_ fun w hw => ?_
  · have hr := h.rendezvous.reads hidx.1
    simp only [hsent, hread, hread', hsent']
    simpa [allGatherRecv] using hr
  · have ht := h.thread idx
    refine ⟨hbegun ▸ ht.buf, ?_, hbegun ▸ ht.begun_le, ht.returned⟩
    exact hidx.2.eq_of_length_le (by simpa using hlen)
  · have ht := h.thread w
    simp only [hsent, hread, hsent', Function.update_eq_self]
    refine ⟨?_, ht.fits.notifyRead id fun ⟨i, hi⟩ => ⟨i, ?_⟩, ?_, ht.returned⟩
    · simpa [allGatherRecv, Thread.begun] using ht.buf
    · simpa [allGatherRecv, hw] using hi
    · simpa [allGatherRecv, Thread.begun] using ht.begun_le

theorem Inv.waitAllRead (h : Inv sendData total s) {t : Thread Elem ty} (hidx : s.thread idx = t)
    {recvData : List (List (Elem (ty t.calls)))} (hpc : t.pc = .recheck recvData) :
    Inv sendData total (waitAllRead s idx t recvData) := by
  subst hidx
  have ht := h.thread idx
  have hfits := ht.fits
  simp only [hpc, PC.Fits] at hfits
  unfold ThreadGroupCC.waitAllRead
  split
  · next hdone =>
    have hsent : (s.thread idx).sent = (s.thread idx).calls + 1 := by
      simp [Thread.sent, hpc, PC.sent]
    have hread : (s.thread idx).read = (s.thread idx).calls + 1 := by
      simp [Thread.read, hpc, PC.read]
    have hbegun : (s.thread idx).begun = (s.thread idx).calls + 1 := by
      simp [Thread.begun, hpc, PC.begun]
    have hsent' : ∀ returned, Thread.sent (⟨(s.thread idx).calls + 1, .copyData, returned⟩ :
        Thread Elem ty) = (s.thread idx).sent := fun _ => hsent.symm
    have hread' : ∀ returned, Thread.read (⟨(s.thread idx).calls + 1, .copyData, returned⟩ :
        Thread Elem ty) = (s.thread idx).read := fun _ => hread.symm
    refine Inv.setThread ?_ ?_ fun w hw => ?_
    · simp only [hsent', hread', Function.update_eq_self]
      exact h.rendezvous.returns hsent hdone
    · refine ⟨fun k hk => ht.buf k (hbegun.trans hk), trivial, hbegun.symm.trans_le ht.begun_le, ?_⟩
      simp only [gathered, List.range_succ, List.map_append, ht.returned, hfits, List.map_cons,
        List.map_nil]
    · simp only [hsent', Function.update_eq_self]
      exact h.thread w
  · next hdone =>
    refine h.move_pc ?_ ?_ ?_ ⟨hfits, ?_⟩
    · rw [hpc]; rfl
    · rw [hpc]; rfl
    · rw [hpc]; rfl
    · simpa using hdone

theorem waitAllRead_setThread {t : Thread Elem ty}
    {recvData : List (List (Elem (ty t.calls)))} {pc : PC (Elem (ty t.calls))} :
    waitAllRead (s.setThread idx (t.goto pc)) idx (t.goto pc) recvData =
      waitAllRead s idx t recvData := by
  unfold waitAllRead State.setThread
  simp only [Function.update_idem]
  rfl

/-- A thread that copies out finds in each buffer what was sent in its own call. -/
theorem Inv.buf_eq (h : Inv sendData total s)
    (hreadable : ∀ i, (s.thread idx).read < (s.thread i).sent)
    (hread : (s.thread idx).read = (s.thread idx).calls) (w : Fin n) :
    s.buf w = copyData2Buf (sendData (s.thread idx).calls w) := by
  refine (h.thread w).buf _ ?_
  have hsent := h.rendezvous.sent_eq hreadable w
  have hle := h.rendezvous.calls_le_read w idx
  simp only [hread] at hsent hle
  -- one that has sent for this call is not yet in its next
  unfold Thread.sent at hsent
  unfold Thread.begun
  cases hpc : (s.thread w).pc <;> simp only [hpc, PC.sent, PC.begun] at hsent ⊢ <;> omega

/-- While some thread is to write its buffer, nobody copies a buffer out. -/
theorem Inv.not_copyBuf (h : Inv sendData total s) (hpc : (s.thread idx).pc = .copyData) (i : Fin n)
    (recvData : List (List (Elem (ty (s.thread i).calls)))) :
    (s.thread i).pc ≠ .copyBuf recvData := by
  intro hi
  have hfits := (h.thread i).fits
  simp only [hi, PC.Fits] at hfits
  have hsent : (s.thread idx).sent = (s.thread idx).calls := by simp [Thread.sent, hpc, PC.sent]
  exact h.rendezvous.not_reading hsent hfits.1

variable [DecidableEq Ty]

theorem Inv.stepThread (h : Inv sendData total s)
    (hs : stepThread sendData total s idx = some s') : Inv sendData total s' := by
  have ht := h.thread idx
  have hfits := ht.fits
  unfold ThreadGroupCC.stepThread at hs
  cases hpc : (s.thread idx).pc with
  | copyData =>
    simp only [hpc] at hs
    split at hs
    · next hlt =>
      obtain rfl := Option.some.inj hs
      refine h.move (by rw [hpc]; rfl) (by rw [hpc]; rfl)
        ⟨fun k hk => ?_, trivial, hlt, ht.returned⟩
      obtain rfl : (s.thread idx).calls = k := Nat.succ.inj hk
      rfl
    · cases hs
  | send =>
    simp only [hpc] at hs
    obtain rfl := Option.some.inj hs
    exact h.send hpc
  | recv =>
    simp only [hpc] at hs
    obtain rfl := Option.some.inj hs
    by_cases hready : ∀ i, s.readyVec idx i = true
    · rw [if_pos hready]
      refine h.move_pc (by rw [hpc]; rfl) (by rw [hpc]; rfl) (by rw [hpc]; rfl) ⟨fun i => ?_, ?_⟩
      · exact (h.rendezvous.ready_iff idx i).mp (hready i)
      · exact List.nil_prefix
    · rw [if_neg hready]
      refine h.move_pc (by rw [hpc]; rfl) (by rw [hpc]; rfl) (by rw [hpc]; rfl) ?_
      simpa [PC.Fits] using hready
  | sleepReady => simp [hpc] at hs
  | copyBuf recvData =>
    simp only [hpc] at hs hfits
    split at hs
    · next hlen =>
      have hread : (s.thread idx).read = (s.thread idx).calls := by simp [Thread.read, hpc, PC.read]
      rw [h.buf_eq hfits.1 hread, copyBuf2Data_copyData2Buf] at hs
      obtain rfl := Option.some.inj hs
      refine h.move_pc (by rw [hpc]; rfl) (by rw [hpc]; rfl) (by rw [hpc]; rfl) ⟨hfits.1, ?_⟩
      have hprefix := List.concat_get_prefix hfits.2 (by simpa using hlen)
      simpa using hprefix
    · next hlen =>
      obtain rfl := Option.some.inj hs
      let t := (s.thread idx).goto (.recheck recvData)
      have hself : ((allGatherRecv s idx).setThread idx t).thread idx = t := by
        simp [State.setThread]
      have hrecv := (h.recv hpc (Nat.le_of_not_lt hlen)).waitAllRead hself rfl
      rwa [waitAllRead_setThread] at hrecv
  | sleepRead recvData => simp [hpc] at hs
  | recheck recvData =>
    simp only [hpc] at hs
    obtain rfl := Option.some.inj hs
    exact h.waitAllRead rfl hpc
  | thrown => simp [hpc] at hs

theorem Inv.step {a : Action n} (h : Inv sendData total s)
    (hs : ThreadGroupCC.step sendData total s a = some s') : Inv sendData total s' := by
  cases a with
  | run idx => exact h.stepThread hs
  | wake idx =>
    obtain rfl := Option.some.inj hs
    have hfits := (h.thread idx).fits
    refine h.move_pc (by simp) (by simp) (by simp) ?_
    exact (hfits.notifyReady id id).notifyRead id id

theorem invariant_of_reaches
    (h : Reaches (step sendData total) (fun _ _ => True) State.start s) :
    Inv sendData total s :=
  h.invariant Inv.start fun _ _ _ hinv _ hs => hinv.step hs

/-! ## What the calls do -/

theorem Inv.exists_step (h : Inv sendData total s) (hidx : (s.thread idx).calls < total) :
    ∃ w s', ThreadGroupCC.step sendData total s (.run w) = some s' := by
  by_contra hnone
  refine h.rendezvous.not_all_wait hidx fun i => ?_
  have hstuck : ∀ s', ThreadGroupCC.stepThread sendData total s i ≠ some s' := by
    intro s' hs'
    exact hnone ⟨i, s', hs'⟩
  unfold ThreadGroupCC.stepThread at hstuck
  have ht := h.thread i
  have hfits := ht.fits
  cases hpc : (s.thread i).pc with
  | copyData =>
    have hle := ht.begun_le
    simp only [Thread.begun, hpc, PC.begun] at hle
    by_cases hlt : (s.thread i).calls < total
    · simp [hpc, hlt] at hstuck
    · exact .inl (by omega)
  | send => simp [hpc] at hstuck
  | recv => simp [hpc] at hstuck
  | sleepReady =>
    simp only [hpc, PC.Fits] at hfits
    obtain ⟨j, hj⟩ := hfits
    exact .inr
      (.ready (by simp [Thread.sent, hpc, PC.sent]) (by simp [Thread.read, hpc, PC.read]) hj)
  | copyBuf recvData =>
    simp only [hpc] at hstuck
    split at hstuck
    · split at hstuck <;> simp at hstuck
    · simp at hstuck
  | sleepRead recvData =>
    simp only [hpc, PC.Fits] at hfits
    obtain ⟨-, j, hj⟩ := hfits
    exact .inr (.done (by simp [Thread.read, hpc, PC.read]) hj)
  | recheck recvData => simp [hpc] at hstuck
  | thrown => simp [hpc, PC.Fits] at hfits

/-- **The all-gather is correct and live.** In every state that the threads reach, by any order of
their steps: each call that a thread has returned from has returned what all threads sent in the
same call; when a thread is to write its buffer, no thread copies a buffer out or has still to do so
for an earlier call; and if some thread has calls left, some thread can take a step. -/
theorem allGather_correct (h : Reaches (step sendData total) (fun _ _ => True) State.start s) :
    (∀ w, (s.thread w).returned =
      (List.range (s.thread w).calls).map fun k => ⟨ty k, List.ofFn (sendData k)⟩) ∧
    (∀ w, (s.thread w).pc = .copyData → ∀ i,
      (∀ recvData, (s.thread i).pc ≠ .copyBuf recvData) ∧
      ∀ k < (s.thread w).calls, ¬MayRead (s.thread i) k) ∧
    ((∃ w, (s.thread w).calls ≠ total) → ∃ w s', step sendData total s (.run w) = some s') := by
  have hinv := invariant_of_reaches h
  refine ⟨fun w => (hinv.thread w).returned, fun w hw i => ⟨hinv.not_copyBuf hw i, ?_⟩, ?_⟩
  · intro k hk hread
    have hle := hinv.rendezvous.calls_le_read w i
    exact absurd (Nat.lt_of_lt_of_le hk hle) (Nat.not_lt_of_le hread)
  · rintro ⟨w, hw⟩
    have hle := (hinv.thread w).begun_le
    unfold Thread.begun at hle
    exact hinv.exists_step (by omega : (s.thread w).calls < total)

/-- In its second call the second of two threads waits for the first. -/
theorem allGather_correct_two :
    let sendData : ℕ → Fin 2 → List ℕ := fun k w => List.replicate (w.val + 1) (10 * k + w.val)
    ∃ s : State (fun _ : Unit => ℕ) (fun _ => ()) 2,
      Reaches (step sendData 2) (fun _ _ => True) State.start s ∧
      (s.thread 0).returned = [⟨(), [[0], [1, 1]]⟩] ∧
      ∃ w s', step sendData 2 s (.run w) = some s' := by
  intro sendData
  have hexists : ∃ s : State (fun _ : Unit => ℕ) (fun _ => ()) 2,
      Reaches (step sendData 2) (fun _ _ => True) State.start s ∧ (s.thread 0).calls = 1 :=
    exists_reaches ([0, 0, 0, 1, 1, 0, 0, 0, 0, 1, 1, 1, 1, 0, 1, 1, 1].map .run)
      (by decide +kernel)
  obtain ⟨s, hs, hcalls⟩ := hexists
  obtain ⟨hreturned, -, hlive⟩ := allGather_correct hs
  refine ⟨s, hs, ?_, hlive ⟨0, by omega⟩⟩
  rw [hreturned 0, hcalls]
  rfl

end MindieLLM.ThreadGroupCC
