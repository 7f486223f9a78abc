import Mathlib.Data.Nat.Notation
import Mathlib.Logic.Function.Basic

/-!
# A rendezvous by two flag matrices

Members of a group make the same number of calls. In a call a member first sends, then reads what
all members sent, and returns when all members have read what it sent itself. Two matrices of flags
carry this: `ready i w` says that `i` has still to read what `w` sent, `done i w` that `i` has read
it. A sender sets its column of the one and resets its column of the other; a reader resets its row
of the one and sets its row of the other.

Three counters for each member say where the group is: the calls it has returned from, the calls it
has sent in, and the calls it has read in. `Rendezvous` is what the protocol keeps: the flags say
how the counters compare, and no member is more than one call ahead.

## Main definitions

* `Rendezvous calls sent read ready done`: the flags agree with the counters
* `Waits`: a member that cannot go on

## Main results

* `Rendezvous.sends`, `Rendezvous.reads`, `Rendezvous.returns`: the steps of a member keep it
* `Rendezvous.sent_eq`: a member that may read finds the others in the same call
* `Rendezvous.not_all_wait`: some member that has not finished can go on
-/

namespace Program

variable {ι : Type} {calls sent read : ι → ℕ} {ready done : ι → ι → Bool}

structure Rendezvous (calls sent read : ι → ℕ) (ready done : ι → ι → Bool) : Prop where
  calls_le_read : ∀ w i, calls w ≤ read i
  read_le_sent : ∀ i w, read i ≤ sent w
  sent_le : ∀ w, sent w ≤ calls w + 1
  ready_iff : ∀ i w, ready i w = true ↔ read i < sent w
  done_iff : ∀ i w, done i w = true ↔ sent w ≤ read i ∧ 0 < read i

namespace Rendezvous

theorem start :
    Rendezvous (fun _ : ι => 0) (fun _ => 0) (fun _ => 0) (fun _ _ => false)
      (fun _ _ => false) := by
  constructor <;> simp

/-! ## What a member knows -/

/-- One that has all its row of `ready` is in the same call as all others. -/
theorem sent_eq (h : Rendezvous calls sent read ready done) {i : ι} (hi : ∀ w, read i < sent w)
    (w : ι) : sent w = read i + 1 := by
  have hsent := h.sent_le w
  have hcalls := h.calls_le_read w i
  have hlt := hi w
  omega

/-- While somebody has still to send, nobody may read. -/
theorem not_reading (h : Rendezvous calls sent read ready done) {i w : ι}
    (hw : sent w = calls w) : ¬∀ j, read i < sent j := by
  intro hi
  have hlt := hi w
  have hcalls := h.calls_le_read w i
  omega

/-! ## The steps -/

variable [DecidableEq ι]

theorem sends (h : Rendezvous calls sent read ready done) {w : ι} (hw : sent w = calls w) :
    Rendezvous calls (Function.update sent w (sent w + 1)) read
      (fun i j => if j = w then true else ready i j)
      (fun i j => if j = w then false else done i j) where
  calls_le_read := h.calls_le_read
  read_le_sent i j := by
    have hle := h.read_le_sent i j
    by_cases hj : j = w
    · subst hj
      rw [Function.update_self]
      omega
    · rwa [Function.update_of_ne hj]
  sent_le j := by
    by_cases hj : j = w
    · subst hj
      rw [Function.update_self]
      omega
    · rw [Function.update_of_ne hj]
      exact h.sent_le j
  ready_iff i j := by
    by_cases hj : j = w
    · subst hj
      have hle := h.read_le_sent i j
      rw [Function.update_self, if_pos rfl]
      exact iff_of_true rfl (by omega)
    · rw [Function.update_of_ne hj, if_neg hj]
      exact h.ready_iff i j
  done_iff i j := by
    by_cases hj : j = w
    · subst hj
      have hle := h.read_le_sent i j
      rw [Function.update_self, if_pos rfl]
      exact iff_of_false Bool.false_ne_true (by omega)
    · rw [Function.update_of_ne hj, if_neg hj]
      exact h.done_iff i j

theorem reads (h : Rendezvous calls sent read ready done) {w : ι} (hw : ∀ i, read w < sent i) :
    Rendezvous calls sent (Function.update read w (read w + 1))
      (fun i j => if i = w then false else ready i j)
      (fun i j => if i = w then true else done i j) where
  calls_le_read j i := by
    have hle := h.calls_le_read j i
    by_cases hi : i = w
    · subst hi
      rw [Function.update_self]
      omega
    · rwa [Function.update_of_ne hi]
  read_le_sent i j := by
    by_cases hi : i = w
    · subst hi
      rw [Function.update_self]
      exact hw j
    · rw [Function.update_of_ne hi]
      exact h.read_le_sent i j
  sent_le := h.sent_le
  ready_iff i j := by
    by_cases hi : i = w
    · subst hi
      have hsent := h.sent_eq hw j
      rw [Function.update_self, if_pos rfl]
      exact iff_of_false Bool.false_ne_true (by omega)
    · rw [Function.update_of_ne hi, if_neg hi]
      exact h.ready_iff i j
  done_iff i j := by
    by_cases hi : i = w
    · subst hi
      have hsent := h.sent_eq hw j
      rw [Function.update_self, if_pos rfl]
      exact iff_of_true rfl (by omega)
    · rw [Function.update_of_ne hi, if_neg hi]
      exact h.done_iff i j

theorem returns (h : Rendezvous calls sent read ready done) {w : ι} (hw : sent w = calls w + 1)
    (hdone : ∀ i, done i w = true) :
    Rendezvous (Function.update calls w (calls w + 1)) sent read ready done where
  calls_le_read j i := by
    by_cases hj : j = w
    · subst hj
      rw [Function.update_self, ← hw]
      exact ((h.done_iff i j).mp (hdone i)).1
    · rw [Function.update_of_ne hj]
      exact h.calls_le_read j i
  read_le_sent := h.read_le_sent
  sent_le j := by
    by_cases hj : j = w
    · subst hj
      rw [Function.update_self]
      omega
    · rw [Function.update_of_ne hj]
      exact h.sent_le j
  ready_iff := h.ready_iff
  done_iff := h.done_iff

end Rendezvous

/-! ## Nobody waits for ever -/

/-- One that waits for something to read, or for others to read. -/
inductive Waits (calls sent read : ι → ℕ) (ready done : ι → ι → Bool) (w : ι) : Prop
  | ready (hsent : sent w = calls w + 1) (hread : read w = calls w) {i : ι}
      (hi : ready w i = false)
  | done (hread : read w = calls w + 1) {i : ι} (hi : done i w = false)

namespace Rendezvous

theorem calls_le_sent (h : Rendezvous calls sent read ready done) (i w : ι) : calls i ≤ sent w :=
  Nat.le_trans (h.calls_le_read i i) (h.read_le_sent i w)

theorem sent_le_of_not_ready (h : Rendezvous calls sent read ready done) {i w : ι}
    (hi : ready i w = false) : sent w ≤ read i := by
  by_contra hlt
  have htrue := (h.ready_iff i w).mpr (by omega)
  simp [hi] at htrue

theorem lt_sent_of_not_done (h : Rendezvous calls sent read ready done) {i w : ι}
    (hi : done i w = false) (hpos : 0 < read i) : read i < sent w := by
  by_contra hle
  have htrue := (h.done_iff i w).mpr ⟨by omega, hpos⟩
  simp [hi] at htrue

/-- One that waits has sent in every call that somebody is in. -/
theorem calls_lt_sent (h : Rendezvous calls sent read ready done) {i : ι}
    (hwait : Waits calls sent read ready done i) (t : ι) : calls t < sent i := by
  obtain ⟨hsent, hread, -⟩ | @⟨hread, j, hj⟩ := hwait
  · have ht := h.calls_le_read t i
    omega
  · have ht := h.calls_le_read t j
    have hi := h.read_le_sent i i
    by_contra hle
    have hlt := h.lt_sent_of_not_done hj (by omega)
    omega

/-- **No deadlock.** Where somebody has calls left, not all others wait. -/
theorem not_all_wait (h : Rendezvous calls sent read ready done) {total : ℕ} {t : ι}
    (ht : calls t < total) :
    ¬∀ i, calls i = total ∨ Waits calls sent read ready done i := by
  intro hall
  have hsent : ∀ {t}, calls t < total → ∀ j, calls t < sent j := by
    intro t ht j
    obtain hj | hj := hall j
    · have hle := h.calls_le_sent j j
      omega
    · exact h.calls_lt_sent hj t
  -- nobody waits for something to read: all have sent it
  have hready : ∀ {t i}, calls t < total → read t = calls t → ready t i = false → False := by
    intro t i ht hread hi
    have hle := h.sent_le_of_not_ready hi
    have hlt := hsent ht i
    omega
  obtain heq | ⟨-, hread, hi⟩ | @⟨hread, i, hi⟩ := hall t
  · omega
  · exact hready ht hread hi
  · -- so one that `t` waits for has read, or will
    have hi : read i ≤ calls t := by
      by_contra hlt
      have hlt' := h.lt_sent_of_not_done hi (by omega)
      have hle := h.sent_le t
      omega
    have hcalls := h.calls_le_read i i
    obtain heq | ⟨-, hread', hj⟩ | ⟨hread', -⟩ := hall i
    · omega
    · exact hready (by omega) hread' hj
    · have hlt := hsent ht i
      have hle := h.sent_le i
      omega

end Rendezvous

end Program
