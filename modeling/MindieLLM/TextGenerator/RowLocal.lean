import MindieLLM.TextGenerator.UpdateContext

/-!
# Programs that treat each row alone

An array operation is local to the rows if what it does to a row depends on the row and on what the
batch has for it, and not on the rest of the batch nor on where the row is. Sequences of such
operations are local again. Most of the updates of the context are local; this is so statement by
statement.

## Main definitions

* `UpdateContext.MapsRow h g c`: the program takes the row to `g` of it
* `UpdateContext.RowLocal c`: the program, of a batch, is local to the rows
* `UpdateContext.Keeps proj c`: the program does not write a part of the rows

## Main results

* `UpdateContext.RowLocal.assign`, `UpdateContext.RowLocal.forRows`, `UpdateContext.RowLocal.seq`:
  how local programs are composed
-/

namespace MindieLLM

open Program

namespace UpdateContext

variable {E α β : Type}

/-! ## What a program does to a row -/

/-- The program returns, and the row is `g` of what it was. -/
def MapsRow (h : SlotIdx) (g : SlotContext → SlotContext) (c : SlotsM PUnit) : Prop :=
  ∀ slots, wp c (fun _ slots' => slots' h = g (slots h)) (fun _ _ => False) slots

namespace MapsRow

variable {h : SlotIdx} {e : E} {g g' : SlotContext → SlotContext} {c d : SlotsM PUnit}
  {batch : List (SlotIdx × E)}

theorem assign {value : E → SlotContext → β} {set : SlotContext → β → SlotContext}
    (hbatch : Alone batch h e) :
    MapsRow h (fun c => set c (value e c)) (assign batch value set) :=
  fun slots => writeRows_alone (hbatch.map fun p => value p.2 (slots p.1))

theorem forRows {f : E → SlotContext → SlotContext} (hbatch : Alone batch h e) :
    MapsRow h (f e) (forRows batch f) :=
  fun _ => writeRows_alone hbatch

theorem pure : MapsRow h id (Pure.pure ⟨⟩) := fun _ => rfl

theorem ite (p : Prop) [Decidable p] (hc : MapsRow h g c) (hd : MapsRow h g' d) :
    MapsRow h (if p then g else g') (if p then c else d) := by
  by_cases hp : p
  · simpa only [if_pos hp] using hc
  · simpa only [if_neg hp] using hd

theorem assignIf {given : Bool} {value : E → SlotContext → β}
    {set : SlotContext → β → SlotContext} (hbatch : Alone batch h e) :
    MapsRow h (if given then fun c => set c (value e c) else id) (assignIf given batch value set) :=
  ite _ (assign hbatch) pure

/-- Rows that are not in the batch stay. -/
theorem forRows_of_notMem {f : E → SlotContext → SlotContext} (hnone : ∀ p ∈ batch, p.1 ≠ h) :
    MapsRow h id (UpdateContext.forRows batch f) :=
  fun _ => writeRows_of_notMem hnone

theorem assign_of_notMem {value : E → SlotContext → β} {set : SlotContext → β → SlotContext}
    (hnone : ∀ p ∈ batch, p.1 ≠ h) :
    MapsRow h id (UpdateContext.assign batch value set) := by
  refine fun slots => writeRows_of_notMem fun p hp => ?_
  obtain ⟨q, hq, rfl⟩ := List.mem_map.mp hp
  exact hnone q hq

theorem assignIf_of_notMem {given : Bool} {value : E → SlotContext → β}
    {set : SlotContext → β → SlotContext} (hnone : ∀ p ∈ batch, p.1 ≠ h) :
    MapsRow h id (UpdateContext.assignIf given batch value set) := by
  cases given with
  | false => exact pure
  | true => exact assign_of_notMem hnone

/-- One after the other. -/
theorem seq (hc : MapsRow h g c) (hd : MapsRow h g' d) : MapsRow h (g' ∘ g) (c >>= fun _ => d) := by
  intro slots
  rw [wp_bind]
  refine wp_mono (hc slots) (fun _ slots' hslots' => ?_) fun _ _ hf => hf
  refine wp_mono (hd slots') (fun _ slots'' hslots'' => ?_) fun _ _ hf => hf
  rw [hslots'', hslots']
  rfl

end MapsRow

/-! ## Local programs -/

def RowLocal (c : List (SlotIdx × E) → SlotsM PUnit) : Prop :=
  ∀ e, ∃ g, ∀ batch h, Alone batch h e → MapsRow h g (c batch)

namespace RowLocal

variable {c d : List (SlotIdx × E) → SlotsM PUnit}

theorem assign (value : E → SlotContext → β) (set : SlotContext → β → SlotContext) :
    RowLocal fun batch => assign batch value set :=
  fun _ => ⟨_, fun _ _ hbatch => .assign hbatch⟩

theorem forRows (f : E → SlotContext → SlotContext) : RowLocal fun batch => forRows batch f :=
  fun _ => ⟨_, fun _ _ hbatch => .forRows hbatch⟩

theorem pure : RowLocal fun _ : List (SlotIdx × E) => (Pure.pure ⟨⟩ : SlotsM PUnit) :=
  fun _ => ⟨_, fun _ _ _ => .pure⟩

theorem ite (p : Prop) [Decidable p] (hc : RowLocal c) (hd : RowLocal d) :
    RowLocal fun batch => if p then c batch else d batch := by
  by_cases hp : p
  · simpa only [if_pos hp] using hc
  · simpa only [if_neg hp] using hd

theorem assignIf (given : Bool) (value : E → SlotContext → β)
    (set : SlotContext → β → SlotContext) : RowLocal fun batch => assignIf given batch value set :=
  ite _ (assign value set) pure

theorem seq (hc : RowLocal c) (hd : RowLocal d) :
    RowLocal fun batch => c batch >>= fun _ => d batch := by
  intro e
  obtain ⟨g, hg⟩ := hc e
  obtain ⟨g', hg'⟩ := hd e
  exact ⟨g' ∘ g, fun batch h hbatch => (hg batch h hbatch).seq (hg' batch h hbatch)⟩

end RowLocal

/-! ## Parts that are not written -/

/-- The rows after a program that returns or raises. -/
def after (c : SlotsM α) (slots : SlotIdx → SlotContext) : SlotIdx → SlotContext :=
  match c slots with
  | .ok _ slots' => slots'
  | .error _ slots' => slots'

def Keeps (proj : SlotContext → β) (c : SlotsM α) : Prop :=
  ∀ slots, wp c (fun _ slots' => ∀ h, proj (slots' h) = proj (slots h))
    (fun _ slots' => ∀ h, proj (slots' h) = proj (slots h)) slots

theorem after_of_wp {c : SlotsM α} {slots : SlotIdx → SlotContext}
    {P : (SlotIdx → SlotContext) → Prop} (h : wp c (fun _ s => P s) (fun _ s => P s) slots) :
    P (after c slots) := by
  unfold wp at h
  unfold after
  cases hc : c slots <;> simpa only [hc] using h

theorem after_of_ok {c : SlotsM α} {d : α → SlotsM β} {a : α} {slots slots' : SlotIdx → SlotContext}
    (hc : c slots = .ok a slots') : after (c >>= d) slots = after (d a) slots' := by
  simp only [after, bind, EStateM.bind, hc]

namespace Keeps

variable {γ : Type} {proj : SlotContext → γ}

theorem writeRows {set : SlotContext → β → SlotContext} (hset : ∀ c v, proj (set c v) = proj c)
    (l : List (SlotIdx × β)) (slots : SlotIdx → SlotContext) (h : SlotIdx) :
    proj (Program.writeRows set l slots h) = proj (slots h) := by
  rw [writeRows_apply]
  generalize (l.filter fun p => p.1 = h).map Prod.snd = values
  induction values generalizing slots with
  | nil => rfl
  | cons v rest ih => exact (ih fun _ => set (slots h) v).trans (hset _ _)

theorem assign {batch : List (SlotIdx × E)} {value : E → SlotContext → β}
    {set : SlotContext → β → SlotContext} (hset : ∀ c v, proj (set c v) = proj c) :
    Keeps proj (assign batch value set) :=
  fun slots => writeRows hset _ slots

theorem forRows {batch : List (SlotIdx × E)} {f : E → SlotContext → SlotContext}
    (hf : ∀ e c, proj (f e c) = proj c) : Keeps proj (forRows batch f) :=
  fun slots => writeRows (fun c e => hf e c) _ slots

theorem pure (a : α) : Keeps proj (Pure.pure a : SlotsM α) := fun _ _ => rfl

theorem throw (e : PyError) : Keeps proj (throw e : SlotsM α) := fun _ _ => rfl

theorem ite (p : Prop) [Decidable p] {c d : SlotsM α} (hc : Keeps proj c) (hd : Keeps proj d) :
    Keeps proj (if p then c else d) := by
  by_cases hp : p
  · simpa only [if_pos hp] using hc
  · simpa only [if_neg hp] using hd

theorem assignIf {given : Bool} {batch : List (SlotIdx × E)} {value : E → SlotContext → β}
    {set : SlotContext → β → SlotContext} (hset : ∀ c v, proj (set c v) = proj c) :
    Keeps proj (assignIf given batch value set) :=
  ite _ (assign hset) (pure _)

theorem bind {c : SlotsM α} {d : α → SlotsM β} (hc : Keeps proj c) (hd : ∀ a, Keeps proj (d a)) :
    Keeps proj (c >>= d) := by
  intro slots
  rw [wp_bind]
  refine wp_mono (hc slots) (fun a s hs => ?_) fun _ _ hs => hs
  refine wp_mono (hd a s) (fun _ s' hs' h => ?_) fun _ s' hs' h => ?_
  · exact (hs' h).trans (hs h)
  · exact (hs' h).trans (hs h)

theorem get : Keeps proj (MonadState.get : SlotsM (SlotIdx → SlotContext)) := fun _ _ => rfl

theorem orRaise {x : Except PyError α} : Keeps proj (orRaise x) := by
  cases x with
  | ok a => exact pure a
  | error e => exact throw e

theorem mapM {l : List β} {f : β → SlotsM α} (hf : ∀ x, Keeps proj (f x)) :
    Keeps proj (l.mapM f) := by
  induction l with
  | nil => exact pure _
  | cons x rest ih =>
    rw [List.mapM_cons]
    exact bind (hf x) fun _ => bind ih fun _ => pure _

theorem forM {l : List β} {f : β → SlotsM PUnit} (hf : ∀ x, Keeps proj (f x)) :
    Keeps proj (l.forM f) := by
  induction l with
  | nil => exact pure _
  | cons x rest ih => exact bind (hf x) fun _ => ih

theorem after {c : SlotsM α} (hc : Keeps proj c) (slots : SlotIdx → SlotContext) (h : SlotIdx) :
    proj (UpdateContext.after c slots h) = proj (slots h) :=
  after_of_wp (P := fun s => ∀ h, proj (s h) = proj (slots h)) (hc slots) h

end Keeps

end UpdateContext

end MindieLLM
