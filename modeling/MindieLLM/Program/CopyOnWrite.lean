import Mathlib.Data.Finset.Card

/-!
# Copy on write

Objects have contents of their own, and a label for the store that the contents are kept in. Objects
with equal contents may share a label. A write to an object whose label is shared gives it a label
that nobody has, and this is noted as a copy from the old label to the new one; if no label is left
then the object is without one from then on.

## Main definitions

* `Sharing`: the objects in use, their labels and contents, and the copies noted so far
* `Wrote`, `Took`: a write to an object, and a new object
* `Diverged`: writes and new objects have led from one state to another

## Main results

* `Diverged.wrote`, `Diverged.took`: what one step preserves
* `Diverged.copies`: there is a copy for each object that has another label
* `Diverged.relabelled_or`: a write separates the object from the ones it shared a label with
-/

namespace Program

variable {ι β γ : Type}

/-- Objects in use. The label `lost` is no label. -/
structure Sharing (ι β γ : Type) where
  lost : β
  used : Finset ι
  label : ι → β
  contents : ι → List γ
  capacity : ι → ℕ
  copies : Multiset (β × β)

namespace Sharing

variable {s₀ s s' : Sharing ι β γ} {p q : ι} {b : β} {xs : List γ} {bs : Finset ι}

/-- An object other than `p` has the label `b`. -/
def Shared (s : Sharing ι β γ) (p : ι) (b : β) : Prop := ∃ q ∈ s.used, q ≠ p ∧ s.label q = b

/-- What a write does to the label `b` of the object `p`. -/
inductive Relabelled (s : Sharing ι β γ) (p : ι) (b : β) (s' : Sharing ι β γ) : Prop
  | kept (alone : ¬s.Shared p b) (label : s'.label p = b) (copies : s'.copies = s.copies)
  | copied (shared : s.Shared p b) (ne_lost : s'.label p ≠ s.lost)
      (alone : ¬s.Shared p (s'.label p)) (copies : s'.copies = (b, s'.label p) ::ₘ s.copies)
  | lost (shared : s.Shared p b) (label : s'.label p = s.lost) (copies : s'.copies = s.copies)

/-- Something is written to the object `p`. -/
structure Wrote (s : Sharing ι β γ) (p : ι) (xs : List γ) (s' : Sharing ι β γ) : Prop where
  mem : p ∈ s.used
  ne_nil : xs ≠ []
  ne_lost : s.label p ≠ s.lost
  fits : (s.contents p).length + xs.length ≤ s.capacity p
  lost : s'.lost = s.lost
  used : s'.used = s.used
  contents : s'.contents p = s.contents p ++ xs
  relabelled : Relabelled s p (s.label p) s'
  label_frame : ∀ q, q ≠ p → s'.label q = s.label q
  contents_frame : ∀ q, q ≠ p → s'.contents q = s.contents q
  capacity : s'.capacity = s.capacity

/-- The object `p` comes into use, with a label that nobody has. -/
structure Took (s : Sharing ι β γ) (p : ι) (s' : Sharing ι β γ) : Prop where
  fresh : p ∉ s.used
  lost : s'.lost = s.lost
  used : ∀ q, q ∈ s'.used ↔ q = p ∨ q ∈ s.used
  ne_lost : s'.label p ≠ s.lost
  alone : ¬s.Shared p (s'.label p)
  label_frame : ∀ q, q ≠ p → s'.label q = s.label q
  contents_frame : ∀ q, q ≠ p → s'.contents q = s.contents q
  capacity_frame : ∀ q, q ≠ p → s'.capacity q = s.capacity q
  copies : s'.copies = s.copies

/-- Nobody shares the label of the object, if it has one. -/
def Alone (s : Sharing ι β γ) (p : ι) : Prop := s.label p ≠ s.lost → ¬s.Shared p (s.label p)

variable [DecidableEq β]

/-- The objects that have another label. -/
def moved (s₀ : Sharing ι β γ) (bs : Finset ι) (s : Sharing ι β γ) : Finset ι :=
  bs.filter fun p => s.label p ≠ s₀.label p ∧ s.label p ≠ s₀.lost

/-- For each of these objects, the label it had and the one it has. -/
def pairs (s₀ : Sharing ι β γ) (bs : Finset ι) (s : Sharing ι β γ) : Multiset (β × β) :=
  (moved s₀ bs s).val.map fun p => (s₀.label p, s.label p)

/-- Writes to the objects `bs` and to new ones have led from `s₀` to `s`. -/
structure Diverged (s₀ : Sharing ι β γ) (bs : Finset ι) (s : Sharing ι β γ) : Prop where
  lost : s.lost = s₀.lost
  subset : ∀ q ∈ s₀.used, q ∈ s.used
  objects : ∀ p ∈ bs, p ∈ s₀.used
  capacity : ∀ q ∈ s₀.used, s.capacity q = s₀.capacity q
  label_frame : ∀ q ∈ s₀.used, q ∉ bs → s.label q = s₀.label q
  contents_frame : ∀ q ∈ s₀.used, q ∉ bs → s.contents q = s₀.contents q
  grown : ∀ p ∈ bs, ∃ xs, s.contents p = s₀.contents p ++ xs
  room : ∀ p ∈ bs, s.contents p ≠ s₀.contents p → (s₀.contents p).length < s₀.capacity p
  written : ∀ p ∈ bs, s.contents p ≠ s₀.contents p → s.Alone p
  fresh : ∀ p ∈ s.used, p ∉ s₀.used → s.Alone p
  relabelled : ∀ p ∈ bs, s.label p ≠ s₀.label p → s.contents p ≠ s₀.contents p ∧
    ∃ q ∈ s₀.used, q ≠ p ∧ s₀.label q = s₀.label p ∧ s.label q = s₀.label p
  copies : s.copies = s₀.copies + pairs s₀ bs s

theorem mem_moved : p ∈ moved s₀ bs s ↔ p ∈ bs ∧ s.label p ≠ s₀.label p ∧ s.label p ≠ s₀.lost := by
  rw [moved, Finset.mem_filter]

/-- An object that has not got another label does not count. -/
theorem pairs_congr (hframe : ∀ q, q ≠ p → s'.label q = s.label q) (hp : p ∉ moved s₀ bs s)
    (hp' : p ∉ moved s₀ bs s') : pairs s₀ bs s' = pairs s₀ bs s := by
  have hmoved : moved s₀ bs s' = moved s₀ bs s := by
    ext q
    by_cases hq : q = p
    · subst hq
      exact iff_of_false hp' hp
    · rw [mem_moved, mem_moved, hframe q hq]
  rw [pairs, pairs, hmoved]
  refine Multiset.map_congr rfl fun q hq => ?_
  rw [hframe q fun heq => hp (heq ▸ hq)]

/-- An object that gets another label counts once. -/
theorem pairs_cons (hframe : ∀ q, q ≠ p → s'.label q = s.label q) (hp : p ∉ moved s₀ bs s)
    (hp' : p ∈ moved s₀ bs s') : pairs s₀ bs s' = (s₀.label p, s'.label p) ::ₘ pairs s₀ bs s := by
  classical
  have hmoved : moved s₀ bs s' = insert p (moved s₀ bs s) := by
    ext q
    rw [Finset.mem_insert]
    by_cases hq : q = p
    · subst hq
      exact iff_of_true hp' (.inl rfl)
    · rw [mem_moved, mem_moved, hframe q hq]
      exact (or_iff_right hq).symm
  rw [pairs, pairs, hmoved, Finset.insert_val_of_notMem hp, Multiset.map_cons]
  congr 1
  refine Multiset.map_congr rfl fun q hq => ?_
  rw [hframe q fun heq => hp (heq ▸ hq)]

namespace Diverged

theorem refl (hbs : ∀ p ∈ bs, p ∈ s₀.used) : Diverged s₀ bs s₀ where
  lost := rfl
  subset _ hq := hq
  objects := hbs
  capacity _ _ := rfl
  label_frame _ _ _ := rfl
  contents_frame _ _ _ := rfl
  grown p _ := ⟨[], (List.append_nil _).symm⟩
  room _ _ hne := absurd rfl hne
  written _ _ hne := absurd rfl hne
  fresh _ hp hno := absurd hp hno
  relabelled _ _ hne := absurd rfl hne
  copies := by simp [pairs, moved]

/-- An object that is shared has not been written to. -/
theorem unwritten (h : Diverged s₀ bs s) (hp : p ∈ s.used) (hlabel : s.label p ≠ s.lost)
    (hshared : s.Shared p (s.label p)) :
    p ∈ s₀.used ∧ s.label p = s₀.label p ∧ (p ∈ bs → s.contents p = s₀.contents p) := by
  have hnot : ¬s.Alone p := fun halone => halone hlabel hshared
  have hp₀ : p ∈ s₀.used := by
    by_contra hno
    exact hnot (h.fresh p hp hno)
  have hcontents : p ∈ bs → s.contents p = s₀.contents p := by
    intro hmem
    by_contra hne
    exact hnot (h.written p hmem hne)
  refine ⟨hp₀, ?_, hcontents⟩
  by_cases hmem : p ∈ bs
  · by_contra hne
    exact (h.relabelled p hmem hne).1 (hcontents hmem)
  · exact h.label_frame p hp₀ hmem

/-- The objects that share a label shared it from the start. -/
theorem shared_start (h : Diverged s₀ bs s) (hp : p ∈ s.used) (hlabel : s.label p ≠ s.lost)
    (hshared : s.Shared p (s.label p)) :
    ∃ q ∈ s₀.used, q ≠ p ∧ s₀.label q = s₀.label p ∧ s.label q = s.label p := by
  obtain ⟨q, hq, hne, heq⟩ := hshared
  have hpq := h.unwritten hp hlabel ⟨q, hq, hne, heq⟩
  have hqp := h.unwritten hq (heq ▸ hlabel) ⟨p, hp, hne.symm, heq.symm⟩
  exact ⟨q, hqp.1, hne, by rw [← hqp.2.1, heq, hpq.2.1], heq⟩

/-! ## What a step preserves -/

omit [DecidableEq β] in
/-- No object gets a label that another one has. -/
theorem wrote_alone (hw : Wrote s p xs s') (hq : q ∈ s.used) (hne : q ≠ p) (halone : s.Alone q) :
    s'.Alone q := by
  rintro hlabel ⟨r, hr, hrq, heq⟩
  rw [hw.label_frame q hne, hw.lost] at hlabel
  rw [hw.label_frame q hne] at heq
  rw [hw.used] at hr
  by_cases hrp : r = p
  · subst hrp
    rcases hw.relabelled with ⟨-, hkept, -⟩ | ⟨-, -, hnew, -⟩ | ⟨-, hlost, -⟩
    · exact halone hlabel ⟨r, hr, hrq, hkept.symm.trans heq⟩
    · exact hnew ⟨q, hq, hne, heq.symm⟩
    · exact hlabel (heq.symm.trans hlost)
  · exact halone hlabel ⟨r, hr, hrq, by rw [← hw.label_frame r hrp, heq]⟩

omit [DecidableEq β] in
/-- Nobody shares the label of an object that has just been written to. -/
theorem wrote_self_alone (hw : Wrote s p xs s') : s'.Alone p := by
  rintro hlabel ⟨r, hr, hrp, heq⟩
  rw [hw.label_frame r hrp] at heq
  rw [hw.used] at hr
  rcases hw.relabelled with ⟨halone, hkept, -⟩ | ⟨-, -, hnew, -⟩ | ⟨-, hlost, -⟩
  · exact halone ⟨r, hr, hrp, heq.trans hkept⟩
  · exact hnew ⟨r, hr, hrp, heq⟩
  · exact hlabel (hlost.trans hw.lost.symm)

/-- A label that an object has had from the start is still there after a write. -/
theorem wrote_keeps (h : Diverged s₀ bs s) (hw : Wrote s p xs s') (hq : q ∈ s₀.used)
    (hlabel₀ : s₀.label q = b) (hlabel : s.label q = b) :
    ∃ r ∈ s₀.used, s₀.label r = b ∧ s'.label r = b := by
  by_cases hqp : q = p
  · subst hqp
    have hmoves : s.Shared q (s.label q) → ∃ r ∈ s₀.used, s₀.label r = b ∧ s'.label r = b := by
      intro hshared
      obtain ⟨r, hr, hne, hstart, hnow⟩ := h.shared_start hw.mem hw.ne_lost hshared
      exact ⟨r, hr, hstart.trans hlabel₀, by rw [hw.label_frame r hne, hnow, hlabel]⟩
    rcases hw.relabelled with ⟨-, hkept, -⟩ | ⟨hshared, -⟩ | ⟨hshared, -⟩
    · exact ⟨q, hq, hlabel₀, hkept.trans hlabel⟩
    · exact hmoves hshared
    · exact hmoves hshared
  · exact ⟨q, hq, hlabel₀, by rw [hw.label_frame q hqp, hlabel]⟩

/-- A copy is noted for an object that had its label from the start, and for it only. -/
theorem wrote_copies (h : Diverged s₀ bs s) (hw : Wrote s p xs s')
    (hp : p ∈ bs ∨ p ∉ s₀.used) : s'.copies = s₀.copies + pairs s₀ bs s' := by
  have hstart : s.Shared p (s.label p) → p ∈ bs ∧ s.label p = s₀.label p ∧ p ∉ moved s₀ bs s := by
    intro hshared
    obtain ⟨hused, hlabel, -⟩ := h.unwritten hw.mem hw.ne_lost hshared
    exact ⟨hp.resolve_right (not_not.mpr hused), hlabel, fun hmem => (mem_moved.mp hmem).2.1 hlabel⟩
  rcases hw.relabelled with ⟨-, hkept, hcopies⟩ | ⟨hshared, hne, hnew, hcopies⟩ |
    ⟨hshared, hlost, hcopies⟩
  · have hlabels : s'.label = s.label := by
      funext q
      by_cases hq : q = p
      · rw [hq, hkept]
      · exact hw.label_frame q hq
    rw [hcopies, h.copies, pairs, pairs, moved, moved, hlabels]
  · obtain ⟨hbs, hlabel, hno⟩ := hstart hshared
    have hmoved : p ∈ moved s₀ bs s' := by
      refine mem_moved.mpr ⟨hbs, fun heq => hnew ?_, fun heq => hne (heq.trans h.lost.symm)⟩
      rwa [heq, ← hlabel]
    rw [hcopies, h.copies, pairs_cons hw.label_frame hno hmoved, hlabel, Multiset.add_cons]
  · obtain ⟨hbs, hlabel, hno⟩ := hstart hshared
    rw [hcopies, h.copies, pairs_congr hw.label_frame hno fun hmem =>
      (mem_moved.mp hmem).2.2 (hlost.trans h.lost)]

/-- **What a write preserves.** -/
theorem wrote (h : Diverged s₀ bs s) (hw : Wrote s p xs s') (hp : p ∈ bs ∨ p ∉ s₀.used) :
    Diverged s₀ bs s' := by
  have hne : ∀ q ∈ s₀.used, q ∉ bs → q ≠ p := by
    rintro q hq hno rfl
    exact hp.elim hno fun hfresh => hfresh hq
  have hgrown : ∀ q ∈ bs, ∃ ys, s'.contents q = s₀.contents q ++ ys ∧ (q = p → ys ≠ []) := by
    intro q hq
    obtain ⟨ys, hys⟩ := h.grown q hq
    by_cases hqp : q = p
    · subst hqp
      refine ⟨ys ++ xs, by rw [hw.contents, hys, List.append_assoc], fun _ hnil => hw.ne_nil ?_⟩
      exact (List.append_eq_nil_iff.mp hnil).2
    · exact ⟨ys, by rw [hw.contents_frame q hqp, hys], fun heq => absurd heq hqp⟩
  have hwritten : p ∈ bs → s'.contents p ≠ s₀.contents p := by
    intro hmem heq
    obtain ⟨ys, hys, hnil⟩ := hgrown p hmem
    exact hnil rfl (List.append_right_eq_self.mp (hys.symm.trans heq))
  refine ⟨hw.lost.trans h.lost, fun q hq => hw.used ▸ h.subset q hq, h.objects, fun q hq => ?_,
    fun q hq hno => ?_, fun q hq hno => ?_, fun q hq => ?_, fun q hq hcontents => ?_,
    fun q hq hcontents => ?_, fun q hq hno => ?_, fun q hq hlabel => ?_, wrote_copies h hw hp⟩
  · rw [hw.capacity, h.capacity q hq]
  · rw [hw.label_frame q (hne q hq hno), h.label_frame q hq hno]
  · rw [hw.contents_frame q (hne q hq hno), h.contents_frame q hq hno]
  · obtain ⟨ys, hys, -⟩ := hgrown q hq
    exact ⟨ys, hys⟩
  · by_cases hold : s.contents q = s₀.contents q
    · have hqp : q = p := by
        by_contra hqp
        exact hcontents ((hw.contents_frame q hqp).trans hold)
      subst hqp
      have hfits := hw.fits
      rw [hold, h.capacity q (h.objects q hq)] at hfits
      have := List.length_pos_of_ne_nil hw.ne_nil
      omega
    · exact h.room q hq hold
  · by_cases hqp : q = p
    · rw [hqp]
      exact wrote_self_alone hw
    · rw [hw.contents_frame q hqp] at hcontents
      exact wrote_alone hw (h.subset q (h.objects q hq)) hqp (h.written q hq hcontents)
  · by_cases hqp : q = p
    · rw [hqp]
      exact wrote_self_alone hw
    · rw [hw.used] at hq
      exact wrote_alone hw hq hqp (h.fresh q hq hno)
  · have hlabel' : ∃ r ∈ s₀.used, s₀.label r = s₀.label q ∧ s'.label r = s₀.label q := by
      by_cases hsame : s.label q = s₀.label q
      · exact wrote_keeps h hw (h.objects q hq) rfl hsame
      · obtain ⟨-, r, hr, -, hstart, hnow⟩ := h.relabelled q hq hsame
        exact wrote_keeps h hw hr hstart hnow
    obtain ⟨r, hr, hstart, hnow⟩ := hlabel'
    refine ⟨?_, r, hr, fun heq => hlabel (heq ▸ hnow), hstart, hnow⟩
    by_cases hqp : q = p
    · subst hqp
      exact hwritten hq
    · rw [hw.label_frame q hqp] at hlabel
      rw [hw.contents_frame q hqp]
      exact (h.relabelled q hq hlabel).1

omit [DecidableEq β] in
/-- A new object shares its label with nobody, and no other object shares one with it. -/
theorem took_alone (ht : Took s p s') (hq : q ∈ s'.used) (halone : q ≠ p → s.Alone q) :
    s'.Alone q := by
  rintro hlabel ⟨r, hr, hrq, heq⟩
  by_cases hqp : q = p
  · subst hqp
    rw [ht.label_frame r hrq] at heq
    exact ht.alone ⟨r, ((ht.used r).mp hr).resolve_left hrq, hrq, heq⟩
  · have hused := ((ht.used q).mp hq).resolve_left hqp
    rw [ht.label_frame q hqp, ht.lost] at hlabel
    rw [ht.label_frame q hqp] at heq
    rcases (ht.used r).mp hr with rfl | hr
    · exact ht.alone ⟨q, hused, hqp, heq.symm⟩
    · by_cases hrp : r = p
      · exact ht.fresh (hrp ▸ hr)
      · exact halone hqp hlabel ⟨r, hr, hrq, by rw [← ht.label_frame r hrp, heq]⟩

/-- **What a new object preserves.** -/
theorem took (h : Diverged s₀ bs s) (ht : Took s p s') : Diverged s₀ bs s' := by
  have hne : ∀ q ∈ s₀.used, q ≠ p := fun q hq heq => ht.fresh (heq ▸ h.subset q hq)
  have hmoved : ∀ s, p ∉ moved s₀ bs s :=
    fun s hmem => hne p (h.objects p (mem_moved.mp hmem).1) rfl
  have hcontents : ∀ q ∈ bs, s'.contents q = s.contents q :=
    fun q hq => ht.contents_frame q (hne q (h.objects q hq))
  have hlabels : ∀ q ∈ s₀.used, s'.label q = s.label q := fun q hq => ht.label_frame q (hne q hq)
  refine ⟨ht.lost.trans h.lost, fun q hq => (ht.used q).mpr (.inr (h.subset q hq)), h.objects,
    fun q hq => ?_, fun q hq hno => ?_, fun q hq hno => ?_, fun q hq => ?_, fun q hq => ?_,
    fun q hq hwritten => ?_, fun q hq hno => ?_, fun q hq => ?_, ?_⟩
  · rw [ht.capacity_frame q (hne q hq), h.capacity q hq]
  · rw [hlabels q hq, h.label_frame q hq hno]
  · rw [ht.contents_frame q (hne q hq), h.contents_frame q hq hno]
  · rw [hcontents q hq]
    exact h.grown q hq
  · rw [hcontents q hq]
    exact h.room q hq
  · rw [hcontents q hq] at hwritten
    have hused := h.objects q hq
    exact took_alone ht ((ht.used q).mpr (.inr (h.subset q hused))) fun _ => h.written q hq hwritten
  · refine took_alone ht hq fun hqp => ?_
    exact h.fresh q (((ht.used q).mp hq).resolve_left hqp) hno
  · rw [hlabels q (h.objects q hq), hcontents q hq]
    intro hlabel
    obtain ⟨hwritten, r, hr, hrq, hstart, hnow⟩ := h.relabelled q hq hlabel
    exact ⟨hwritten, r, hr, hrq, hstart, (hlabels r hr).trans hnow⟩
  · rw [ht.copies, h.copies, pairs_congr ht.label_frame (hmoved s) (hmoved s')]

/-! ## Two objects that shared a label -/

/-- **A write separates the object from the ones it shared a label with**: it or the other one has
another label. -/
theorem relabelled_or (h : Diverged s₀ bs s) (hp : p ∈ bs) (hwritten : s.contents p ≠ s₀.contents p)
    (hq : q ∈ s₀.used) (hne : q ≠ p) (hlabel : s₀.label p ≠ s₀.lost)
    (hshared : s₀.label q = s₀.label p) :
    s.label p ≠ s₀.label p ∨ s.label q ≠ s₀.label q := by
  by_contra hno
  push Not at hno
  obtain ⟨hsame, hsame'⟩ := hno
  refine h.written p hp hwritten ?_ ⟨q, h.subset q hq, hne, ?_⟩
  · rw [hsame, h.lost]
    exact hlabel
  · rw [hsame, hsame', hshared]

end Diverged

end Sharing

end Program
