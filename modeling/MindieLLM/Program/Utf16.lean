import Mathlib.Data.List.Basic

/-!
# Texts counted in UTF-16 units

A character has one unit, or two if it is beyond the basic plane. A text can be cut after any number
of units that does not end within a character.

## Main definitions

* `utf16Len l`: the number of units of a text
* `cutUnits k l`: the first `k` units of a text, unless they end within a character

## Main results

* `cutUnits_append`: a cut after a part of the text
* `utf16Len_append`: the units of a text in parts
-/

namespace Program

def utf16Size (c : Char) : Nat := if c.val < 0x10000 then 1 else 2

theorem utf16Size_pos (c : Char) : 0 < utf16Size c := by
  unfold utf16Size
  split <;> omega

def utf16Len : List Char → Nat
  | [] => 0
  | c :: cs => utf16Size c + utf16Len cs

@[simp] theorem utf16Len_nil : utf16Len [] = 0 := rfl

@[simp] theorem utf16Len_cons (c : Char) (cs : List Char) :
    utf16Len (c :: cs) = utf16Size c + utf16Len cs := rfl

@[simp] theorem utf16Len_append (l r : List Char) :
    utf16Len (l ++ r) = utf16Len l + utf16Len r := by
  induction l with
  | nil => simp
  | cons c l ih => rw [List.cons_append, utf16Len_cons, ih, utf16Len_cons, Nat.add_assoc]

/-- The first `k` units, or the whole text if it has fewer. -/
def cutUnits : Nat → List Char → Option (List Char)
  | _, [] => some []
  | 0, _ :: _ => some []
  | k + 1, c :: cs =>
    if utf16Size c ≤ k + 1 then (cutUnits (k + 1 - utf16Size c) cs).map (c :: ·) else none

theorem cutUnits_zero (l : List Char) : cutUnits 0 l = some [] := by
  cases l <;> rfl

theorem cutUnits_append (l r : List Char) (k : Nat) :
    cutUnits (utf16Len l + k) (l ++ r) = (cutUnits k r).map (l ++ ·) := by
  induction l with
  | nil => simp
  | cons c l ih =>
    have hpos := utf16Size_pos c
    obtain ⟨m, hm⟩ : ∃ m, utf16Len (c :: l) + k = m + 1 := ⟨utf16Len (c :: l) + k - 1, by
      rw [utf16Len_cons]
      omega⟩
    rw [utf16Len_cons] at hm
    have hrest : m + 1 - utf16Size c = utf16Len l + k := by omega
    rw [List.cons_append, utf16Len_cons, hm, cutUnits, if_pos (by omega), hrest, ih,
      Option.map_map]
    rfl

theorem cutUnits_length (l r : List Char) : cutUnits (utf16Len l) (l ++ r) = some l := by
  have h := cutUnits_append l r 0
  rwa [Nat.add_zero, cutUnits_zero, Option.map_some, List.append_nil] at h

theorem cutUnits_self (l : List Char) : cutUnits (utf16Len l) l = some l := by
  have h := cutUnits_length l []
  rwa [List.append_nil] at h

/-- A cut within a part of the text. -/
theorem cutUnits_append_of_le {l : List Char} {k : Nat} (h : k ≤ utf16Len l) (r : List Char) :
    cutUnits k (l ++ r) = cutUnits k l := by
  induction l generalizing k with
  | nil =>
    obtain rfl : k = 0 := Nat.le_zero.mp h
    rw [cutUnits_zero, cutUnits_zero]
  | cons c l ih =>
    cases k with
    | zero => rfl
    | succ k =>
      rw [List.cons_append, cutUnits, cutUnits]
      split_ifs
      · rw [ih (by rw [utf16Len_cons] at h; omega)]
      · rfl

end Program
