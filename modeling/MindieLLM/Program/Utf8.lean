import Mathlib.Data.List.Basic

/-!
# Decoding UTF-8

A decoder reads symbols one at a time and writes what it knows so far; at the end of the input it
writes what it still owes. If it owes nothing after a part of the input, it decodes the rest as if
that were all.

UTF-8 is decoded in this way, with the replacement character for each longest run of bytes that
could have started a character but did not, and for each byte that cannot start one. At the end of
the input the decoder owes a replacement character if it is inside a character.

## Main definitions

* `Decoder`, `Decoder.decode`: a decoder and what it makes of an input
* `utf8`, `utf8Decode`: the decoder of UTF-8

## Main results

* `Decoder.decode_append`: the rest of the input is decoded by itself
* `utf8Decode_append`: so it is where the text does not end in a replacement character
-/

namespace Program

/-! ## Decoders -/

structure Decoder (σ α β : Type) where
  start : σ
  step : σ → α → σ × List β
  /-- what is owed at the end -/
  finish : σ → List β

namespace Decoder

variable {σ α β : Type} (d : Decoder σ α β)

/-- The state after some symbols. -/
def after (s : σ) : List α → σ
  | [] => s
  | a :: as => after (d.step s a).1 as

/-- What is written while they are read. -/
def emitted (s : σ) : List α → List β
  | [] => []
  | a :: as => (d.step s a).2 ++ emitted (d.step s a).1 as

def decode (as : List α) : List β := d.emitted d.start as ++ d.finish (d.after d.start as)

theorem after_append (s : σ) (as bs : List α) :
    d.after s (as ++ bs) = d.after (d.after s as) bs := by
  induction as generalizing s with
  | nil => rfl
  | cons a as ih => exact ih _

theorem emitted_append (s : σ) (as bs : List α) :
    d.emitted s (as ++ bs) = d.emitted s as ++ d.emitted (d.after s as) bs := by
  induction as generalizing s with
  | nil => rfl
  | cons a as ih =>
    rw [List.cons_append, emitted, emitted, ih, List.append_assoc]
    rfl

/-- **The rest is decoded by itself** once the decoder is back at its start. -/
theorem decode_append {as : List α} (hafter : d.after d.start as = d.start)
    (hfinish : d.finish d.start = []) (bs : List α) :
    d.decode (as ++ bs) = d.decode as ++ d.decode bs := by
  rw [decode, decode, decode, emitted_append, after_append, hafter, hfinish, List.append_nil,
    List.append_assoc]

end Decoder

/-! ## UTF-8 -/

/-- The character that stands for bytes that are none. -/
def replacement : Char := Char.ofNat 0xFFFD

/-- The first bytes of a character: the bits they have, and the ranges of the byte to come and of
those after it. -/
structure PartialChar where
  bits : ℕ
  next : ℕ × ℕ
  later : List (ℕ × ℕ)
  deriving DecidableEq

/-- The range of a byte that goes on with a character. -/
def continuationByte : ℕ × ℕ := (0x80, 0xBF)

/-- The first byte of a character of more than one. The second byte is bounded where the bytes would
be too long for their character, a surrogate, or beyond the last character. -/
def leadByte (b : ℕ) : Option PartialChar :=
  if b < 0xC2 then none
  else if b ≤ 0xDF then some ⟨b - 0xC0, continuationByte, []⟩
  else if b = 0xE0 then some ⟨0, (0xA0, 0xBF), [continuationByte]⟩
  else if b = 0xED then some ⟨0xD, (0x80, 0x9F), [continuationByte]⟩
  else if b ≤ 0xEF then some ⟨b - 0xE0, continuationByte, [continuationByte]⟩
  else if b = 0xF0 then some ⟨0, (0x90, 0xBF), [continuationByte, continuationByte]⟩
  else if b ≤ 0xF3 then some ⟨b - 0xF0, continuationByte, [continuationByte, continuationByte]⟩
  else if b = 0xF4 then some ⟨4, (0x80, 0x8F), [continuationByte, continuationByte]⟩
  else none

/-- A byte that is read outside a character. -/
def readFirst (b : ℕ) : Option PartialChar × List Char :=
  if b < 0x80 then (none, [Char.ofNat b])
  else
    match leadByte b with
    | some p => (some p, [])
    | none => (none, [replacement])

def utf8Step : Option PartialChar → UInt8 → Option PartialChar × List Char
  | none, b => readFirst b.toNat
  | some p, b =>
    if p.next.1 ≤ b.toNat ∧ b.toNat ≤ p.next.2 then
      let bits := p.bits * 64 + (b.toNat - 0x80)
      match p.later with
      | [] => (none, [Char.ofNat bits])
      | next :: later => (some ⟨bits, next, later⟩, [])
    else
      -- what was read is no character, and the byte is read again
      let (state, chars) := readFirst b.toNat
      (state, replacement :: chars)

def utf8 : Decoder (Option PartialChar) UInt8 Char where
  start := none
  step := utf8Step
  finish
    | none => []
    | some _ => [replacement]

def utf8Decode (bytes : List UInt8) : List Char := utf8.decode bytes

example : utf8Decode [0x61, 0xE2, 0x82, 0xAC, 0xE2, 0x82, 0x62] =
    [Char.ofNat 0x61, Char.ofNat 0x20AC, replacement, Char.ofNat 0x62] := by decide

/-- Inside a character the text ends in a replacement character. -/
theorem getLast?_utf8Decode {bytes : List UInt8} (h : utf8.after none bytes ≠ none) :
    (utf8Decode bytes).getLast? = some replacement := by
  obtain ⟨p, hp⟩ := Option.ne_none_iff_exists'.mp h
  change (utf8.emitted none bytes ++ utf8.finish (utf8.after none bytes)).getLast? = _
  rw [hp]
  exact List.getLast?_concat

theorem utf8Decode_append {bytes : List UInt8}
    (h : (utf8Decode bytes).getLast? ≠ some replacement) (more : List UInt8) :
    utf8Decode (bytes ++ more) = utf8Decode bytes ++ utf8Decode more := by
  apply utf8.decode_append _ rfl
  by_contra hafter
  exact h (getLast?_utf8Decode hafter)

end Program
