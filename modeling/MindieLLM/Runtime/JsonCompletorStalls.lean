import MindieLLM.Program.Fuel
import MindieLLM.Runtime.JsonCompletor

/-!
# When the completion of partial JSON returns

The loop of an array makes no progress at a closing brace that stands where an item begins: it is
not an item, and skipping stops at it at once. So it is with the loop of an object and a closing
bracket at the place of a key. These are the only places: where the parser meets no such stray
bracket, it returns.

What the parser does with the text does not depend on the values it reads. `skim` is the parser
without them, for both kinds of loops. `strays` reads the text once from left to right, with the
stack of the objects and arrays that are open, and says whether a stray bracket is met.

## Main definitions

* `Kind`, `skim`: the loops without values
* `strays`: a closing bracket of the other kind stands where an item or a key begins

## Main results

* `completeJsonForToolCalls_returns_iff`: the completion returns if and only if there is no stray
  bracket
-/

namespace MindieLLM.JsonCompletor

open Program Program.PyStr

/-! ## The parts without loops over fields -/

theorem length_skipWhitespace_le (text : List Char) :
    (skipWhitespace text).length ≤ text.length := length_lstrip_le text

theorem length_skipField_le (depth : ℕ) (text : List Char) :
    (skipField depth text).length ≤ text.length := by
  fun_induction skipField depth text with
  | case1 | case3 | case5 => simp
  | _ => simp only [List.length_cons]; omega

theorem length_skipComma_le (text : List Char) : (skipComma text).length ≤ text.length := by
  unfold skipComma
  split <;> simp

/-- A field and its comma are skipped, unless a closing bracket stands in their place. -/
theorem length_skipComma_skipField_lt {c : Char} {rest : List Char} (hbrace : c ≠ '}')
    (hbracket : c ≠ ']') : (skipComma (skipField 0 (c :: rest))).length < rest.length + 1 := by
  by_cases hcomma : c = ','
  · subst hcomma
    simp [skipField, skipComma]
  · have hskip : ∃ depth, skipField 0 (c :: rest) = skipField depth rest := by
      by_cases hopen : c = '{' ∨ c = '['
      · exact ⟨1, by simp [skipField, hopen]⟩
      · exact ⟨0, by simp [skipField, hopen, hbrace, hbracket, hcomma]⟩
    obtain ⟨depth, hskip⟩ := hskip
    have hfield := length_skipField_le depth rest
    have hle := length_skipComma_le (skipField depth rest)
    rw [hskip]
    omega

theorem length_dropWhile_le (p : Char → Bool) (text : List Char) :
    (text.dropWhile p).length ≤ text.length := (List.dropWhile_sublist _).length_le

theorem length_skipOne_le (chars text : List Char) :
    (skipOne chars text).length ≤ text.length := by
  cases text with
  | nil => exact Nat.le_refl _
  | cons c rest =>
    rw [skipOne]
    split <;> simp

theorem length_afterFraction_le (text : List Char) :
    (afterFraction text).length ≤ text.length := by
  unfold afterFraction
  split
  · exact (length_dropWhile_le _ _).trans (by simp)
  · exact Nat.le_refl _

theorem length_afterExponent_le (text : List Char) :
    (afterExponent text).length ≤ text.length := by
  unfold afterExponent
  split
  · exact (length_dropWhile_le _ _).trans ((length_skipOne_le _ _).trans (by simp))
  · exact Nat.le_refl _

theorem length_afterNumber_lt {c : Char} {rest : List Char} (hc : isdigit c = true ∨ c = '-') :
    (afterNumber (c :: rest)).length < rest.length + 1 := by
  have hinteger : (afterInteger (c :: rest)).length ≤ rest.length := by
    rw [afterInteger, skipOne]
    split
    · exact length_dropWhile_le _ _
    · next hsign =>
      rw [List.dropWhile_cons_of_pos (hc.resolve_right (by simpa using hsign))]
      exact length_dropWhile_le _ _
  have hfraction := length_afterFraction_le (afterInteger (c :: rest))
  have hexponent := length_afterExponent_le (afterFraction (afterInteger (c :: rest)))
  unfold afterNumber
  omega

theorem length_parseLiteral_lt {c : Char} {rest : List Char} (h : isLiteral (c :: rest) = true) :
    (parseLiteral (c :: rest) : Value Unit × List Char).2.length < rest.length + 1 := by
  simp only [isLiteral, Bool.or_eq_true] at h
  unfold parseLiteral
  split
  · simp only [List.length_drop, List.length_cons]
    omega
  · next htrue =>
    split
    · simp only [List.length_drop, List.length_cons]
      omega
    · next hfalse =>
      rw [if_pos ((h.resolve_left (not_or.mpr ⟨htrue, hfalse⟩)))]
      simp only [List.length_drop, List.length_cons]
      omega

/-! ## The loops without values -/

/-- The kinds of loops. -/
inductive Kind
  | object
  | array

def Kind.closing : Kind → Char
  | .object => '}'
  | .array => ']'

/-- The closing bracket of the other kind. -/
def Kind.stray : Kind → Char
  | .object => ']'
  | .array => '}'

/-- What stands at the head of a text as a value: something without fields, the text after it; or
something with fields, the text where they begin. -/
inductive ValueStart
  | scalar (rest : List Char)
  | opens (k : Kind) (rest : List Char)
  | invalid

def valueStart : List Char → ValueStart
  | [] => .invalid
  | c :: rest =>
    if c = '"' then .scalar (parseString [] rest).2
    else if c = '{' then .opens .object (skipWhitespace rest)
    else if c = '[' then .opens .array (skipWhitespace rest)
    else if isdigit c ∨ c = '-' then .scalar (afterNumber (c :: rest))
    else if isLiteral (c :: rest) then
      .scalar (parseLiteral (c :: rest) : Value Unit × List Char).2
    else .invalid

/-- What an iteration of a loop does before a value: it leaves the loop, goes on, or comes to a
place for a value, where it goes on at `skipped` if none begins there. -/
inductive Head
  | leave (rest : List Char)
  | again (text : List Char)
  | item (text skipped : List Char)

def head : Kind → List Char → Head
  | _, [] => .leave []
  | .array, c :: rest =>
    if c = ']' then .leave rest
    else .item (c :: rest) (skipComma (skipField 0 (c :: rest)))
  | .object, c :: rest =>
    if c = '}' then .leave rest
    else if c = ',' then .again (skipWhitespace rest)
    else if c = '"' then
      let text := skipWhitespace (parseString [] rest).2
      if text.head? = some ':' then
        let text := skipWhitespace text.tail
        .item text (skipField 0 text)
      else
        .again (skipComma (skipField 0 text))
    else
      .again (skipComma (skipField 0 (c :: rest)))

/-- What an iteration does after a value. -/
def skimAfter (k : Kind) (loop : List Char → Option (List Char)) (text : List Char) :
    Option (List Char) :=
  match skipWhitespace text with
  | [] => some []
  | c :: rest =>
    if c = ',' then loop (skipWhitespace rest)
    else if c = k.closing then some rest
    else some (c :: rest)

/-- Where a loop leaves the text. -/
def skim : ℕ → Kind → List Char → Option (List Char)
  | 0, _, _ => none
  | fuel + 1, k, text =>
    match head k text with
    | .leave rest => some rest
    | .again text => skim fuel k text
    | .item text skipped =>
      match valueStart text with
      | .scalar rest => skimAfter k (fun text => skim fuel k text) rest
      | .opens k' rest => (skim fuel k' rest).bind (skimAfter k fun text => skim fuel k text)
      | .invalid => skim fuel k skipped

section Values

variable {ν : Type} (pyInt pyFloat : List Char → Option ν)

theorem parseNumber_snd (text : List Char) :
    (parseNumber pyInt pyFloat text).2 = afterNumber text := rfl

theorem parseLiteral_snd (text : List Char) :
    (parseLiteral text : Value ν × List Char).2 =
      (parseLiteral text : Value Unit × List Char).2 := by
  unfold parseLiteral
  split
  · rfl
  · split
    · rfl
    · split <;> rfl

theorem parseValue_skim {parseArray : List Char → Option (List (Value ν) × List Char)}
    {parseObject : List Char → Option (Dict ν × List Char)}
    {skims : Kind → List Char → Option (List Char)}
    (harray : ∀ text, (parseArray text).map Prod.snd = skims .array text)
    (hobject : ∀ text, (parseObject text).map Prod.snd = skims .object text)
    (text : List Char) :
    (parseValue pyInt pyFloat parseArray parseObject text).map (Option.map Prod.snd) =
      match valueStart text with
      | .scalar rest => some (some rest)
      | .opens k rest => (skims k rest).map some
      | .invalid => some none := by
  cases text with
  | nil => rfl
  | cons c rest =>
    unfold parseValue valueStart
    by_cases hquote : c = '"'
    · simp [hquote]
    · by_cases hbrace : c = '{'
      · simp [hbrace, ← hobject, Function.comp_def]
      · by_cases hbracket : c = '['
        · simp [hbracket, ← harray, Function.comp_def]
        · by_cases hdigit : isdigit c ∨ c = '-'
          · simp [hquote, hbrace, hbracket, hdigit, parseNumber_snd]
          · by_cases hliteral : isLiteral (c :: rest)
            · simp [hquote, hbrace, hbracket, hdigit, hliteral, parseLiteral_snd]
            · simp [hquote, hbrace, hbracket, hdigit, hliteral]

/-- The part of an iteration from the place for a value on, for either loop. -/
theorem item_skim {α : Type} {val : Option (Option (Value ν × List Char))}
    {skims : Kind → List Char → Option (List Char)} {k : Kind} {text : List Char}
    (hval : val.map (Option.map Prod.snd) =
      match valueStart text with
      | .scalar rest => some (some rest)
      | .opens k rest => (skims k rest).map some
      | .invalid => some none)
    {after : Value ν → List Char → Option (α × List Char)} {skip : Option (α × List Char)}
    {skipped : List Char}
    (hafter : ∀ v rest, (after v rest).map Prod.snd = skimAfter k (skims k) rest)
    (hskip : skip.map Prod.snd = skims k skipped) :
    (match val with
      | none => none
      | some none => skip
      | some (some (v, rest)) => after v rest).map Prod.snd =
      match valueStart text with
      | .scalar rest => skimAfter k (skims k) rest
      | .opens k' rest => (skims k' rest).bind (skimAfter k (skims k))
      | .invalid => skims k skipped := by
  cases hstart : valueStart text with
  | scalar rest =>
    simp only [hstart] at hval ⊢
    obtain _ | _ | ⟨v, rest'⟩ := val
    · cases hval
    · cases hval
    · obtain rfl : rest' = rest := by simpa using hval
      exact hafter v rest'
  | opens k' rest =>
    simp only [hstart] at hval ⊢
    cases hrest : skims k' rest with
    | none =>
      obtain rfl : val = none := by simpa [hrest] using hval
      rfl
    | some rest' =>
      rw [hrest] at hval
      obtain _ | _ | ⟨v, rest''⟩ := val
      · cases hval
      · cases hval
      · obtain rfl : rest'' = rest' := by simpa using hval
        exact hafter v rest''
  | invalid =>
    simp only [hstart] at hval ⊢
    obtain _ | _ | ⟨v, rest'⟩ := val
    · cases hval
    · exact hskip
    · simp at hval

/-- The parser leaves the text where the loops without values do. -/
theorem skim_eq (fuel : ℕ) :
    (∀ arr text, (parseArrayLoop pyInt pyFloat fuel arr text).map Prod.snd =
      skim fuel .array text) ∧
    ∀ obj text, (parseObjectLoop pyInt pyFloat fuel obj text).map Prod.snd =
      skim fuel .object text := by
  induction fuel with
  | zero => exact ⟨fun _ _ => rfl, fun _ _ => rfl⟩
  | succ fuel ih =>
    obtain ⟨harray, hobject⟩ := ih
    have hvalue := parseValue_skim pyInt pyFloat (harray []) (hobject [])
    refine ⟨fun arr text => ?_, fun obj text => ?_⟩
    · cases text with
      | nil => rfl
      | cons c rest =>
        unfold parseArrayLoop skim head
        by_cases hclose : c = ']'
        · simp [hclose]
        · simp only [hclose, if_false]
          refine item_skim (hvalue (c :: rest)) (fun v rest => ?_) (harray arr _)
          unfold skimAfter
          cases skipWhitespace rest with
          | nil => rfl
          | cons c rest =>
            by_cases hcomma : c = ','
            · simp [hcomma, harray]
            · by_cases hclose : c = ']' <;> simp [hcomma, hclose, Kind.closing]
    · cases text with
      | nil => rfl
      | cons c rest =>
        unfold parseObjectLoop skim head
        by_cases hclose : c = '}'
        · simp [hclose]
        · by_cases hcomma : c = ','
          · simp [hcomma, hobject]
          · by_cases hquote : c = '"'
            · subst hquote
              simp only [hclose, hcomma, if_false, if_true]
              by_cases hcolon : (skipWhitespace (parseString [] rest).2).head? = some ':'
              · simp only [hcolon, if_true]
                refine item_skim (hvalue _) (fun v rest => ?_) (hobject obj _)
                unfold skimAfter
                cases skipWhitespace rest with
                | nil => rfl
                | cons c rest =>
                  by_cases hcomma : c = ','
                  · simp [hcomma, hobject]
                  · by_cases hclose : c = '}' <;> simp [hcomma, hclose, Kind.closing]
              · simp only [hcolon, if_false, hobject]
            · simp [hclose, hcomma, hquote, hobject]

end Values

/-! ## The progress of a loop -/

theorem head_leave {k : Kind} {text rest : List Char} (h : head k text = .leave rest) :
    rest.length ≤ text.length := by
  cases text with
  | nil =>
    obtain rfl : [] = rest := Head.leave.inj h
    exact Nat.le_refl _
  | cons c rest' =>
    cases k with
    | array =>
      rw [head] at h
      split at h
      · obtain rfl := Head.leave.inj h
        simp
      · cases h
    | object =>
      rw [head] at h
      split at h
      · obtain rfl := Head.leave.inj h
        simp
      · split at h
        · cases h
        · split at h
          · dsimp only at h
            split at h <;> cases h
          · cases h

/-- After a key, before its colon or what stands in its place. -/
theorem length_key_le (rest : List Char) :
    (skipWhitespace (parseString [] rest).2).length ≤ rest.length :=
  (length_skipWhitespace_le _).trans (length_parseString_le _ _)

theorem length_skipComma_skipField_le (text : List Char) :
    (skipComma (skipField 0 text)).length ≤ text.length :=
  (length_skipComma_le _).trans (length_skipField_le _ _)

theorem head_again {k : Kind} {text text' : List Char} (hstray : text.head? ≠ some k.stray)
    (h : head k text = .again text') : text'.length < text.length := by
  cases text with
  | nil => cases h
  | cons c rest =>
    have hstray : c ≠ k.stray := by simpa using hstray
    rw [List.length_cons, Nat.lt_succ_iff]
    cases k with
    | array =>
      rw [head] at h
      split at h <;> cases h
    | object =>
      rw [head] at h
      split at h
      · cases h
      · next hclose =>
        split at h
        · obtain rfl := Head.again.inj h
          exact length_skipWhitespace_le rest
        · split at h
          · dsimp only at h
            split at h
            · cases h
            · obtain rfl := Head.again.inj h
              exact (length_skipComma_skipField_le _).trans (length_key_le rest)
          · obtain rfl := Head.again.inj h
            exact Nat.lt_succ_iff.mp (length_skipComma_skipField_lt hclose hstray)

theorem head_item {k : Kind} {text text' skipped : List Char}
    (hstray : text.head? ≠ some k.stray) (h : head k text = .item text' skipped) :
    text'.length ≤ text.length ∧ skipped.length < text.length := by
  cases text with
  | nil => cases h
  | cons c rest =>
    have hstray : c ≠ k.stray := by simpa using hstray
    cases k with
    | array =>
      rw [head] at h
      split at h
      · cases h
      · next hclose =>
        obtain ⟨rfl, rfl⟩ := Head.item.inj h
        exact ⟨Nat.le_refl _, length_skipComma_skipField_lt hstray hclose⟩
    | object =>
      rw [head] at h
      split at h
      · cases h
      · split at h
        · cases h
        · split at h
          · dsimp only at h
            split at h
            · obtain ⟨rfl, rfl⟩ := Head.item.inj h
              have hkey := length_key_le rest
              have htail := length_skipWhitespace_le
                (skipWhitespace (parseString [] rest).2).tail
              have hskip := length_skipField_le 0
                (skipWhitespace (skipWhitespace (parseString [] rest).2).tail)
              simp only [List.length_tail] at htail
              simp only [List.length_cons]
              omega
            · cases h
          · cases h

theorem valueStart_scalar {text rest : List Char} (h : valueStart text = .scalar rest) :
    rest.length < text.length := by
  cases text with
  | nil => cases h
  | cons c rest' =>
    rw [valueStart] at h
    split at h
    · obtain rfl := ValueStart.scalar.inj h
      exact Nat.lt_succ_of_le (length_parseString_le _ _)
    · split at h
      · cases h
      · split at h
        · cases h
        · split at h
          · next hdigit =>
            obtain rfl := ValueStart.scalar.inj h
            exact length_afterNumber_lt hdigit
          · split at h
            · next hliteral =>
              obtain rfl := ValueStart.scalar.inj h
              exact length_parseLiteral_lt hliteral
            · cases h

theorem valueStart_opens {text rest : List Char} {k : Kind}
    (h : valueStart text = .opens k rest) : rest.length < text.length := by
  cases text with
  | nil => cases h
  | cons c rest' =>
    have hle := length_skipWhitespace_le rest'
    rw [valueStart] at h
    split at h
    · cases h
    · split at h
      · obtain ⟨-, rfl⟩ := ValueStart.opens.inj h
        exact Nat.lt_succ_of_le hle
      · split at h
        · obtain ⟨-, rfl⟩ := ValueStart.opens.inj h
          exact Nat.lt_succ_of_le hle
        · split at h
          · cases h
          · split at h <;> cases h

/-! ## Stray brackets -/

mutual

/-- The innermost of the open objects and arrays is at an iteration: a closing bracket of the other
kind stands there, or is met later at such a place. -/
def strays : List Kind → List Char → Bool
  | [], _ => false
  | k :: stack, text =>
    if _hstray : text.head? = some k.stray then
      true
    else
      match _hhead : head k text with
      | .leave rest => straysAfter stack rest
      | .again text' => strays (k :: stack) text'
      | .item text' skipped =>
        match _hvalue : valueStart text' with
        | .scalar rest => straysAfter (k :: stack) rest
        | .opens k' rest => strays (k' :: k :: stack) rest
        | .invalid => strays (k :: stack) skipped
termination_by stack text => (text.length, stack.length)
decreasing_by
  · have hle := head_leave _hhead
    simp only [Prod.lex_def, List.length_cons]
    omega
  · exact Prod.Lex.left _ _ (head_again _hstray _hhead)
  · have hlt := (valueStart_scalar _hvalue).trans_le (head_item _hstray _hhead).1
    exact Prod.Lex.left _ _ hlt
  · have hlt := (valueStart_opens _hvalue).trans_le (head_item _hstray _hhead).1
    exact Prod.Lex.left _ _ hlt
  · exact Prod.Lex.left _ _ (head_item _hstray _hhead).2

/-- The same where a value has ended. -/
def straysAfter : List Kind → List Char → Bool
  | [], _ => false
  | k :: stack, text =>
    match _htext : skipWhitespace text with
    | [] => false
    | c :: rest =>
      if c = ',' then strays (k :: stack) (skipWhitespace rest)
      else if c = k.closing then straysAfter stack rest
      else straysAfter stack (c :: rest)
termination_by stack text => (text.length, stack.length)
decreasing_by
  all_goals have hle := length_skipWhitespace_le text
  all_goals rw [_htext, List.length_cons] at hle
  · have hlt := length_skipWhitespace_le rest
    exact Prod.Lex.left _ _ (by omega)
  · exact Prod.Lex.left _ _ (by omega)
  · simp only [Prod.lex_def, List.length_cons]
    omega

end

/-- The end of the text closes all. -/
theorem straysAfter_nil (stack : List Kind) : straysAfter stack [] = false := by
  cases stack with
  | nil => rw [straysAfter]
  | cons k stack =>
    rw [straysAfter]
    split
    · rfl
    · next htext => cases htext

section Steps

variable {k k' : Kind} {stack : List Kind} {text text' rest skipped : List Char}

theorem strays_of_stray (h : text.head? = some k.stray) : strays (k :: stack) text = true := by
  rw [strays, dif_pos h]

theorem strays_of_leave (hstray : text.head? ≠ some k.stray) (h : head k text = .leave rest) :
    strays (k :: stack) text = straysAfter stack rest := by
  rw [strays, dif_neg hstray]
  split <;> simp_all

theorem strays_of_again (hstray : text.head? ≠ some k.stray) (h : head k text = .again text') :
    strays (k :: stack) text = strays (k :: stack) text' := by
  rw [strays, dif_neg hstray]
  split <;> simp_all

theorem strays_of_scalar (hstray : text.head? ≠ some k.stray)
    (h : head k text = .item text' skipped) (hvalue : valueStart text' = .scalar rest) :
    strays (k :: stack) text = straysAfter (k :: stack) rest := by
  rw [strays, dif_neg hstray]
  split
  · simp_all
  · simp_all
  · split <;> simp_all

theorem strays_of_opens (hstray : text.head? ≠ some k.stray)
    (h : head k text = .item text' skipped) (hvalue : valueStart text' = .opens k' rest) :
    strays (k :: stack) text = strays (k' :: k :: stack) rest := by
  rw [strays, dif_neg hstray]
  split
  · simp_all
  · simp_all
  · split <;> simp_all

theorem strays_of_invalid (hstray : text.head? ≠ some k.stray)
    (h : head k text = .item text' skipped) (hvalue : valueStart text' = .invalid) :
    strays (k :: stack) text = strays (k :: stack) skipped := by
  rw [strays, dif_neg hstray]
  split
  · simp_all
  · simp_all
  · split <;> simp_all

end Steps

/-- A loop that comes to a stray bracket stays there. -/
theorem skim_of_stray {k : Kind} {text : List Char} (h : text.head? = some k.stray) (fuel : ℕ) :
    skim fuel k text = none := by
  obtain ⟨rest, rfl⟩ : ∃ rest, text = k.stray :: rest := by
    cases text with
    | nil => cases h
    | cons c rest => exact ⟨rest, by rw [Option.some.inj h]⟩
  induction fuel with
  | zero => rfl
  | succ fuel ih =>
    cases k with
    | array => exact ih
    | object => exact ih

/-- A loop yields the text after it, and `strays` goes on there; or it yields nothing, and there is
a stray bracket. -/
def Settled (loop : ℕ → Option (List Char)) (stray : List Kind → Bool) (length : ℕ) : Prop :=
  ∃ r, Yields loop r ∧ (∀ rest, r = some rest → rest.length ≤ length) ∧
    ∀ stack, stray stack = r.elim true (straysAfter stack)

namespace Settled

variable {loop loop' : ℕ → Option (List Char)} {stray stray' : List Kind → Bool}
  {length length' : ℕ}

theorem leave {rest : List Char} (hlength : rest.length ≤ length)
    (h : ∀ stack, stray stack = straysAfter stack rest) :
    Settled (fun _ => some rest) stray length :=
  ⟨some rest, .pure rest, fun _ hrest => Option.some.inj hrest ▸ hlength, h⟩

theorem mono (h : Settled loop stray length) (hstray : ∀ stack, stray' stack = stray stack)
    (hlength : length ≤ length') : Settled loop stray' length' := by
  obtain ⟨r, hyields, hr, hs⟩ := h
  exact ⟨r, hyields, fun rest hrest => (hr rest hrest).trans hlength,
    fun stack => (hstray stack).trans (hs stack)⟩

theorem succ (h : Settled loop' stray length) (h₀ : loop 0 = none)
    (hstep : ∀ fuel, loop (fuel + 1) = loop' fuel) : Settled loop stray length := by
  obtain ⟨r, hyields, hr, hs⟩ := h
  exact ⟨r, hyields.succ h₀ hstep, hr, hs⟩

/-- A value with fields, and what comes after it. -/
theorem bind {after : ℕ → List Char → Option (List Char)} {k : Kind}
    (h : Settled loop stray length)
    (hafter : ∀ rest, rest.length ≤ length →
      Settled (fun fuel => after fuel rest) (fun stack => straysAfter (k :: stack) rest) length) :
    Settled (fun fuel => (loop fuel).bind (after fuel)) (fun stack => stray (k :: stack))
      length := by
  obtain ⟨r, hyields, hr, hs⟩ := h
  cases r with
  | none =>
    have hnone : Yields (fun fuel => (loop fuel).bind (after fuel)) (none.bind fun _ => none) :=
      hyields.bind nofun
    exact ⟨none, hnone, nofun, fun stack => hs (k :: stack)⟩
  | some rest =>
    obtain ⟨r', hyields', hr', hs'⟩ := hafter rest (hr rest rfl)
    have hsome : Yields (fun fuel => (loop fuel).bind (after fuel))
        ((some rest).bind fun _ => r') := by
      refine hyields.bind fun v hv => ?_
      obtain rfl := Option.some.inj hv
      exact hyields'
    exact ⟨r', hsome, hr', fun stack => (hs (k :: stack)).trans (hs' stack)⟩

end Settled

theorem settled_after {k : Kind} {rest : List Char}
    (ih : ∀ text, text.length < rest.length →
      Settled (fun fuel => skim fuel k text) (fun stack => strays (k :: stack) text) text.length) :
    Settled (fun fuel => skimAfter k (fun text => skim fuel k text) rest)
      (fun stack => straysAfter (k :: stack) rest) rest.length := by
  have hle := length_skipWhitespace_le rest
  unfold skimAfter
  cases htext : skipWhitespace rest with
  | nil =>
    refine .leave (Nat.zero_le _) fun stack => ?_
    rw [straysAfter_nil, straysAfter]
    split <;> simp_all
  | cons c rest' =>
    rw [htext, List.length_cons] at hle
    have hunfold : ∀ stack, straysAfter (k :: stack) rest =
        if c = ',' then strays (k :: stack) (skipWhitespace rest')
        else if c = k.closing then straysAfter stack rest'
        else straysAfter stack (c :: rest') := by
      intro stack
      rw [straysAfter]
      split <;> simp_all
    by_cases hcomma : c = ','
    · have hle' := length_skipWhitespace_le rest'
      simp only [if_pos hcomma]
      refine (ih _ (by omega)).mono (fun stack => ?_) (by omega)
      rw [hunfold, if_pos hcomma]
    · by_cases hclose : c = k.closing
      · simp only [if_neg hcomma, if_pos hclose]
        refine .leave (by omega) fun stack => ?_
        rw [hunfold, if_neg hcomma, if_pos hclose]
      · simp only [if_neg hcomma, if_neg hclose]
        refine .leave hle fun stack => ?_
        rw [hunfold, if_neg hcomma, if_neg hclose]

/-- **Where a loop leaves the text.** -/
theorem settled_skim (k : Kind) (text : List Char) :
    Settled (fun fuel => skim fuel k text) (fun stack => strays (k :: stack) text)
      text.length := by
  induction hn : text.length using Nat.strong_induction_on generalizing k text with
  | _ n ih =>
    subst hn
    by_cases hstray : text.head? = some k.stray
    · exact ⟨none, .of_eq_none (skim_of_stray hstray), nofun, fun _ => strays_of_stray hstray⟩
    · cases hhead : head k text with
      | leave rest =>
        refine (Settled.leave (head_leave hhead) fun stack => ?_).succ rfl fun fuel => ?_
        · exact strays_of_leave hstray hhead
        · rw [skim, hhead]
      | again text' =>
        have hlt := head_again hstray hhead
        refine ((ih _ hlt k text' rfl).mono (fun stack => ?_) hlt.le).succ rfl fun fuel => ?_
        · exact strays_of_again hstray hhead
        · rw [skim, hhead]
      | item text' skipped =>
        obtain ⟨hle, hskipped⟩ := head_item hstray hhead
        cases hvalue : valueStart text' with
        | scalar rest =>
          have hlt := (valueStart_scalar hvalue).trans_le hle
          have hafter : Settled _ _ rest.length :=
            settled_after fun text ht => ih _ (ht.trans hlt) k text rfl
          refine (hafter.mono (fun stack => ?_) hlt.le).succ rfl fun fuel => ?_
          · exact strays_of_scalar hstray hhead hvalue
          · rw [skim, hhead]
            simp only [hvalue]
        | opens k' rest =>
          have hlt := (valueStart_opens hvalue).trans_le hle
          have hbind := (ih _ hlt k' rest rfl).bind fun rest' hrest' =>
            (settled_after fun text ht => ih _ (by omega) k text rfl).mono (fun _ => rfl) hrest'
          refine (hbind.mono (fun stack => ?_) hlt.le).succ rfl fun fuel => ?_
          · exact strays_of_opens hstray hhead hvalue
          · rw [skim, hhead]
            simp only [hvalue]
        | invalid =>
          refine ((ih _ hskipped k skipped rfl).mono (fun stack => ?_) hskipped.le).succ rfl
            fun fuel => ?_
          · exact strays_of_invalid hstray hhead hvalue
          · rw [skim, hhead]
            simp only [hvalue]

/-! ## The completion returns -/

/-- Somewhere a closing bracket of the other kind stands where an item of an array or a key of an
object begins. -/
def hasStrayBracket (text : List Char) : Bool := strays [.object] (skipWhitespace text.tail)

section Completion

variable {ν : Type} (pyInt pyFloat : List Char → Option ν) (loads : List Char → Option (Dict ν))

theorem returns_iff_skim (rest : List Char) :
    (∃ fuel obj, completeJsonForToolCalls pyInt pyFloat loads fuel ('{' :: rest) .full =
      some (.ok obj)) ↔
      ∃ fuel v, skim fuel .object (skipWhitespace (rstrip rest)) = some v := by
  have hstrip : strip ('{' :: rest) = '{' :: rstrip rest := strip_cons (by decide) rest
  refine exists_congr fun fuel => ?_
  unfold completeJsonForToolCalls
  rw [hstrip, ← (skim_eq pyInt pyFloat fuel).2 []]
  simp only [if_true, Option.map_eq_some_iff, Except.ok.injEq, Prod.exists]
  constructor
  · rintro ⟨obj, obj', rest', h, -⟩
    exact ⟨rest', obj', rest', h, rfl⟩
  · rintro ⟨v, obj, rest', h, -⟩
    exact ⟨obj, obj, rest', h, rfl⟩

/-- **The completion returns** on a text that begins with an opening brace if and only if the text
has no stray bracket. -/
theorem completeJsonForToolCalls_returns_iff (rest : List Char) :
    (∃ fuel obj, completeJsonForToolCalls pyInt pyFloat loads fuel ('{' :: rest) .full =
      some (.ok obj)) ↔
      hasStrayBracket (strip ('{' :: rest)) = false := by
  have hstrip : strip ('{' :: rest) = '{' :: rstrip rest := strip_cons (by decide) rest
  obtain ⟨r, hyields, -, hs⟩ := settled_skim .object (skipWhitespace (rstrip rest))
  rw [returns_iff_skim, hyields.returns_iff, hstrip, hasStrayBracket, List.tail_cons]
  have hs := hs []
  dsimp only at hs
  rw [hs]
  cases r with
  | none => simp
  | some rest' =>
    rw [Option.elim_some, straysAfter]
    simp

end Completion

/-- The value of the key is an array that a brace closes. -/
theorem completeJsonForToolCalls_stalls :
    ¬∃ fuel obj, completeJsonForToolCalls (fun _ => none) (fun _ => none)
      (fun _ => none : List Char → Option (Dict ℤ)) fuel "\x7b\"a\": [\x7d".toList .full =
        some (.ok obj) := by
  have hlist : "\x7b\"a\": [\x7d".toList = '{' :: ['"', 'a', '"', ':', ' ', '[', '}'] := rfl
  rw [hlist, returns_iff_skim]
  rintro ⟨fuel, v, hv⟩
  cases fuel with
  | zero => cases hv
  | succ fuel =>
    have harray : skim fuel .array ['}'] = none := skim_of_stray rfl fuel
    have hskim : skim (fuel + 1) .object ['"', 'a', '"', ':', ' ', '[', '}'] =
        (skim fuel .array ['}']).bind (skimAfter .object fun text => skim fuel .object text) := rfl
    have hstrip : skipWhitespace (rstrip ['"', 'a', '"', ':', ' ', '[', '}']) =
        ['"', 'a', '"', ':', ' ', '[', '}'] := by decide
    rw [hstrip, hskim, harray] at hv
    cases hv

end MindieLLM.JsonCompletor
