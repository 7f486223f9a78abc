import MindieLLM.Program.PyStr

/-!
# Completion of partial JSON

While the model writes a tool call, the JSON text of the call is incomplete;
`complete_json_for_tool_calls` reads from it what it can. In mode `Full` a recursive descent parser
does this: what it cannot read it skips, balancing brackets, up to a comma or a closing bracket.

An index in the text is the part of the text from there on. The parser has loops that may not make
progress, so it runs with fuel; a result without a value means that the fuel is used up. How Python
reads a number, and a whole JSON text, is a parameter.

## Main definitions

* `parseString`, `parseNumber`, `parseLiteral`, `skipField`: the parts without loops over fields
* `parseArrayLoop`, `parseObjectLoop`: the loops over the fields of an array and an object
* `completeJsonForToolCalls`: the completion in both modes
-/

namespace MindieLLM.JsonCompletor

open Program.PyStr

/-- A value that the parser reads; the text of strings and keys is in code points. -/
inductive Value (ν : Type)
  | none
  | bool (value : Bool)
  | num (value : ν)
  | str (value : List ℕ)
  | arr (values : List (Value ν))
  | obj (fields : List (List ℕ × Value ν))

/-- A dictionary, in the order of insertion. -/
abbrev Dict (ν : Type) : Type := List (List ℕ × Value ν)

def Dict.set {ν : Type} (obj : Dict ν) (key : List ℕ) (val : Value ν) : Dict ν :=
  if obj.any fun field => field.1 = key then
    obj.map fun field => if field.1 = key then (key, val) else field
  else
    obj ++ [(key, val)]

/-! ## Scalars -/

def skipWhitespace (text : List Char) : List Char := lstrip text

/-- The standard escape sequences, by the character after the backslash. -/
def escMap : Char → Option Char
  | '"' => some '"'
  | '\\' => some '\\'
  | '/' => some '/'
  | 'b' => some '\x08'
  | 'f' => some '\x0c'
  | 'n' => some '\n'
  | 'r' => some '\r'
  | 't' => some '\t'
  | _ => none

def hexDigit (c : Char) : Option ℕ :=
  if '0' ≤ c ∧ c ≤ '9' then some (c.toNat - '0'.toNat)
  else if 'a' ≤ c ∧ c ≤ 'f' then some (c.toNat - 'a'.toNat + 10)
  else if 'A' ≤ c ∧ c ≤ 'F' then some (c.toNat - 'A'.toNat + 10)
  else none

/-- `int(hexcode, 16)` for four hexadecimal digits. -/
def hexCode (h₁ h₂ h₃ h₄ : Char) : Option ℕ := do
  let d₁ ← hexDigit h₁
  let d₂ ← hexDigit h₂
  let d₃ ← hexDigit h₃
  let d₄ ← hexDigit h₄
  pure (((d₁ * 16 + d₂) * 16 + d₃) * 16 + d₄)

/-- The loop of `_parse_string`, after the opening quote. -/
def parseString (result : List ℕ) : List Char → List ℕ × List Char
  | [] => (result, [])
  | c :: rest =>
    if c = '\\' then
      match rest with
      -- a backslash at the end of the input
      | [] => (result, [])
      | next :: rest =>
        match escMap next with
        | some esc => parseString (result ++ [esc.toNat]) rest
        | none =>
          if next = 'u' then
            match rest with
            | h₁ :: h₂ :: h₃ :: h₄ :: rest =>
              parseString (result ++ (hexCode h₁ h₂ h₃ h₄).toList) rest
            | rest => parseString (result ++ [next.toNat]) rest
          else
            parseString (result ++ [next.toNat]) rest
    else if c = '"' then
      (result, rest)
    else
      parseString (result ++ [c.toNat]) rest

theorem length_parseString_le (result : List ℕ) (text : List Char) :
    (parseString result text).2.length ≤ text.length := by
  fun_induction parseString result text with
  | case1 | case2 => simp
  | _ => simp_all; try omega

/-- Past one character, if it is one of those given. -/
def skipOne (chars : List Char) : List Char → List Char
  | [] => []
  | c :: rest => if c ∈ chars then rest else c :: rest

/-- Past the optional negative sign and the integer part of a number. -/
def afterInteger (text : List Char) : List Char := (skipOne ['-'] text).dropWhile isdigit

def afterFraction (text : List Char) : List Char :=
  if text.head? = some '.' then text.tail.dropWhile isdigit else text

def afterExponent (text : List Char) : List Char :=
  if text.head? = some 'e' ∨ text.head? = some 'E' then
    (skipOne ['+', '-'] text.tail).dropWhile isdigit
  else
    text

/-- The text after the number that it begins with. -/
def afterNumber (text : List Char) : List Char :=
  afterExponent (afterFraction (afterInteger text))

section Parser

variable {ν : Type} (pyInt pyFloat : List Char → Option ν)

/-- `_parse_number`; `pyInt` and `pyFloat` have no value where `int` and `float` raise. -/
def parseNumber (text : List Char) : Value ν × List Char :=
  let rest := afterNumber text
  let numStr := text.take (text.length - rest.length)
  let val :=
    if numStr = [] ∨ numStr = ['-'] then none
    else if '.' ∈ numStr ∨ 'e' ∈ numStr ∨ 'E' ∈ numStr then pyFloat numStr
    else pyInt numStr
  (val.elim .none .num, rest)

def isLiteral (text : List Char) : Bool :=
  "true".toList.isPrefixOf text || "false".toList.isPrefixOf text ||
    "null".toList.isPrefixOf text

def parseLiteral (text : List Char) : Value ν × List Char :=
  if "true".toList.isPrefixOf text then (.bool true, text.drop 4)
  else if "false".toList.isPrefixOf text then (.bool false, text.drop 5)
  else if "null".toList.isPrefixOf text then (.none, text.drop 4)
  else (.none, text)

/-- `_skip_field`, at a depth of brackets: up to a comma or an unmatched closing bracket. -/
def skipField : ℕ → List Char → List Char
  | _, [] => []
  | depth, c :: rest =>
    if c = '{' ∨ c = '[' then
      skipField (depth + 1) rest
    else if c = '}' ∨ c = ']' then
      if depth = 0 then c :: rest else skipField (depth - 1) rest
    else if c = ',' ∧ depth = 0 then
      c :: rest
    else
      skipField depth rest

def skipComma (text : List Char) : List Char :=
  if text.head? = some ',' then text.tail else text

/-! ## Arrays and objects -/

/-- The value at the head of the text, as an item of an array or after the colon of a field: without
a value where the fuel is used up, and with no value in it where none begins there. -/
def parseValue (parseArray : List Char → Option (List (Value ν) × List Char))
    (parseObject : List Char → Option (Dict ν × List Char)) (text : List Char) :
    Option (Option (Value ν × List Char)) :=
  match text with
  | [] => some none
  | c :: rest =>
    if c = '"' then
      let (val, rest) := parseString [] rest
      some (some (.str val, rest))
    else if c = '{' then
      (parseObject (skipWhitespace rest)).map fun (obj, rest) => some (.obj obj, rest)
    else if c = '[' then
      (parseArray (skipWhitespace rest)).map fun (arr, rest) => some (.arr arr, rest)
    else if isdigit c ∨ c = '-' then
      some (some (parseNumber pyInt pyFloat text))
    else if isLiteral text then
      some (some (parseLiteral text))
    else
      some none

mutual

/-- The loop of `_parse_array`. -/
def parseArrayLoop : ℕ → List (Value ν) → List Char → Option (List (Value ν) × List Char)
  | 0, _, _ => none
  | _ + 1, arr, [] => some (arr, [])
  | fuel + 1, arr, c :: rest =>
    if c = ']' then
      some (arr, rest)
    else
      match parseValue pyInt pyFloat (fun text => parseArrayLoop fuel [] text)
          (fun text => parseObjectLoop fuel [] text) (c :: rest) with
      | none => none
      -- skip invalid field
      | some none => parseArrayLoop fuel arr (skipComma (skipField 0 (c :: rest)))
      | some (some (val, rest)) =>
        match skipWhitespace rest with
        | [] => some (arr ++ [val], [])
        | c :: rest =>
          if c = ',' then parseArrayLoop fuel (arr ++ [val]) (skipWhitespace rest)
          else if c = ']' then some (arr ++ [val], rest)
          else some (arr ++ [val], c :: rest)

/-- The loop of `_parse_object`. -/
def parseObjectLoop : ℕ → Dict ν → List Char → Option (Dict ν × List Char)
  | 0, _, _ => none
  | _ + 1, obj, [] => some (obj, [])
  | fuel + 1, obj, c :: rest =>
    if c = '}' then
      some (obj, rest)
    else if c = ',' then
      parseObjectLoop fuel obj (skipWhitespace rest)
    else if c = '"' then
      let (key, rest) := parseString [] rest
      let text := skipWhitespace rest
      if text.head? = some ':' then
        let text := skipWhitespace text.tail
        match parseValue pyInt pyFloat (fun text => parseArrayLoop fuel [] text)
            (fun text => parseObjectLoop fuel [] text) text with
        | none => none
        -- the comma stays for the next iteration here; at the end of the text there is none
        | some none => parseObjectLoop fuel obj (skipField 0 text)
        | some (some (val, rest)) =>
          match skipWhitespace rest with
          | [] => some (obj.set key val, [])
          | c :: rest =>
            if c = ',' then parseObjectLoop fuel (obj.set key val) (skipWhitespace rest)
            else if c = '}' then some (obj.set key val, rest)
            else some (obj.set key val, c :: rest)
      else
        parseObjectLoop fuel obj (skipComma (skipField 0 text))
    else
      parseObjectLoop fuel obj (skipComma (skipField 0 (c :: rest)))

end

/-! ## The completion -/

inductive FillMode
  | braceOnly
  | full

inductive Error
  /-- `text[0]` of an empty text -/
  | indexError
  | valueError (message : String)

/-- `while text.endswith(","): text = text[:-1].rstrip()` -/
def rstripCommas (text : List Char) : List Char :=
  if _h : text.getLast? = some ',' then rstripCommas (rstrip text.dropLast) else text
termination_by text.length
decreasing_by
  have hne : text ≠ [] := by
    rintro rfl
    simp at _h
  have hle := length_rstrip_le text.dropLast
  have hpos := List.length_pos_of_ne_nil hne
  rw [List.length_dropLast] at hle
  omega

/-- The `BraceOnly` mode: closing braces that are missing at the end. -/
def completeBraces (loads : List Char → Option (Dict ν)) (text : List Char) : Dict ν :=
  let text := rstripCommas (text.rdropWhile fun c => c ∈ ['\n', '\r', '\t', ' '])
  if text = "\x7b".toList ∨ text = "\x7b\"".toList then []
  else if text.getLast? = some ':' then []
  else
    match loads text with
    | some obj => obj
    | none =>
      let openCount := text.count '{'
      let closeCount := text.count '}'
      if openCount > closeCount then
        (loads (text ++ List.replicate (openCount - closeCount) '}')).getD []
      else
        []

/-- `complete_json_for_tool_calls`; `loads` has no value where `json.loads` raises. -/
def completeJsonForToolCalls (loads : List Char → Option (Dict ν)) (fuel : ℕ)
    (jsonStr : List Char) (mode : FillMode) : Option (Except Error (Dict ν)) :=
  match strip jsonStr with
  | [] => some (.error .indexError)
  | c :: rest =>
    if c = '{' then
      match mode with
      | .braceOnly => some (.ok (completeBraces loads (c :: rest)))
      | .full =>
        (parseObjectLoop pyInt pyFloat fuel [] (skipWhitespace rest)).map fun r => .ok r.1
    else
      some (.error (.valueError "Invalid input to complete, not start with a `\x7b`."))

end Parser

end MindieLLM.JsonCompletor
