import Mathlib.Data.Finset.Sort
import Mathlib.Data.List.TakeWhile
import MindieLLM.Program.Fuel

/-!
# Sets of numbers as text

A set of device numbers is passed on as a text: the numbers in decimal, from the smallest, with
commas between them. The way back looks for the next comma and converts what is before it. Where
the conversion throws, the loop goes on from the same place: it finds the same comma again, and
does not end.

Texts are lists of characters, and a conversion that throws has no value.

## Main definitions

* `stoul`: the conversion of a text
* `serializeSet`, `deserializeSet`: to text and back, the way back with fuel
* `numbersOf`: the numbers of the elements that can be converted

## Main results

* `deserializeSet_yields`: what comes back, or nothing with any fuel
* `deserializeSet_iff`: which texts come back, and all sets do
-/

namespace MindieLLM.CommonUtil

open Program

/-! ## The conversion -/

def isSpace (c : Char) : Bool := c ∈ [' ', '\t', '\n', '\x0b', '\x0c', '\r']

def splitSign : List Char → Bool × List Char
  | '-' :: rest => (true, rest)
  | '+' :: rest => (false, rest)
  | text => (false, text)

/-- `std::stoul`: spaces, a sign and digits; what is behind the digits does not count. A negative
number is the unsigned one. -/
def stoul (text : List Char) : Option ℕ :=
  let (negative, rest) := splitSign (text.dropWhile isSpace)
  let digits := rest.takeWhile Char.isDigit
  let value := Nat.ofDigitChars 10 digits 0
  if digits = [] then none
  else if 2 ^ 64 ≤ value then none
  else some (if negative then (2 ^ 64 - value) % 2 ^ 64 else value)

/-! ## To text -/

/-- One round of the loop; the state is whether it is the first one, and the text so far. -/
def serializeStep (s : Bool × List Char) (elem : ℕ) : Bool × List Char :=
  (false, (if s.1 then s.2 else s.2 ++ [',']) ++ Nat.toDigits 10 elem)

def serializeSet (inputSet : Finset ℕ) : List Char :=
  (inputSet.sort.foldl serializeStep (true, [])).2

/-! ## And back -/

def find (data : List Char) (c : Char) (start : ℕ) : Option ℕ :=
  ((data.drop start).findIdx? (· == c)).map (start + ·)

def substr (data : List Char) (start count : ℕ) : List Char := (data.drop start).take count

structure ScanState where
  start : ℕ := 0
  resultSet : Finset ℕ := ∅

/-- The element that ends before `stop`. The start moves on only if it is converted. -/
def scanElement (data : List Char) (s : ScanState) (stop : ℕ) : ScanState :=
  match stoul (substr data s.start (stop - s.start)) with
  | some elem => ⟨stop + 1, insert elem s.resultSet⟩
  | none => s

/-- The loop over the commas. -/
def scan (data : List Char) : ℕ → ScanState → Option ScanState
  | 0, _ => none
  | fuel + 1, s =>
    match find data ',' s.start with
    | none => some s
    | some stop => scan data fuel (scanElement data s stop)

/-- What is behind the last comma. -/
def lastElement (data : List Char) (s : ScanState) : Finset ℕ :=
  if s.start < data.length then
    match stoul (data.drop s.start) with
    | some elem => insert elem s.resultSet
    | none => s.resultSet
  else s.resultSet

def deserializeSet (data : List Char) (fuel : ℕ) : Option (Finset ℕ) :=
  (scan data fuel {}).map (lastElement data)

/-! ## What is to come back -/

def numbersOf (elements : List (List Char)) : Finset ℕ := (elements.filterMap stoul).toFinset

/-- The elements before a comma can be converted. -/
def Converts (data : List Char) : Prop := ∀ e ∈ (data.splitOn ',').dropLast, (stoul e).isSome = true

instance (data : List Char) : Decidable (Converts data) :=
  inferInstanceAs (Decidable (∀ e ∈ _, _))

variable {data : List Char} {s : ScanState}

@[simp] theorem stoul_nil : stoul [] = none := rfl

theorem numbersOf_cons_some {e : List Char} {elements : List (List Char)} {n : ℕ}
    (h : stoul e = some n) : numbersOf (e :: elements) = insert n (numbersOf elements) := by
  rw [numbersOf, List.filterMap_cons_some h, List.toFinset_cons, numbersOf]

theorem numbersOf_singleton_none {e : List Char} (h : stoul e = none) : numbersOf [e] = ∅ := by
  rw [numbersOf, List.filterMap_cons_none h]
  rfl

/-! ## The loop -/

theorem find_eq_none (h : ',' ∉ data.drop s.start) : find data ',' s.start = none := by
  rw [find, List.findIdx?_eq_none_iff.mpr, Option.map_none]
  intro c hc
  exact beq_false_of_ne fun heq => h (heq ▸ hc)

theorem find_eq_some {before after : List Char} (h : data.drop s.start = before ++ ',' :: after)
    (hbefore : ',' ∉ before) : find data ',' s.start = some (s.start + before.length) := by
  have hskip : before.findIdx? (· == ',') = none := by
    rw [List.findIdx?_eq_none_iff]
    intro c hc
    exact beq_false_of_ne fun heq => hbefore (heq ▸ hc)
  have hfirst : (before ++ ',' :: after).findIdx? (· == ',') = some before.length := by
    rw [List.findIdx?_append, hskip, List.findIdx?_cons, if_pos (beq_self_eq_true ','),
      Option.map_some, Option.none_or, Nat.zero_add]
  rw [find, h, hfirst, Option.map_some]

theorem substr_eq {before after : List Char} (h : data.drop s.start = before ++ ',' :: after) :
    substr data s.start (s.start + before.length - s.start) = before := by
  rw [substr, Nat.add_sub_cancel_left, h, List.take_left]

theorem drop_eq {before after : List Char} (h : data.drop s.start = before ++ ',' :: after) :
    data.drop (s.start + before.length + 1) = after := by
  have hdrop := congrArg (List.drop (before.length + 1)) h
  rw [List.drop_drop] at hdrop
  rw [Nat.add_assoc, hdrop]
  simp

/-- An element that cannot be converted keeps the loop where it is. -/
theorem scan_eq_none {before after : List Char} (h : data.drop s.start = before ++ ',' :: after)
    (hbefore : ',' ∉ before) (hnone : stoul before = none) (fuel : ℕ) :
    scan data fuel s = none := by
  induction fuel with
  | zero => rfl
  | succ fuel ih =>
    rw [scan, find_eq_some h hbefore]
    show scan data fuel (scanElement data s _) = none
    rw [scanElement, substr_eq h, hnone]
    exact ih

/-- What the scan yields from some place on. -/
theorem scan_yields {rest : List Char} (hs : data.drop s.start = rest)
    (hle : s.start ≤ data.length) :
    Yields (fun fuel => (scan data fuel s).map (lastElement data))
      (if Converts rest then some (s.resultSet ∪ numbersOf (rest.splitOn ',')) else none) := by
  generalize hlength : rest.length = n
  induction n using Nat.strong_induction_on generalizing s rest with
  | _ n ih =>
    by_cases hcomma : ',' ∈ rest
    · obtain ⟨before, after, rfl, hbefore⟩ := List.eq_append_cons_of_mem hcomma
      have hsplit : (before ++ ',' :: after).splitOn ',' = before :: after.splitOn ',' :=
        List.splitOn_append_cons_self_of_not_mem hbefore _
      have hdropLast : ((before ++ ',' :: after).splitOn ',').dropLast =
          before :: (after.splitOn ',').dropLast := by
        rw [hsplit, List.dropLast_cons_of_ne_nil (List.splitOn_ne_nil _ _)]
      have hconverts : Converts (before ++ ',' :: after) ↔
          (stoul before).isSome = true ∧ Converts after := by
        rw [Converts, hdropLast, List.forall_mem_cons, Converts]
      cases hconv : stoul before with
      | none =>
        -- the loop does not leave this element
        rw [if_neg fun h => by
          rw [hconverts, hconv] at h
          cases h.1]
        apply Yields.of_eq_none
        intro fuel
        rw [scan_eq_none hs hbefore hconv, Option.map_none]
      | some v =>
        have hnext : scanElement data s (s.start + before.length) =
            ⟨s.start + before.length + 1, insert v s.resultSet⟩ := by
          rw [scanElement, substr_eq hs, hconv]
        have hbound : s.start + before.length + 1 ≤ data.length := by
          have hlen := congrArg List.length hs
          simp only [List.length_drop, List.length_append, List.length_cons] at hlen
          omega
        have hafter : after.length < n := by
          rw [← hlength, List.length_append, List.length_cons]
          omega
        have hdrop : data.drop
            (ScanState.mk (s.start + before.length + 1) (insert v s.resultSet)).start = after :=
          drop_eq hs
        have hrest := ih after.length hafter hdrop hbound rfl
        have hresult : (if Converts (before ++ ',' :: after) then
            some (s.resultSet ∪ numbersOf ((before ++ ',' :: after).splitOn ',')) else none) =
            if Converts after then
              some (insert v s.resultSet ∪ numbersOf (after.splitOn ',')) else none := by
          simp only [hconverts, hconv, Option.isSome_some, true_and, hsplit,
            numbersOf_cons_some hconv, Finset.union_insert, Finset.insert_union]
        rw [hresult]
        refine Yields.succ rfl (fun fuel => ?_) hrest
        show (scan data (fuel + 1) s).map _ = _
        rw [scan, find_eq_some hs hbefore]
        show (scan data fuel (scanElement data s (s.start + before.length))).map _ = _
        rw [hnext]
    · have hsplit : rest.splitOn ',' = [rest] := List.splitOn_eq_singleton hcomma
      have hconverts : Converts rest := by
        rw [Converts, hsplit]
        exact fun e he => absurd he List.not_mem_nil
      have hlast : lastElement data s = s.resultSet ∪ numbersOf [rest] := by
        rw [lastElement, hs]
        split_ifs with hlt
        · cases hconv : stoul rest with
          | none => rw [numbersOf_singleton_none hconv, Finset.union_empty]
          | some v =>
            rw [numbersOf_cons_some hconv]
            show insert v s.resultSet = s.resultSet ∪ insert v ∅
            rw [Finset.union_insert, Finset.union_empty]
        · obtain rfl : rest = [] := by
            rw [← hs]
            exact List.drop_eq_nil_of_le (Nat.not_lt.mp hlt)
          rw [numbersOf_singleton_none stoul_nil, Finset.union_empty]
      rw [if_pos hconverts, hsplit, ← hlast]
      refine Yields.succ rfl (fun fuel => ?_) (Yields.pure _)
      show (scan data (fuel + 1) s).map _ = _
      rw [scan, find_eq_none (hs ▸ hcomma)]
      rfl

/-- **What comes back from a text.** -/
theorem deserializeSet_yields (data : List Char) :
    Yields (deserializeSet data)
      (if Converts data then some (numbersOf (data.splitOn ',')) else none) := by
  have hscan := @scan_yields data {} data rfl (Nat.zero_le _)
  rw [Finset.empty_union] at hscan
  exact hscan

/-! ## There and back -/

theorem serializeSet_eq (inputSet : Finset ℕ) :
    serializeSet inputSet = [','].intercalate (inputSet.sort.map (Nat.toDigits 10)) := by
  have hfold : ∀ (elems : List ℕ) (text : List Char), (elems.foldl serializeStep (false, text)).2 =
      text ++ (elems.flatMap fun n => ',' :: Nat.toDigits 10 n) := by
    intro elems
    induction elems with
    | nil => exact fun text => (List.append_nil text).symm
    | cons n elems ih =>
      intro text
      rw [List.foldl_cons, serializeStep, ih]
      simp
  rw [serializeSet]
  cases inputSet.sort with
  | nil => rfl
  | cons n elems =>
    rw [List.foldl_cons, serializeStep]
    show (elems.foldl serializeStep (false, _)).2 = _
    rw [hfold, if_pos rfl, List.nil_append]
    induction elems generalizing n with
    | nil => rw [List.flatMap_nil, List.append_nil, List.map_singleton, List.intercalate_singleton]
    | cons m elems ih =>
      rw [List.flatMap_cons, List.cons_append, ih m, List.map_cons, List.map_cons, List.map_cons,
        List.intercalate_cons_cons, List.append_assoc, List.singleton_append]

theorem isSpace_of_isDigit {c : Char} (h : c.isDigit = true) : isSpace c = false := by
  refine decide_eq_false fun hmem => ?_
  simp only [List.mem_cons, List.not_mem_nil, or_false] at hmem
  rcases hmem with rfl | rfl | rfl | rfl | rfl | rfl
  all_goals exact absurd h (by decide)

theorem splitSign_of_isDigit {c : Char} {rest : List Char} (h : c.isDigit = true) :
    splitSign (c :: rest) = (false, c :: rest) := by
  unfold splitSign
  split
  · next heq =>
    obtain ⟨rfl, -⟩ := List.cons.inj heq
    exact absurd h (by decide)
  · next heq =>
    obtain ⟨rfl, -⟩ := List.cons.inj heq
    exact absurd h (by decide)
  · rfl

/-- A number is what its digits are converted to. -/
theorem stoul_toDigits {n : ℕ} (h : n < 2 ^ 64) : stoul (Nat.toDigits 10 n) = some n := by
  have hdigits : ∀ c ∈ Nat.toDigits 10 n, c.isDigit = true := fun c hc =>
    Nat.isDigit_of_mem_toDigits (by decide) (by decide) hc
  have hne : Nat.toDigits 10 n ≠ [] := Nat.toDigits_ne_nil
  have hsign : splitSign ((Nat.toDigits 10 n).dropWhile isSpace) = (false, Nat.toDigits 10 n) := by
    obtain ⟨c, rest, hcons⟩ := List.exists_cons_of_ne_nil hne
    have hc : c.isDigit = true := hdigits c (hcons ▸ List.mem_cons_self)
    rw [hcons, List.dropWhile_cons_of_neg (by rw [isSpace_of_isDigit hc]; exact Bool.false_ne_true),
      splitSign_of_isDigit hc]
  have htake : (Nat.toDigits 10 n).takeWhile Char.isDigit = Nat.toDigits 10 n :=
    List.takeWhile_eq_self_iff.mpr hdigits
  rw [stoul, hsign]
  dsimp only
  rw [htake, if_neg hne, Nat.ofDigitChars_ten_toDigits, if_neg h.not_ge,
    if_neg Bool.false_ne_true]

theorem comma_notMem_toDigits (n : ℕ) : ',' ∉ Nat.toDigits 10 n := fun hmem =>
  absurd (Nat.isDigit_of_mem_toDigits (by decide) (by decide) hmem) (by decide)

/-- The elements of the text of a set. -/
theorem splitOn_serializeSet {inputSet : Finset ℕ} (hne : inputSet.sort ≠ []) :
    (serializeSet inputSet).splitOn ',' = inputSet.sort.map (Nat.toDigits 10) := by
  rw [serializeSet_eq]
  apply List.splitOn_intercalate
  · intro l hl
    obtain ⟨n, -, rfl⟩ := List.mem_map.mp hl
    exact comma_notMem_toDigits n
  · exact fun hnil => hne (List.map_eq_nil_iff.mp hnil)

/-- **A set comes back.** -/
theorem deserializeSet_serializeSet {inputSet : Finset ℕ} (h : ∀ n ∈ inputSet, n < 2 ^ 64) :
    Converts (serializeSet inputSet) ∧
      numbersOf ((serializeSet inputSet).splitOn ',') = inputSet := by
  by_cases hnil : inputSet.sort = []
  · have hempty : inputSet = ∅ := by
      rw [← Finset.sort_toFinset inputSet (· ≤ ·), hnil, List.toFinset_nil]
    rw [serializeSet_eq, hnil, hempty]
    exact ⟨by decide, rfl⟩
  · have hconv : ∀ n ∈ inputSet.sort, stoul (Nat.toDigits 10 n) = some n := fun n hn =>
      stoul_toDigits (h n ((Finset.mem_sort (· ≤ ·)).mp hn))
    rw [Converts, splitOn_serializeSet hnil]
    constructor
    · intro e he
      obtain ⟨n, hn, rfl⟩ := List.mem_map.mp (List.dropLast_subset _ he)
      rw [hconv n hn]
      rfl
    · rw [numbersOf, List.filterMap_map]
      have hsame : inputSet.sort.filterMap (stoul ∘ Nat.toDigits 10) = inputSet.sort := by
        have hcongr : inputSet.sort.filterMap (stoul ∘ Nat.toDigits 10) =
            inputSet.sort.filterMap some := List.filterMap_congr hconv
        rw [hcongr, List.filterMap_some]
      rw [hsame, Finset.sort_toFinset]

/-- **Which texts come back.** The loop ends with the numbers of the elements that can be converted
if and only if all elements before a comma can be; and every set of unsigned numbers comes back from
its own text. -/
theorem deserializeSet_iff (data : List Char) :
    ((∃ fuel, deserializeSet data fuel = some (numbersOf (data.splitOn ','))) ↔ Converts data) ∧
      ∀ inputSet : Finset ℕ, (∀ n ∈ inputSet, n < 2 ^ 64) →
        ∃ fuel, deserializeSet (serializeSet inputSet) fuel = some inputSet := by
  constructor
  · have hyields := deserializeSet_yields data
    constructor
    · rintro ⟨fuel, hfuel⟩
      by_contra hnot
      have heq := hyields.eq_of_eq_some hfuel
      rw [if_neg hnot] at heq
      cases heq
    · intro hconverts
      obtain ⟨fuel, hfuel⟩ := hyields.eventually (if_pos hconverts)
      exact ⟨fuel, hfuel fuel le_rfl⟩
  · intro inputSet h
    obtain ⟨hconverts, hnumbers⟩ := deserializeSet_serializeSet h
    obtain ⟨fuel, hfuel⟩ := (deserializeSet_yields _).eventually (if_pos hconverts)
    exact ⟨fuel, by rw [hfuel fuel le_rfl, hnumbers]⟩

/-- A bad element at the end, and a set. -/
theorem deserializeSet_badLast :
    (∃ fuel, deserializeSet ['1', ',', 'x'] fuel = some {1}) ∧
      ∃ fuel, deserializeSet (serializeSet {3, 12}) fuel = some {3, 12} :=
  have hiff := deserializeSet_iff ['1', ',', 'x']
  ⟨hiff.1.mpr (by decide), hiff.2 _ (by decide)⟩

/-- An empty element before a comma: the loop does not end. -/
theorem not_deserializeSet_emptyFirst :
    ¬ ∃ fuel resultSet, deserializeSet [',', '1'] fuel = some resultSet := by
  rintro ⟨fuel, resultSet, h⟩
  have heq := (deserializeSet_yields [',', '1']).eq_of_eq_some h
  rw [if_neg (by decide)] at heq
  cases heq

end MindieLLM.CommonUtil
