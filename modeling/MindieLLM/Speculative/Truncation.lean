import MindieLLM.Program.UpTo
import MindieLLM.TextGenerator.SlotContext

/-!
# Truncation of what has been verified

The tokens that a verification has accepted are cut off after the end of the answer and at the room
that the answer has left, by each plugin in its own way, and then padded to rows of one width. Where
the model runner works asynchronously the rows are cut on their own, padding and all.

## Main definitions

* `Eos`: an end of an answer, which is one token or several in a row
* `Truncation.truncateTokenIds`, `truncateLongTokens`, `stopCriteria`: what look-ahead, memory
  decoding and MTP do
* `Truncation.reshapeSpeculativeOutputs`: the rows
* `Truncation.truncateAfterEos`: the cut of a row

## Main results

* `Truncation.eosLoop_eq`: where all ends are single tokens, the cut is at the first of them
* `Truncation.truncateAfter_eq_iff`: when a padded row is cut where its tokens are
-/

namespace MindieLLM

open Program

/-- An entry of `eos_token_id`. -/
inductive Eos
  | single (id : Int)
  | composite (ids : List Int)
  deriving DecidableEq, Repr

/-- A row of the token matrix, and how many of its tokens are new. -/
structure TokenRow where
  tokenIds : List Int
  numNewTokens : Nat
  deriving DecidableEq, Repr

namespace Truncation

/-! ## Before the rows are padded -/

/-- `token_id in eos_token_id`. A number compared with a list of several gives an array, which is
neither true nor false. -/
def inEosTokenId (tokenId : Int) : List Eos → Except PyError Bool
  | [] => .ok false
  | .single id :: rest => if tokenId = id then .ok true else inEosTokenId tokenId rest
  | .composite [id] :: rest => if tokenId = id then .ok true else inEosTokenId tokenId rest
  | .composite _ :: _ =>
    .error (.valueError "The truth value of an array with more than one element is ambiguous")

/-- How many tokens there are up to the first that ends the answer. -/
def eosLoop (eosTokenId : List Eos) : List Int → Except PyError Nat
  | [] => .ok 0
  | tokenId :: rest =>
    match inEosTokenId tokenId eosTokenId with
    | .error e => .error e
    | .ok true => .ok 1
    | .ok false =>
      match eosLoop eosTokenId rest with
      | .error e => .error e
      | .ok n => .ok (n + 1)

/-- `token_indices[:n]` -/
def sliceTo (l : List Int) (n : Int) : List Int := l.take (if n < 0 then l.length + n else n).toNat

/-- Look-ahead. -/
def truncateTokenIds (eosTokenId : List Eos) (outputSpaceLeft : Int) (tokens : List Int) :
    Except PyError (List Int) := do
  let numNewTokens ← eosLoop eosTokenId tokens
  return sliceTo tokens (if outputSpaceLeft < numNewTokens then outputSpaceLeft else numNewTokens)

/-- Memory decoding. -/
def truncateLongTokens (outputSpaceLeft : Int) (tokens : List Int) : List Int :=
  sliceTo tokens (if outputSpaceLeft < tokens.length then outputSpaceLeft else tokens.length)

/-- MTP. -/
def stopCriteria (eosTokenId : List Eos) (outputSpaceLeft : Int) (tokens : List Int) :
    Except PyError (List Int) :=
  truncateTokenIds eosTokenId (if outputSpaceLeft ≤ 0 then 1 else outputSpaceLeft) tokens

/-! ## Rows -/

/-- The tokens of a sequence in a row of the width. -/
def padRow (padTokenId : Int) (width : Nat) (tokens : List Int) : TokenRow where
  tokenIds := tokens ++ List.replicate (width - tokens.length) padTokenId
  numNewTokens := tokens.length

def reshapeSpeculativeOutputs (padTokenId : Int) (kept : List (List Int)) :
    Except PyError (List TokenRow) :=
  if kept.any List.isEmpty then .error .indexError
  else .ok (kept.map (padRow padTokenId ((kept.map List.length).foldl max 0)))

/-- `row == eos`: the numbers of the row one by one, and those of a list as well where it is as long
as the row, or one of the two is a single number. -/
def rowEq (tokenIds : List Int) : Eos → Except PyError (List Bool)
  | .single id => .ok (tokenIds.map fun t => t == id)
  | .composite [id] => .ok (tokenIds.map fun t => t == id)
  | .composite ids =>
    if ids.length = tokenIds.length then .ok (List.zipWith (fun t id => t == id) tokenIds ids)
    else
      match tokenIds with
      | [t] => .ok (ids.map fun id => t == id)
      | _ => .error (.valueError "operands could not be broadcast together")

/-- What the row is after a match at the index. -/
def cutRow (r : TokenRow) : Option Nat → TokenRow
  | none => r
  | some eosIndex =>
    { tokenIds := r.tokenIds.mapIdx fun i t => if eosIndex < i then 0 else t
      numNewTokens := eosIndex + 1 }

def truncateAfterEos (eos : Eos) (r : TokenRow) : Except PyError TokenRow := do
  let hits ← rowEq r.tokenIds eos
  return cutRow r (hits.findIdx? id)

/-- The row after all ends of `eos_token_id`. -/
def truncateAfter (eosTokenId : List Eos) (r : TokenRow) : Except PyError TokenRow :=
  eosTokenId.foldlM (fun r eos => truncateAfterEos eos r) r

/-! ## Ends of one token -/

/-- All ends are single tokens, or lists of one. -/
def AreNumbers (eosTokenId : List Eos) (ids : List Int) : Prop :=
  List.Forall₂ (fun eos id => eos = .single id ∨ eos = .composite [id]) eosTokenId ids

/-- An end of the answer. -/
def isEnd (ids : List Int) (t : Int) : Bool := decide (t ∈ ids)

variable {eosTokenId : List Eos} {ids u tokens before after : List Int} {t e space : Int}
  {eos : Eos} {width : Nat}

theorem isEnd_eq_false_iff : isEnd ids t = false ↔ t ∉ ids := decide_eq_false_iff_not

theorem inEosTokenId_eq (h : AreNumbers eosTokenId ids) :
    inEosTokenId t eosTokenId = .ok (isEnd ids t) := by
  induction h with
  | nil => rfl
  | @cons eos id eosTokenId ids heos _ ih =>
    have hcons : inEosTokenId t (eos :: eosTokenId) =
        if t = id then .ok true else inEosTokenId t eosTokenId := by
      rcases heos with rfl | rfl <;> rfl
    rw [hcons, ih]
    by_cases ht : t = id <;> simp [isEnd, ht]

/-- The cut is at the first end. -/
theorem eosLoop_eq (h : AreNumbers eosTokenId ids) :
    eosLoop eosTokenId tokens = .ok (upTo (isEnd ids) tokens).length := by
  induction tokens with
  | nil => rfl
  | cons t tokens ih =>
    rw [eosLoop, inEosTokenId_eq h]
    cases ht : isEnd ids t with
    | true => rw [upTo_cons_of_pos ht]; rfl
    | false => rw [upTo_cons_of_neg ht, ih]; rfl

theorem sliceTo_of_nonneg {n : Int} (hn : 0 ≤ n) : sliceTo tokens n = tokens.take n.toNat := by
  rw [sliceTo, if_neg (by omega)]

theorem truncateTokenIds_eq (h : AreNumbers eosTokenId ids) (hspace : 0 < space) :
    truncateTokenIds eosTokenId space tokens =
      .ok ((upTo (isEnd ids) tokens).take space.toNat) := by
  have hmin : (if space < ((upTo (isEnd ids) tokens).length : Int) then space
      else ((upTo (isEnd ids) tokens).length : Int)).toNat =
      min space.toNat (upTo (isEnd ids) tokens).length := by
    split <;> omega
  unfold truncateTokenIds
  rw [eosLoop_eq h]
  change Except.ok (sliceTo tokens _) = _
  rw [sliceTo_of_nonneg (by split <;> omega), hmin, ← List.take_take, take_length_upTo]

theorem stopCriteria_eq (h : AreNumbers eosTokenId ids) :
    stopCriteria eosTokenId space tokens =
      .ok ((upTo (isEnd ids) tokens).take (if space ≤ 0 then 1 else space).toNat) :=
  truncateTokenIds_eq h (by split <;> omega)

theorem truncateLongTokens_eq (hspace : 0 < space) :
    truncateLongTokens space tokens = tokens.take space.toNat := by
  have hmin : (if space < (tokens.length : Int) then space else (tokens.length : Int)).toNat =
      min space.toNat tokens.length := by
    split <;> omega
  rw [truncateLongTokens, sliceTo_of_nonneg (by split <;> omega), hmin, ← List.take_take,
    List.take_length]

/-! ## Padded rows -/

/-- A padded row, seen as the tokens that are counted as new: after one end of the answer. A padding
of zeros is counted where 0 ends the answer and is not among the tokens. -/
def cutTokens (width : Nat) (u : List Int) (e : Int) : List Int :=
  if e ∈ u then upTo (fun t => t == e) u
  else if e = 0 ∧ u.length < width then u ++ [0]
  else u

/-- The padding of the row is counted: the tokens up to the ends that are listed before 0 leave room
in the row, and contain neither 0 nor what is listed after it. -/
def PaddingCounted (ids : List Int) (width : Nat) (u : List Int) : Prop :=
  ∃ before after, ids = before ++ 0 :: after ∧ (upTo (isEnd before) u).length < width ∧
    ∀ e ∈ 0 :: after, e ∉ upTo (isEnd before) u

theorem findIdx?_eq_length_upTo (he : e ∈ u) :
    (u.map fun t => t == e).findIdx? id = some ((upTo (fun t => t == e) u).length - 1) := by
  induction u with
  | nil => cases he
  | cons t u ih =>
    cases ht : t == e with
    | true => simp [upTo, ht, List.findIdx?_cons]
    | false =>
      have hmem : e ∈ u := by
        rcases List.mem_cons.mp he with rfl | h
        · simp at ht
        · exact h
      have hpos : 0 < (upTo (fun t => t == e) u).length :=
        List.length_pos_iff.mpr (upTo_ne_nil (List.ne_nil_of_mem hmem))
      rw [upTo_cons_of_neg (p := fun t => t == e) ht, List.map_cons, ht, List.findIdx?_cons,
        ih hmem]
      simp only [id, Bool.false_eq_true, if_false, Option.map_some, List.length_cons]
      congr 1
      omega

theorem mapIdx_cut (l : List Int) (k : Nat) :
    (l.mapIdx fun i t => if k < i then 0 else t) =
      l.take (k + 1) ++ List.replicate (l.length - (k + 1)) 0 := by
  refine List.ext_getElem (by simp; omega) fun i hi _ => ?_
  rw [List.getElem_mapIdx, List.getElem_append]
  simp only [List.length_take, List.getElem_take, List.getElem_replicate]
  rw [List.length_mapIdx] at hi
  split_ifs <;> first | rfl | omega

theorem cutRow_some {r : TokenRow} {k : Nat} (hk : k < r.tokenIds.length) :
    cutRow r (some k) = padRow 0 r.tokenIds.length (r.tokenIds.take (k + 1)) := by
  simp only [cutRow, padRow, mapIdx_cut, List.length_take, Nat.min_eq_left (Nat.succ_le_of_lt hk)]

/-- One end after the other cuts the row as it cuts the tokens that are counted. -/
theorem cutRow_padRow (hu : u.length ≤ width) (e : Int) :
    cutRow (padRow 0 width u) (((padRow 0 width u).tokenIds.map fun t => t == e).findIdx? id) =
      padRow 0 width (cutTokens width u e) := by
  have hlength : (padRow 0 width u).tokenIds.length = width := by
    simp only [padRow, List.length_append, List.length_replicate]
    omega
  have hfind : ((padRow 0 width u).tokenIds.map fun t => t == e).findIdx? id =
      ((u.map fun t => t == e).findIdx? id).or
        (((List.replicate (width - u.length) ((0 : Int) == e)).findIdx? id).map
          (· + u.length)) := by
    simp only [padRow, List.map_append, List.map_replicate, List.findIdx?_append, List.length_map]
  rw [hfind]
  unfold cutTokens
  split
  · next he =>
    have hpos : 0 < (upTo (fun t => t == e) u).length :=
      List.length_pos_iff.mpr (upTo_ne_nil (List.ne_nil_of_mem he))
    have hle := length_upTo_le (p := fun t => t == e) (l := u)
    have htake : (padRow 0 width u).tokenIds.take (upTo (fun t => t == e) u).length =
        upTo (fun t => t == e) u := by
      rw [padRow, List.take_append_of_le_length hle, take_length_upTo]
    rw [findIdx?_eq_length_upTo he, Option.some_or, cutRow_some (by omega), hlength,
      Nat.sub_add_cancel hpos, htake]
  · next he =>
    have hnone : (u.map fun t => t == e).findIdx? id = none := by
      rw [List.findIdx?_eq_none_iff]
      intro b hb
      obtain ⟨t, ht, rfl⟩ := List.mem_map.mp hb
      exact beq_eq_false_iff_ne.mpr fun heq => he (heq ▸ ht)
    rw [hnone, Option.none_or]
    split
    · next hzero =>
      -- the first zero of the padding
      obtain ⟨rfl, hlt⟩ := hzero
      obtain ⟨n, hn⟩ : ∃ n, width - u.length = n + 1 := ⟨width - u.length - 1, by omega⟩
      have hhit : (List.replicate (n + 1) ((0 : Int) == 0)).findIdx? id = some 0 := rfl
      have htake : (padRow 0 width u).tokenIds.take (u.length + 1) = u ++ [0] := by
        rw [padRow, List.take_length_add_append, hn]
        rfl
      rw [hn, hhit, Option.map_some, Nat.zero_add, cutRow_some (by omega), hlength, htake]
    · next hnot =>
      have hpad : (List.replicate (width - u.length) ((0 : Int) == e)).findIdx? id = none := by
        rw [List.findIdx?_eq_none_iff]
        intro b hb
        obtain ⟨hne, rfl⟩ := List.mem_replicate.mp hb
        exact beq_eq_false_iff_ne.mpr fun heq => hnot ⟨heq.symm, by omega⟩
      rw [hpad]
      rfl

theorem length_cutTokens_le (hu : u.length ≤ width) (e : Int) :
    (cutTokens width u e).length ≤ width := by
  unfold cutTokens
  split_ifs with he hzero
  · exact length_upTo_le.trans hu
  · rw [List.length_append, List.length_singleton]
    exact hzero.2
  · exact hu

theorem truncateAfter_padRow (h : AreNumbers eosTokenId ids) (hu : u.length ≤ width) :
    truncateAfter eosTokenId (padRow 0 width u) =
      .ok (padRow 0 width (ids.foldl (cutTokens width) u)) := by
  induction h generalizing u with
  | nil => rfl
  | @cons eos id eosTokenId ids heos _ ih =>
    have hone : truncateAfterEos eos (padRow 0 width u) =
        .ok (padRow 0 width (cutTokens width u id)) := by
      rw [← cutRow_padRow hu]
      rcases heos with rfl | rfl <;> rfl
    unfold truncateAfter at ih ⊢
    rw [List.foldlM_cons, hone]
    exact ih (length_cutTokens_le hu id)

theorem upTo_isEnd_append :
    upTo (isEnd (before ++ after)) u = upTo (isEnd after) (upTo (isEnd before) u) := by
  rw [upTo_upTo]
  congr 1
  funext t
  simp [isEnd]

theorem upTo_isEnd_concat :
    upTo (isEnd (before ++ [e])) u = upTo (fun t => t == e) (upTo (isEnd before) u) := by
  rw [upTo_isEnd_append]
  congr 1
  funext t
  simp [isEnd, beq_eq_decide]

/-- Ends that are not among the tokens up to those before them change nothing. -/
theorem upTo_isEnd_append_of_notMem (h : ∀ e ∈ after, e ∉ upTo (isEnd before) u) :
    upTo (isEnd (before ++ after)) u = upTo (isEnd before) u := by
  rw [upTo_isEnd_append]
  exact upTo_eq_self fun t ht => isEnd_eq_false_iff.mpr fun hmem => h t hmem ht

theorem upTo_eq_self_of_notMem (he : e ∉ u) : upTo (fun t => t == e) u = u :=
  upTo_eq_self fun _ ht => beq_eq_false_iff_ne.mpr fun heq => he (heq ▸ ht)

/-- One end more is not among the tokens up to those before it. -/
theorem paddingCounted_concat_iff :
    PaddingCounted (ids ++ [e]) width u ↔ e ∉ upTo (isEnd ids) u ∧
      (PaddingCounted ids width u ∨ e = 0 ∧ (upTo (isEnd ids) u).length < width) := by
  constructor
  · rintro ⟨before, after, heq, hlt, hno⟩
    rcases List.eq_nil_or_concat after with rfl | ⟨after, x, rfl⟩
    · obtain ⟨rfl, h⟩ := List.append_inj' heq rfl
      cases h
      exact ⟨hno 0 List.mem_cons_self, .inr ⟨rfl, hlt⟩⟩
    · rw [List.concat_eq_append] at heq hno
      rw [← List.cons_append, ← List.append_assoc] at heq
      obtain ⟨rfl, h⟩ := List.append_inj' heq rfl
      cases h
      have hno' : ∀ e ∈ 0 :: after, e ∉ upTo (isEnd before) u := fun d hd =>
        hno d (by rw [← List.cons_append]; exact List.mem_append_left _ hd)
      rw [upTo_isEnd_append_of_notMem hno']
      exact ⟨hno e (by simp), .inl ⟨before, after, rfl, hlt, hno'⟩⟩
  · rintro ⟨he, ⟨before, after, rfl, hlt, hno⟩ | ⟨rfl, hlt⟩⟩
    · rw [upTo_isEnd_append_of_notMem hno] at he
      refine ⟨before, after ++ [e], by simp, hlt, fun d hd => ?_⟩
      rw [← List.cons_append] at hd
      rcases List.mem_append.mp hd with hd | hd
      · exact hno d hd
      · rwa [List.mem_singleton.mp hd]
    · refine ⟨ids, [], rfl, hlt, fun d hd => ?_⟩
      rwa [List.mem_singleton.mp hd]

/-- The tokens up to the first end, or one zero of the padding as well. -/
theorem foldl_cutTokens (width : Nat) (u : List Int) (ids : List Int) :
    (¬PaddingCounted ids width u ∧ ids.foldl (cutTokens width) u = upTo (isEnd ids) u) ∨
      (PaddingCounted ids width u ∧ (upTo (isEnd ids) u).length < width ∧
        0 ∉ upTo (isEnd ids) u ∧
        ids.foldl (cutTokens width) u = upTo (isEnd ids) u ++ [0]) := by
  induction ids using List.reverseRecOn with
  | nil =>
    refine .inl ⟨?_, (upTo_eq_self fun _ _ => rfl).symm⟩
    rintro ⟨before, after, heq, -⟩
    simp at heq
  | append_singleton ids e ih =>
    rw [List.foldl_append, List.foldl_cons, List.foldl_nil, paddingCounted_concat_iff,
      upTo_isEnd_concat]
    obtain ⟨w, hw⟩ : ∃ w, upTo (isEnd ids) u = w := ⟨_, rfl⟩
    rw [hw] at ih ⊢
    by_cases he : e ∈ w
    · -- the end is among the tokens, whatever is counted behind them
      refine .inl ⟨fun h => h.1 he, ?_⟩
      rcases ih with ⟨-, hfold⟩ | ⟨-, -, -, hfold⟩
      · rw [hfold, cutTokens, if_pos he]
      · rw [hfold, cutTokens, if_pos (List.mem_append_left _ he),
          upTo_append_of_mem (p := fun t => t == e) he (beq_self_eq_true e)]
    · rw [upTo_eq_self_of_notMem he]
      rcases ih with ⟨hno, hfold⟩ | ⟨hcounted, hlt, hzero, hfold⟩
      · by_cases hpad : e = 0 ∧ w.length < width
        · refine .inr ⟨⟨he, .inr hpad⟩, hpad.2, hpad.1 ▸ he, ?_⟩
          rw [hfold, cutTokens, if_neg he, if_pos hpad]
        · refine .inl ⟨?_, ?_⟩
          · rintro ⟨-, h | h⟩
            · exact hno h
            · exact hpad h
          · rw [hfold, cutTokens, if_neg he, if_neg hpad]
      · refine .inr ⟨⟨he, .inl hcounted⟩, hlt, hzero, ?_⟩
        rw [hfold, cutTokens]
        by_cases hz : e = 0
        · subst hz
          rw [if_pos (by simp), upTo_append_of_forall]
          · simp [upTo]
          · exact fun t ht => beq_eq_false_iff_ne.mpr fun heq => hzero (heq ▸ ht)
        · rw [if_neg (by simp [he, hz]), if_neg fun h => hz h.1]

/-- When a padded row is cut where its tokens are. -/
theorem truncateAfter_eq_iff (h : AreNumbers eosTokenId ids) (hu : u.length ≤ width) :
    truncateAfter eosTokenId (padRow 0 width u) =
      .ok (padRow 0 width (upTo (isEnd ids) u)) ↔ ¬PaddingCounted ids width u := by
  rw [truncateAfter_padRow h hu, Except.ok.injEq]
  rcases foldl_cutTokens width u ids with ⟨hno, hfold⟩ | ⟨hcounted, -, -, hfold⟩
  · exact iff_of_true (by rw [hfold]) hno
  · refine iff_of_false (fun heq => ?_) (not_not_intro hcounted)
    have hnum := congrArg TokenRow.numNewTokens heq
    rw [hfold] at hnum
    simp [padRow] at hnum

end Truncation

end MindieLLM
