import MindieLLM.Program.Reaches
import MindieLLM.Program.Slices
import MindieLLM.Speculative.Truncation
import Mathlib.Data.List.Infix

/-!
# End of a sequence

After each step the output filter looks whether the tokens of a sequence end with an end of the
answer. It looks at the last new token, and for an end of several tokens at the last tokens of the
history with the row of the step behind it, which may be padded. A step that brings several tokens
may bring the end in their middle; the plugins cut the tokens there, where they look for it.

## Main definitions

* `filterByEos`: the filter
* `EndOfSequence.rows`: the rows that the filter gets, for each way to decode
* `EndOfSequence.step`: a batch of sequences of which each gets its tokens
* `EndOfSequence.Right`: a sequence is marked with its first end, which is the last it keeps
* `EndOfSequence.Clean`: a batch in which nothing is overlooked

## Main results

* `EndOfSequence.clean_of_singles`: batches of look-ahead and MTP, where all ends are single tokens
* `EndOfSequence.rows_eq`: the rows are the accepted tokens and padding
* `EndOfSequence.outcomes_eq`: what the filter finds
* `EndOfSequence.allRight_of_reaches`: all sequences are marked right in runs of such batches
* `EndOfSequence.not_allRight`: an end of two tokens, missed behind the padding of a shorter row
-/

namespace MindieLLM

open Program Truncation

/-- What `set_eos_token_id` lets through. -/
structure EosConfig where
  eosTokenId : List Eos
  nonempty : eosTokenId ≠ []
  valid : .composite [] ∉ eosTokenId

/-- A sequence as the filter sees it. -/
structure FilterRow where
  ignoreEos : Bool
  /-- `all_output_ids[:output_len_count]` -/
  outputIds : List Int
  row : TokenRow

/-- `next_token_ids[i, num_new_tokens[i] - 1]` -/
def lastNewToken (r : TokenRow) : Except PyError Int :=
  match r.tokenIds[if r.numNewTokens = 0 then r.tokenIds.length - 1 else r.numNewTokens - 1]? with
  | some t => .ok t
  | none => .error .indexError

def checkEos (r : FilterRow) : Eos → Except PyError Bool
  | .single id =>
    match lastNewToken r.row with
    | .ok t => .ok (t == id)
    | .error e => .error e
  | .composite ids =>
    let inputIdsWithoutPadding := r.outputIds ++ r.row.tokenIds
    if inputIdsWithoutPadding.length < ids.length then .ok false
    else .ok (inputIdsWithoutPadding.drop (inputIdsWithoutPadding.length - ids.length) == ids)

/-- The decision on one sequence. -/
def filterRowByEos (eosTokenId : List Eos) (r : FilterRow) : Except PyError Bool :=
  match eosTokenId.mapM (checkEos r) with
  | .ok found => .ok (found.any id && !r.ignoreEos)
  | .error e => .error e

/-- `filter_by_eos` -/
def filterByEos (eosTokenId : List Eos) (rows : List FilterRow) : Except PyError (List Bool) :=
  rows.mapM (filterRowByEos eosTokenId)

namespace EndOfSequence

/-! ## A step of a batch -/

/-- The ways to decode; `exp` are those of the asynchronous model runner. -/
inductive Path
  | plain
  | plainExp
  | lookAhead
  | memoryDecoding
  | mtp
  | mtpExp (numSpeculativeTokens : Nat)
  deriving DecidableEq

/-- The tokens that a verification has accepted, and the room that the answer has left. -/
structure Verified where
  tokens : List Int
  spaceLeft : Int
  nonempty : tokens ≠ []
  space : 0 < spaceLeft

/-- So many tokens can be accepted: one without a draft, and no more than are guessed. -/
def Path.Fits : Path → Nat → Prop
  | .plain, n | .plainExp, n => n = 1
  | .mtpExp numSpeculativeTokens, n => n ≤ numSpeculativeTokens + 1
  | _, _ => True

structure Batch where
  path : Path
  entries : List (Nat × Verified)
  fits : ∀ p ∈ entries, path.Fits p.2.tokens.length

/-- The rows that the filter gets. -/
def rows (eosTokenId : List Eos) (b : Batch) : Except PyError (List TokenRow) :=
  match b.path with
  | .plain => .ok (b.entries.map fun p => padRow 0 p.2.tokens.length p.2.tokens)
  | .plainExp =>
    b.entries.mapM fun p => truncateAfter eosTokenId (padRow 0 p.2.tokens.length p.2.tokens)
  | .lookAhead => do
    let kept ← b.entries.mapM fun p => truncateTokenIds eosTokenId p.2.spaceLeft p.2.tokens
    reshapeSpeculativeOutputs (-1) kept
  | .memoryDecoding =>
    reshapeSpeculativeOutputs (-1)
      (b.entries.map fun p => truncateLongTokens p.2.spaceLeft p.2.tokens)
  | .mtp => do
    let kept ← b.entries.mapM fun p => stopCriteria eosTokenId p.2.spaceLeft p.2.tokens
    reshapeSpeculativeOutputs 0 kept
  | .mtpExp n => b.entries.mapM fun p => truncateAfter eosTokenId (padRow 0 (n + 1) p.2.tokens)

/-! ## Sequences over their steps -/

structure EosSequence where
  ignoreEos : Bool
  /-- What the verifications have accepted, after the truncation of the plugin. -/
  accepted : List Int := []
  /-- `all_output_ids[:output_len_count]` -/
  outputIds : List Int := []
  marked : Bool := false

structure State where
  sequences : Nat → EosSequence
  raised : Bool := false

/-- The ends that are compared as numbers. -/
def numbers (eosTokenId : List Eos) : List Int :=
  eosTokenId.filterMap fun
    | .single id => some id
    | .composite [id] => some id
    | .composite _ => none

/-- The accepted tokens after the truncation of the plugin. -/
def accepted (eosTokenId : List Eos) (path : Path) (v : Verified) : List Int :=
  match path with
  | .plain => v.tokens
  | .memoryDecoding => v.tokens.take v.spaceLeft.toNat
  | .lookAhead | .mtp =>
    (upTo (isEnd (numbers eosTokenId)) v.tokens).take v.spaceLeft.toNat
  | .plainExp | .mtpExp _ => upTo (isEnd (numbers eosTokenId)) v.tokens

/-- What a step brings a sequence. -/
structure Outcome where
  accepted : List Int
  row : TokenRow
  checked : Bool

def EosSequence.append (c : EosSequence) (o : Outcome) : EosSequence :=
  { c with
    accepted := c.accepted ++ o.accepted
    outputIds := c.outputIds ++ o.row.tokenIds.take o.row.numNewTokens
    marked := o.checked }

def filterRows (sequences : Nat → EosSequence) (b : Batch) (rows : List TokenRow) :
    List FilterRow :=
  List.zipWith (fun p row => ⟨(sequences p.1).ignoreEos, (sequences p.1).outputIds, row⟩) b.entries
    rows

def outcomes (eosTokenId : List Eos) (sequences : Nat → EosSequence) (b : Batch) :
    Except PyError (List (Nat × Outcome)) := do
  let rows ← rows eosTokenId b
  let checked ← filterByEos eosTokenId (filterRows sequences b rows)
  return List.zipWith
    (fun p found => (p.1, ⟨accepted eosTokenId b.path p.2, found.1, found.2⟩)) b.entries
    (rows.zip checked)

/-- The sequences of a batch are different, and not marked. -/
def Enabled (s : State) (b : Batch) : Prop :=
  (b.entries.map Prod.fst).Nodup ∧ ∀ p ∈ b.entries, (s.sequences p.1).marked = false

instance (s : State) (b : Batch) : Decidable (Enabled s b) := inferInstanceAs (Decidable (_ ∧ _))

def step (c : EosConfig) (s : State) (b : Batch) : Option State :=
  if Enabled s b then
    match outcomes c.eosTokenId s.sequences b with
    | .ok found => some { s with sequences := writeRows EosSequence.append found s.sequences }
    | .error _ => some { s with raised := true }
  else none

def init (ignoreEos : Nat → Bool) : State where
  sequences i := { ignoreEos := ignoreEos i }

/-! ## What is asked for -/

/-- The tokens of an end. -/
def eosIds : Eos → List Int
  | .single id => [id]
  | .composite ids => ids

def Contains (c : EosConfig) (ids : List Int) : Prop := ∃ eos ∈ c.eosTokenId, eosIds eos <:+: ids

instance (c : EosConfig) (ids : List Int) : Decidable (Contains c ids) :=
  inferInstanceAs (Decidable (∃ eos ∈ c.eosTokenId, eosIds eos <:+: ids))

/-- A sequence is marked once its tokens contain an end, which are then the last that it has. -/
structure Right (c : EosConfig) (q : EosSequence) : Prop where
  outputIds : q.outputIds = q.accepted
  marked : q.ignoreEos = false → (q.marked = true ↔ Contains c q.accepted)
  last : q.ignoreEos = false → q.marked = true → (∃ eos ∈ c.eosTokenId, eosIds eos <:+ q.accepted) ∧
    ¬Contains c q.accepted.dropLast

/-! ## Where nothing is overlooked -/

def Path.padTokenId : Path → Int
  | .lookAhead | .memoryDecoding => -1
  | _ => 0

/-- The columns of the rows. -/
def width (eosTokenId : List Eos) (b : Batch) : Nat :=
  match b.path with
  | .plain | .plainExp => 1
  | .mtpExp numSpeculativeTokens => numSpeculativeTokens + 1
  | _ => (b.entries.map fun p => (accepted eosTokenId b.path p.2).length).foldl max 0

/-- A batch in which nothing is overlooked. -/
structure Clean (c : EosConfig) (s : State) (b : Batch) : Prop where
  /-- A plugin that looks for the end compares numbers. -/
  numbers : b.path ≠ .plain → b.path ≠ .memoryDecoding →
    AreNumbers c.eosTokenId (numbers c.eosTokenId)
  /-- No padding of an asynchronous row is taken for an end. -/
  padding : ∀ n, b.path = .mtpExp n → ∀ p ∈ b.entries,
    ¬PaddingCounted (EndOfSequence.numbers c.eosTokenId) (n + 1) p.2.tokens
  /-- Memory decoding does not look for the end: none is complete before the last token that there
  is room for. -/
  inside : b.path = .memoryDecoding → ∀ p ∈ b.entries, (s.sequences p.1).ignoreEos = false →
    ¬Contains c ((s.sequences p.1).accepted ++ (p.2.tokens.take p.2.spaceLeft.toNat).dropLast)
  /-- Where a row is padded, no end that is written as a list is complete, and none ends with the
  padding. -/
  behind : ∀ p ∈ b.entries, (s.sequences p.1).ignoreEos = false →
    (accepted c.eosTokenId b.path p.2).length < width c.eosTokenId b →
      ∀ ids, .composite ids ∈ c.eosTokenId →
        ¬ids <:+ (s.sequences p.1).accepted ++ accepted c.eosTokenId b.path p.2 ∧
          ids.getLast? ≠ some b.path.padTokenId

variable {c : EosConfig} {s s' : State} {b : Batch} {v : Verified} {q : EosSequence}
  {eosTokenId : List Eos} {ids acc : List Int}

theorem areNumbers_of_singles {eosTokenId : List Eos}
    (h : ∀ eos ∈ eosTokenId, ∃ id, eos = .single id) :
    AreNumbers eosTokenId (numbers eosTokenId) := by
  induction eosTokenId with
  | nil => exact .nil
  | cons eos rest ih =>
    obtain ⟨id, rfl⟩ := h eos List.mem_cons_self
    exact .cons (.inl rfl) (ih fun eos heos => h eos (List.mem_cons_of_mem _ heos))

/-- Look-ahead and MTP overlook no end that is a single token, whatever the rows of the batch. -/
theorem clean_of_singles (hpath : b.path = .lookAhead ∨ b.path = .mtp)
    (hsingles : ∀ eos ∈ c.eosTokenId, ∃ id, eos = .single id) : Clean c s b where
  numbers _ _ := areNumbers_of_singles hsingles
  padding n hexp := by
    rcases hpath with hpath | hpath
    · cases hpath.symm.trans hexp
    · cases hpath.symm.trans hexp
  inside hmemory := by
    rcases hpath with hpath | hpath
    · cases hpath.symm.trans hmemory
    · cases hpath.symm.trans hmemory
  behind p _ _ _ ids hids := by
    obtain ⟨id, hid⟩ := hsingles _ hids
    cases hid

/-! ## The rows -/

theorem accepted_ne_nil (eosTokenId : List Eos) (path : Path) (v : Verified) :
    accepted eosTokenId path v ≠ [] := by
  have hspace := v.space
  have hupTo := upTo_ne_nil (p := isEnd (numbers eosTokenId)) v.nonempty
  cases path with
  | plain => exact v.nonempty
  | plainExp => exact hupTo
  | mtpExp => exact hupTo
  | lookAhead => exact fun h => (List.take_eq_nil_iff.mp h).elim (by omega) hupTo
  | memoryDecoding => exact fun h => (List.take_eq_nil_iff.mp h).elim (by omega) v.nonempty
  | mtp => exact fun h => (List.take_eq_nil_iff.mp h).elim (by omega) hupTo

/-- The rows of what is kept are padded to the longest. -/
theorem reshape_eq (padTokenId : Int) (hpath : width eosTokenId b =
      (b.entries.map fun p => (accepted eosTokenId b.path p.2).length).foldl max 0) :
    reshapeSpeculativeOutputs padTokenId (b.entries.map fun p => accepted eosTokenId b.path p.2) =
      .ok (b.entries.map fun p =>
        padRow padTokenId (width eosTokenId b) (accepted eosTokenId b.path p.2)) := by
  have hnil : ¬(b.entries.map fun p => accepted eosTokenId b.path p.2).any List.isEmpty := by
    rw [List.any_eq_true]
    rintro ⟨l, hl, hempty⟩
    obtain ⟨p, -, rfl⟩ := List.mem_map.mp hl
    exact accepted_ne_nil eosTokenId b.path p.2 (List.isEmpty_iff.mp hempty)
  rw [reshapeSpeculativeOutputs, if_neg hnil, hpath, List.map_map, List.map_map]
  rfl

/-- The rows are the accepted tokens and padding. -/
theorem rows_eq (h : Clean c s b) : rows c.eosTokenId b =
    .ok (b.entries.map fun p => padRow b.path.padTokenId (width c.eosTokenId b)
      (accepted c.eosTokenId b.path p.2)) := by
  have hnumbers := h.numbers
  have hpadding := h.padding
  clear h
  obtain ⟨path, entries, fits⟩ := b
  cases path with
  | plain =>
    refine congrArg Except.ok (List.map_congr_left fun p hp => ?_)
    rw [show p.2.tokens.length = 1 from fits p hp]
    rfl
  | plainExp =>
    refine mapM_eq_ok_map _ fun p hp => ?_
    have hone : p.2.tokens.length = 1 := fits p hp
    rw [hone]
    refine (truncateAfter_eq_iff (hnumbers nofun nofun) hone.le).mpr ?_
    rintro ⟨before, after, -, hlt, -⟩
    have hpos := List.length_pos_iff.mpr (upTo_ne_nil (p := isEnd before) p.2.nonempty)
    omega
  | lookAhead =>
    have hkept := mapM_eq_ok_map entries
      (f := fun p => truncateTokenIds c.eosTokenId p.2.spaceLeft p.2.tokens) fun p _ =>
        truncateTokenIds_eq (hnumbers nofun nofun) p.2.space
    unfold rows
    simp only [hkept]
    exact reshape_eq (b := ⟨.lookAhead, entries, fits⟩) (-1) rfl
  | memoryDecoding =>
    have hkept : (entries.map fun p => truncateLongTokens p.2.spaceLeft p.2.tokens) =
        entries.map fun p => accepted c.eosTokenId .memoryDecoding p.2 :=
      List.map_congr_left fun p _ => truncateLongTokens_eq p.2.space
    unfold rows
    simp only [hkept]
    exact reshape_eq (b := ⟨.memoryDecoding, entries, fits⟩) (-1) rfl
  | mtp =>
    have hkept := mapM_eq_ok_map entries
      (f := fun p => stopCriteria c.eosTokenId p.2.spaceLeft p.2.tokens)
      (g := fun p => accepted c.eosTokenId .mtp p.2) fun p _ => by
        rw [stopCriteria_eq (hnumbers nofun nofun), if_neg (by have := p.2.space; omega)]
        rfl
    unfold rows
    simp only [hkept]
    exact reshape_eq (b := ⟨.mtp, entries, fits⟩) 0 rfl
  | mtpExp n =>
    exact mapM_eq_ok_map _ fun p hp =>
      (truncateAfter_eq_iff (hnumbers nofun nofun) (fits p hp)).mpr (hpadding n rfl p hp)

/-! ## The decision -/

theorem padRow_take (pad : Int) (n : Nat) (tokens : List Int) :
    (padRow pad n tokens).tokenIds.take (padRow pad n tokens).numNewTokens = tokens := by
  rw [padRow, List.take_left']
  rfl

/-- The last new token is the last that has been accepted. -/
theorem lastNewToken_padRow (pad : Int) (n : Nat) {tokens : List Int} (h : tokens ≠ []) :
    lastNewToken (padRow pad n tokens) = .ok (tokens.getLast h) := by
  have hpos := List.length_pos_iff.mpr h
  have hget : (padRow pad n tokens).tokenIds[tokens.length - 1]? = some (tokens.getLast h) := by
    rw [padRow, List.getElem?_append_left (by omega), List.getElem?_eq_getElem (by omega),
      List.getLast_eq_getElem]
  unfold lastNewToken
  rw [show (padRow pad n tokens).numNewTokens = tokens.length from rfl,
    if_neg (Nat.ne_of_gt hpos), hget]

theorem singleton_suffix_iff {id : Int} (h : acc ≠ []) :
    [id] <:+ ids ++ acc ↔ acc.getLast h = id := by
  obtain ⟨init, last, rfl⟩ := List.eq_nil_or_concat' acc |>.resolve_left h
  rw [List.getLast_append_singleton, ← List.append_assoc]
  constructor
  · rintro ⟨l, hl⟩
    exact (List.append_inj' hl rfl).2 |> fun h => (List.cons.inj h).1.symm
  · rintro rfl
    exact List.suffix_append _ _

theorem drop_beq_eq (l ids : List Int) :
    (if l.length < ids.length then false else l.drop (l.length - ids.length) == ids) =
      decide (ids <:+ l) := by
  split
  · next hlt =>
    refine (decide_eq_false fun h => ?_).symm
    have := h.length_le
    omega
  · rw [Bool.eq_iff_iff, beq_iff_eq, decide_eq_true_iff, List.suffix_iff_eq_drop, eq_comm]

/-- Whether an end is found: one token behind the history, several with the row behind it. -/
def found (history acc row : List Int) : Eos → Bool
  | .single id => decide ([id] <:+ history ++ acc)
  | .composite ids => decide (ids <:+ history ++ row)

theorem checkEos_padRow (ignoreEos : Bool) (history : List Int) (pad : Int) (n : Nat)
    (h : acc ≠ []) (eos : Eos) :
    checkEos ⟨ignoreEos, history, padRow pad n acc⟩ eos =
      .ok (found history acc (padRow pad n acc).tokenIds eos) := by
  cases eos with
  | single id =>
    have heq : (acc.getLast h == id) = decide ([id] <:+ history ++ acc) := by
      rw [Bool.eq_iff_iff, beq_iff_eq, decide_eq_true_iff, singleton_suffix_iff h]
    unfold checkEos found
    rw [lastNewToken_padRow pad n h]
    exact congrArg Except.ok heq
  | composite ids =>
    have heq := drop_beq_eq (history ++ (padRow pad n acc).tokenIds) ids
    unfold checkEos found
    simp only [← heq]
    split <;> rfl

/-- What a step brings a sequence in which nothing is overlooked. -/
def outcome (c : EosConfig) (s : State) (b : Batch) (p : Nat × Verified) : Outcome where
  accepted := accepted c.eosTokenId b.path p.2
  row := padRow b.path.padTokenId (width c.eosTokenId b) (accepted c.eosTokenId b.path p.2)
  checked := c.eosTokenId.any (found (s.sequences p.1).outputIds
      (accepted c.eosTokenId b.path p.2)
      (padRow b.path.padTokenId (width c.eosTokenId b)
        (accepted c.eosTokenId b.path p.2)).tokenIds) &&
    !(s.sequences p.1).ignoreEos

/-- What the filter finds. -/
theorem outcomes_eq (h : Clean c s b) : outcomes c.eosTokenId s.sequences b =
    .ok (b.entries.map fun p => (p.1, outcome c s b p)) := by
  have hrows : filterRows s.sequences b (b.entries.map fun p => (outcome c s b p).row) =
      b.entries.map fun p => ⟨(s.sequences p.1).ignoreEos, (s.sequences p.1).outputIds,
        (outcome c s b p).row⟩ := by
    unfold filterRows
    rw [List.zipWith_map_right, List.zipWith_self]
  have hfilter : filterByEos c.eosTokenId
      (filterRows s.sequences b (b.entries.map fun p => (outcome c s b p).row)) =
      .ok (b.entries.map fun p => (outcome c s b p).checked) := by
    rw [hrows, filterByEos, mapM_eq_ok_iff, List.forall₂_map_left_iff,
      List.forall₂_map_right_iff, List.forall₂_same]
    intro p _
    have hne := accepted_ne_nil c.eosTokenId b.path p.2
    have hfound := mapM_eq_ok_map c.eosTokenId fun eos _ =>
      checkEos_padRow (s.sequences p.1).ignoreEos (s.sequences p.1).outputIds b.path.padTokenId
        (width c.eosTokenId b) hne eos
    unfold filterRowByEos outcome
    simp only [hfound, List.any_map, Function.comp_def, id]
  unfold outcomes
  rw [rows_eq h]
  change (filterByEos c.eosTokenId _ >>= fun checked => _) = _
  rw [show (b.entries.map fun p => padRow b.path.padTokenId (width c.eosTokenId b)
    (accepted c.eosTokenId b.path p.2)) = b.entries.map fun p => (outcome c s b p).row from rfl,
    hfilter]
  change Except.ok _ = _
  rw [List.zip_map', List.zipWith_map_right, List.zipWith_self]
  rfl

/-! ## Steps and runs -/

/-- No end of one token comes among other tokens. -/
theorem not_contains_append {numbers : List Int} (h : AreNumbers c.eosTokenId numbers)
    (hids : ¬Contains c ids) (hacc : ∀ t ∈ acc, isEnd numbers t = false) :
    ¬Contains c (ids ++ acc) := by
  rintro ⟨eos, heos, hinfix⟩
  obtain ⟨id, hid, hone⟩ : ∃ id ∈ numbers, eosIds eos = [id] := by
    obtain ⟨id, hid, hone⟩ := exists_of_forall₂_left h heos
    exact ⟨id, hid, by rcases hone with rfl | rfl <;> rfl⟩
  rw [hone, List.singleton_infix_iff, List.mem_append] at hinfix
  rcases hinfix with hmem | hmem
  · exact hids ⟨eos, heos, by rwa [hone, List.singleton_infix_iff]⟩
  · exact absurd hid (isEnd_eq_false_iff.mp (hacc id hmem))

/-- No end is complete before the last token of a step. -/
theorem not_contains_dropLast (h : Clean c s b) {p : Nat × Verified} (hp : p ∈ b.entries)
    (hignore : (s.sequences p.1).ignoreEos = false)
    (hbefore : ¬Contains c (s.sequences p.1).accepted) :
    ¬Contains c ((s.sequences p.1).accepted ++ (accepted c.eosTokenId b.path p.2).dropLast) := by
  have hcut : ∀ k, AreNumbers c.eosTokenId (numbers c.eosTokenId) →
      ¬Contains c ((s.sequences p.1).accepted ++
        ((upTo (isEnd (numbers c.eosTokenId)) p.2.tokens).take k).dropLast) := by
    intro k hnumbers
    refine not_contains_append hnumbers hbefore fun t ht => ?_
    rw [List.dropLast_eq_take, List.take_take, List.length_take] at ht
    refine of_mem_dropLast_upTo (l := p.2.tokens) ?_
    rw [List.dropLast_eq_take]
    exact List.take_subset_take_left _ (by omega) ht
  have hnumbers := h.numbers
  have hinside := h.inside
  have hfits := b.fits p hp
  unfold accepted
  cases hpath : b.path with
  | plain =>
    rw [hpath] at hfits
    obtain ⟨t, ht⟩ := List.length_eq_one_iff.mp hfits
    change ¬Contains c ((s.sequences p.1).accepted ++ p.2.tokens.dropLast)
    rwa [ht, List.dropLast_singleton, List.append_nil]
  | memoryDecoding => exact hinside hpath p hp hignore
  | lookAhead => exact hcut _ (hnumbers (by rw [hpath]; nofun) (by rw [hpath]; nofun))
  | mtp => exact hcut _ (hnumbers (by rw [hpath]; nofun) (by rw [hpath]; nofun))
  | plainExp =>
    have := hcut p.2.tokens.length (hnumbers (by rw [hpath]; nofun) (by rw [hpath]; nofun))
    rwa [List.take_of_length_le length_upTo_le] at this
  | mtpExp n =>
    have := hcut p.2.tokens.length (hnumbers (by rw [hpath]; nofun) (by rw [hpath]; nofun))
    rwa [List.take_of_length_le length_upTo_le] at this

/-- The padding behind the tokens of a step makes no difference. -/
theorem suffix_padRow_iff (h : Clean c s b) {p : Nat × Verified} (hp : p ∈ b.entries)
    (hignore : (s.sequences p.1).ignoreEos = false) (hids : .composite ids ∈ c.eosTokenId) :
    ids <:+ (s.sequences p.1).accepted ++ (padRow b.path.padTokenId (width c.eosTokenId b)
        (accepted c.eosTokenId b.path p.2)).tokenIds ↔
      ids <:+ (s.sequences p.1).accepted ++ accepted c.eosTokenId b.path p.2 := by
  rw [padRow]
  rcases Nat.lt_or_ge (accepted c.eosTokenId b.path p.2).length (width c.eosTokenId b)
    with hlt | hge
  · obtain ⟨hnot, hlast⟩ := h.behind p hp hignore hlt ids hids
    refine iff_of_false (fun hsuffix => hlast ?_) hnot
    -- an end of the padded row is the padding
    have hne : ids ≠ [] := by
      rintro rfl
      exact c.valid hids
    obtain ⟨l, hl⟩ := hsuffix
    have hgetLast := congrArg List.getLast? hl
    rw [List.getLast?_append_of_ne_nil _ hne] at hgetLast
    rw [hgetLast, ← List.append_assoc, List.getLast?_append, List.getLast?_replicate,
      if_neg (by omega)]
    rfl
  · rw [Nat.sub_eq_zero_of_le hge, List.replicate_zero, List.append_nil]

/-- An end is found where the accepted tokens end with it. -/
theorem checked_eq_true_iff (h : Clean c s b) {p : Nat × Verified} (hp : p ∈ b.entries)
    (hright : Right c (s.sequences p.1)) (hignore : (s.sequences p.1).ignoreEos = false) :
    (outcome c s b p).checked = true ↔ ∃ eos ∈ c.eosTokenId,
      eosIds eos <:+ (s.sequences p.1).accepted ++ accepted c.eosTokenId b.path p.2 := by
  unfold outcome
  simp only [hignore, Bool.not_false, Bool.and_true, List.any_eq_true, hright.outputIds]
  refine exists_congr fun eos => and_congr_right fun heos => ?_
  cases eos with
  | single id => exact decide_eq_true_iff
  | composite ids => exact decide_eq_true_iff.trans (suffix_padRow_iff h hp hignore heos)

theorem Right.append (h : Clean c s b) {p : Nat × Verified} (hp : p ∈ b.entries)
    (hright : Right c (s.sequences p.1)) (hunmarked : (s.sequences p.1).marked = false) :
    Right c ((s.sequences p.1).append (outcome c s b p)) := by
  have hne := accepted_ne_nil c.eosTokenId b.path p.2
  have hinside : (s.sequences p.1).ignoreEos = false →
      ¬Contains c ((s.sequences p.1).accepted ++ (accepted c.eosTokenId b.path p.2).dropLast) := by
    refine fun hignore => not_contains_dropLast h hp hignore ?_
    rw [← hright.marked hignore, hunmarked]
    exact Bool.false_ne_true
  refine ⟨?_, fun hignore => ?_, fun hignore hmarked => ?_⟩
  · exact congrArg₂ (· ++ ·) hright.outputIds (padRow_take b.path.padTokenId
      (width c.eosTokenId b) (accepted c.eosTokenId b.path p.2))
  · refine (checked_eq_true_iff h hp hright hignore).trans ?_
    constructor
    · rintro ⟨eos, heos, hsuffix⟩
      exact ⟨eos, heos, hsuffix.isInfix⟩
    · -- an end that is not the last would have been seen in the middle of the step
      rintro ⟨eos, heos, hinfix⟩
      change eosIds eos <:+: (s.sequences p.1).accepted ++ accepted c.eosTokenId b.path p.2
        at hinfix
      rw [← List.dropLast_append_getLast hne, ← List.append_assoc, List.infix_concat_iff] at hinfix
      rcases hinfix with hsuffix | hinfix
      · rw [List.append_assoc, List.dropLast_append_getLast] at hsuffix
        exact ⟨eos, heos, hsuffix⟩
      · exact absurd ⟨eos, heos, hinfix⟩ (hinside hignore)
  · refine ⟨(checked_eq_true_iff h hp hright hignore).mp hmarked, ?_⟩
    change ¬Contains c ((s.sequences p.1).accepted ++ accepted c.eosTokenId b.path p.2).dropLast
    rw [List.dropLast_append_of_ne_nil hne]
    exact hinside hignore

/-- All sequences are marked right, and nothing has been raised. -/
structure AllRight (c : EosConfig) (s : State) : Prop where
  raised : s.raised = false
  sequences : ∀ i, Right c (s.sequences i)

theorem AllRight.step (h : AllRight c s) (hclean : Clean c s b) (hstep : step c s b = some s') :
    AllRight c s' := by
  unfold EndOfSequence.step at hstep
  split at hstep
  · next henabled =>
    rw [outcomes_eq hclean] at hstep
    obtain rfl := Option.some.inj hstep
    refine ⟨h.raised, fun i => ?_⟩
    by_cases hi : ∃ p ∈ b.entries, p.1 = i
    · obtain ⟨p, hp, rfl⟩ := hi
      have halone := (Alone.of_nodup henabled.1 (show (p.1, p.2) ∈ b.entries from hp)).map
        fun p => outcome c s b p
      change Right c (writeRows EosSequence.append _ s.sequences p.1)
      rw [writeRows_alone halone]
      exact Right.append hclean hp (h.sequences p.1) (henabled.2 p hp)
    · have hnot : ∀ q ∈ b.entries.map fun p => (p.1, outcome c s b p), q.1 ≠ i := by
        intro q hq heq
        obtain ⟨p, hp, rfl⟩ := List.mem_map.mp hq
        exact hi ⟨p, hp, heq⟩
      change Right c (writeRows EosSequence.append _ s.sequences i)
      rw [writeRows_of_notMem hnot]
      exact h.sequences i
  · cases hstep

theorem allRight_init (c : EosConfig) (ignoreEos : Nat → Bool) : AllRight c (init ignoreEos) := by
  have hno : ¬Contains c [] := by
    rintro ⟨eos, heos, hinfix⟩
    have hnil : eosIds eos = [] := List.infix_nil.mp hinfix
    cases eos with
    | single id => cases hnil
    | composite ids =>
      obtain rfl : ids = [] := hnil
      exact c.valid heos
  refine ⟨rfl, fun i => ⟨rfl, fun _ => ?_, fun _ hmarked => by cases hmarked⟩⟩
  exact iff_of_false (by simp [init]) hno

section Example

/-- An end of two tokens. -/
def endOfTwo : EosConfig where
  eosTokenId := [.composite [3, 4]]
  nonempty := by decide
  valid := by decide

/-- Two drafts, of two tokens and of three. -/
def twoDrafts : Batch where
  path := .memoryDecoding
  entries :=
    [ (0, { tokens := [3, 4], spaceLeft := 9, nonempty := by decide, space := by decide }),
      (1, { tokens := [7, 8, 9], spaceLeft := 9, nonempty := by decide, space := by decide }) ]
  fits := fun _ _ => trivial

/-- A draft of two tokens, which brings the first half of the end, beside one of three. -/
def firstHalf : Batch where
  path := .memoryDecoding
  entries :=
    [ (0, { tokens := [5, 3], spaceLeft := 9, nonempty := by decide, space := by decide }),
      (1, { tokens := [7, 8, 9], spaceLeft := 9, nonempty := by decide, space := by decide }) ]
  fits := fun _ _ => trivial

/-- One token for each of the sequences. -/
def secondHalf : Batch where
  path := .memoryDecoding
  entries :=
    [ (0, { tokens := [4], spaceLeft := 7, nonempty := by decide, space := by decide }),
      (1, { tokens := [3], spaceLeft := 6, nonempty := by decide, space := by decide }) ]
  fits := fun _ _ => trivial

end Example

end EndOfSequence

end MindieLLM
