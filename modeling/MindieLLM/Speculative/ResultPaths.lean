import MindieLLM.Speculative.Lossless
import MindieLLM.TextGenerator.EndOfSequence

/-!
# The two ways to the result of MTP

Where the model runner works synchronously, the accepted tokens of a sequence are cut at its first
end and at the room that it has left, and then padded and filtered. Where it works asynchronously
they are padded first; the filter then cuts the padded rows, looks for the ends, and adjusts the
numbers of new tokens to the room that is left.

## Main definitions

* `Mtp.deliver`: `plugin_verify`, `stop_criteria` and the filter
* `Mtp.deliverExp`: `plugin_verify_exp` and the filter, which truncates and adjusts
* `Mtp.Agree`: both deliver the same
* `Mtp.Fits`: a sequence has room left, and no padding is taken for an end of its answer

## Main results

* `Mtp.not_agree`: padding that is taken for an end
-/

namespace MindieLLM

open Program Truncation

inductive ResponseConfig
  | continue
  | eos
  | reachMaxSeqLen
  | reachMaxOutputLen
  deriving DecidableEq, Repr

namespace Mtp

/-- What the plugin and the filter are made with. -/
structure ResultConfig where
  numSpeculativeTokens : Nat
  eosTokenId : List Eos
  ignoreEos : Bool
  maxSeqLen : Nat
  maxGenLen : Nat

/-- A sequence of a batch: what the model has sampled for it, its draft, and what it has got. -/
structure ResultRow (numSpeculativeTokens : Nat) where
  nextTokens : List Int
  draft : List Int
  ignoreEos : Bool
  /-- `all_output_ids[:output_len_count]` -/
  outputIds : List Int
  seqLen : Nat
  maxOutputLen : Nat
  length_nextTokens : nextTokens.length = numSpeculativeTokens + 1
  length_draft : draft.length = numSpeculativeTokens

/-- What a sequence gets in the step. -/
structure Delivered where
  tokenIds : List Int
  numNewTokens : Nat
  finishReason : ResponseConfig
  deriving DecidableEq, Repr

variable {n : Nat}

def tokenMatrix (batch : List (ResultRow n)) : List Int := batch.flatMap ResultRow.nextTokens

def draftMatrix (batch : List (ResultRow n)) : List Int := batch.flatMap ResultRow.draft

/-! ## The filter -/

def ResultRow.filterRow (r : ResultRow n) (row : TokenRow) : FilterRow :=
  ⟨r.ignoreEos, r.outputIds, row⟩

/-- `filter_by_eos`, unless no ends are looked for at all. -/
def checkedEos (cfg : ResultConfig) (batch : List (ResultRow n)) (rows : List TokenRow) :
    Except PyError (List Bool) :=
  if cfg.ignoreEos then .ok (rows.map fun _ => false)
  else filterByEos cfg.eosTokenId (List.zipWith ResultRow.filterRow batch rows)

def eosReason (checked : Bool) : ResponseConfig := if checked then .eos else .continue

/-- `filter_by_length` -/
def lengthReason (cfg : ResultConfig) (r : ResultRow n) (numNewTokens : Nat)
    (endReason : ResponseConfig) : ResponseConfig :=
  if cfg.maxGenLen ≤ r.outputIds.length + numNewTokens then .reachMaxOutputLen
  else if r.maxOutputLen ≤ r.outputIds.length + numNewTokens then .reachMaxOutputLen
  else if cfg.maxSeqLen ≤ r.seqLen + numNewTokens then .reachMaxSeqLen
  else endReason

def adjustNumNewTokens (cachedLen numNewTokens maxLen : Nat) : Nat :=
  min numNewTokens (maxLen - cachedLen)

/-- The adjustments that `filter_by_length` makes where the model runner works asynchronously. -/
def adjusted (cfg : ResultConfig) (r : ResultRow n) (numNewTokens : Nat) : Nat :=
  let numNewTokens := adjustNumNewTokens r.seqLen numNewTokens cfg.maxSeqLen
  let numNewTokens := adjustNumNewTokens r.outputIds.length numNewTokens r.maxOutputLen
  adjustNumNewTokens r.outputIds.length numNewTokens cfg.maxGenLen

/-- The decision on a row, after the number of its new tokens has been adjusted. -/
def decision (cfg : ResultConfig) (adjust : ResultRow n → Nat → Nat) (r : ResultRow n)
    (found : TokenRow × Bool) : Delivered :=
  let numNewTokens := adjust r found.1.numNewTokens
  { tokenIds := found.1.tokenIds.take numNewTokens
    numNewTokens := numNewTokens
    finishReason := lengthReason cfg r numNewTokens (eosReason found.2) }

/-- The filter on the rows of a batch. -/
def filterFinished (cfg : ResultConfig) (adjust : ResultRow n → Nat → Nat)
    (batch : List (ResultRow n)) (rows : List TokenRow) : Except PyError (List Delivered) := do
  let checked ← checkedEos cfg batch rows
  return List.zipWith (decision cfg adjust) batch (rows.zip checked)

/-! ## The two ways -/

/-- `output_space_left` -/
def outputSpaceLeft (cfg : ResultConfig) (r : ResultRow n) : Int :=
  min (r.maxOutputLen - r.outputIds.length) (cfg.maxSeqLen - r.seqLen)

def gatherTokens (tokens : List Int) (indices : List Nat) : Except PyError (List Int) :=
  match gather tokens indices with
  | some l => .ok l
  | none => .error .indexError

def deliver (cfg : ResultConfig) (batch : List (ResultRow cfg.numSpeculativeTokens)) :
    Except PyError (List Delivered) := do
  let indices := pluginVerify cfg.numSpeculativeTokens (tokenMatrix batch) (draftMatrix batch)
    batch.length
  let tokens ← indices.mapM (gatherTokens (tokenMatrix batch))
  let kept ← (batch.zip tokens).mapM fun p =>
    stopCriteria cfg.eosTokenId (outputSpaceLeft cfg p.1) p.2
  let rows ← reshapeSpeculativeOutputs 0 kept
  filterFinished cfg (fun _ numNewTokens => numNewTokens) batch rows

def deliverExp (cfg : ResultConfig) (batch : List (ResultRow cfg.numSpeculativeTokens)) :
    Except PyError (List Delivered) := do
  let verified := pluginVerifyExp cfg.numSpeculativeTokens 0 (tokenMatrix batch) (draftMatrix batch)
  let rows ← verified.mapM fun v => truncateAfter cfg.eosTokenId ⟨v.tokenIds, v.numNewTokens⟩
  filterFinished cfg (adjusted cfg) batch rows

/-! ## What is asked for -/

/-- Both ways deliver, and the same. -/
def Agree (cfg : ResultConfig) (batch : List (ResultRow cfg.numSpeculativeTokens)) : Prop :=
  ∃ delivered, deliver cfg batch = .ok delivered ∧ deliverExp cfg batch = .ok delivered

/-- The sampled tokens as far as the draft is right, and one more. -/
def ResultRow.accepted (r : ResultRow n) : List Int :=
  r.nextTokens.take (hitLength r.draft r.nextTokens + 1)

/-- There is room in the sequence and in its answer, and the answer may be as long as what is kept;
padding is not taken for an end, unless there is no room for it. -/
structure Fits (cfg : ResultConfig) (ids : List Int) (r : ResultRow n) : Prop where
  seqLen : r.seqLen < cfg.maxSeqLen
  outputLen : r.outputIds.length < r.maxOutputLen
  genLen : min (upTo (isEnd ids) r.accepted).length
      (min (r.maxOutputLen - r.outputIds.length) (cfg.maxSeqLen - r.seqLen)) ≤
    cfg.maxGenLen - r.outputIds.length
  padding : PaddingCounted ids (n + 1) r.accepted →
    r.maxOutputLen - r.outputIds.length ≤ (upTo (isEnd ids) r.accepted).length ∨
      cfg.maxSeqLen - r.seqLen ≤ (upTo (isEnd ids) r.accepted).length ∨
      cfg.maxGenLen - r.outputIds.length ≤ (upTo (isEnd ids) r.accepted).length

variable {cfg : ResultConfig} {ids : List Int} {batch : List (ResultRow n)} {r : ResultRow n}
  {width i : Nat} {l : List Int}

/-! ## Rows -/

theorem slice_flatMap {f : ResultRow n → List Int} {m : Nat} (hf : ∀ r, (f r).length = m)
    (hi : i < batch.length) : slice (batch.flatMap f) (i * m) ((i + 1) * m) = f batch[i] := by
  rw [List.flatMap_def, slice_flatten (n := m) _ (by simpa using hi), List.getElem_map]
  intro l hl
  obtain ⟨r, -, rfl⟩ := List.mem_map.mp hl
  exact hf r

theorem length_flatMap {f : ResultRow n → List Int} {m : Nat} (hf : ∀ r, (f r).length = m) :
    (batch.flatMap f).length = batch.length * m := by
  rw [List.length_flatMap, List.map_congr_left fun r _ => hf r, List.map_const',
    List.sum_replicate_nat]

theorem hitLength_lt (r : ResultRow n) : hitLength r.draft r.nextTokens < n + 1 := by
  have hle := hitLength_le r.draft r.nextTokens
  rw [r.length_draft] at hle
  omega

theorem length_accepted (r : ResultRow n) :
    r.accepted.length = hitLength r.draft r.nextTokens + 1 := by
  have hlt := hitLength_lt r
  rw [ResultRow.accepted, List.length_take, r.length_nextTokens]
  omega

theorem accepted_ne_nil (r : ResultRow n) : r.accepted ≠ [] :=
  List.ne_nil_of_length_eq_add_one (length_accepted r)

theorem length_accepted_le (r : ResultRow n) : r.accepted.length ≤ n + 1 :=
  (length_accepted r).trans_le (hitLength_lt r)

/-- The indices lead to the tokens that are accepted. -/
theorem gather_pluginVerify : (pluginVerify n (tokenMatrix batch) (draftMatrix batch)
    batch.length).mapM (gatherTokens (tokenMatrix batch)) =
      .ok (batch.map ResultRow.accepted) := by
  rw [mapM_eq_ok_iff, List.forall₂_iff_get]
  refine ⟨by simp [pluginVerify], fun i hi _ => ?_⟩
  have hi' : i < batch.length := by simpa [pluginVerify] using hi
  have hend : i * (n + 1) + (n + 1) = (i + 1) * (n + 1) := (Nat.succ_mul i (n + 1)).symm
  have htokens : slice (tokenMatrix batch) (i * (n + 1)) ((i + 1) * (n + 1)) =
      batch[i].nextTokens := slice_flatMap ResultRow.length_nextTokens hi'
  have hdraft : slice (draftMatrix batch) (i * n) ((i + 1) * n) = batch[i].draft :=
    slice_flatMap ResultRow.length_draft hi'
  have hlen : (i + 1) * (n + 1) ≤ (tokenMatrix batch).length := by
    rw [tokenMatrix, length_flatMap ResultRow.length_nextTokens]
    exact Nat.mul_le_mul_right _ hi'
  have hhit := hitLength_lt batch[i]
  simp only [List.get_eq_getElem, pluginVerify, List.getElem_map, List.getElem_range, hend,
    htokens, hdraft]
  unfold gatherTokens
  rw [gather_range'_slice (b := (i + 1) * (n + 1)) (by omega) hlen, htokens]
  rfl

/-- The rows are the tokens that are accepted, and padding. -/
theorem pluginVerifyExp_eq : pluginVerifyExp n 0 (tokenMatrix batch) (draftMatrix batch) =
    batch.map fun r => ⟨(padRow 0 (n + 1) r.accepted).tokenIds, r.accepted.length⟩ := by
  have hlen : (tokenMatrix batch).length / (n + 1) = batch.length := by
    rw [tokenMatrix, length_flatMap ResultRow.length_nextTokens,
      Nat.mul_div_cancel _ (Nat.succ_pos n)]
  unfold pluginVerifyExp
  dsimp only
  rw [hlen]
  refine List.ext_getElem (by simp) fun i hi _ => ?_
  have hi' : i < batch.length := by simpa using hi
  have htokens : slice (tokenMatrix batch) (i * (n + 1)) ((i + 1) * (n + 1)) =
      batch[i].nextTokens := slice_flatMap ResultRow.length_nextTokens hi'
  have hdraft : slice (draftMatrix batch) (i * n) ((i + 1) * n) = batch[i].draft :=
    slice_flatMap ResultRow.length_draft hi'
  have hsum := sum_cumprod (d := batch[i].draft) (r := batch[i].nextTokens)
  rw [batch[i].length_draft] at hsum
  have hmask (k : Nat) : (batch[i].nextTokens.mapIdx fun j x => if j < k + 1 then x else 0) =
      batch[i].nextTokens.take (k + 1) ++ List.replicate (n + 1 - (k + 1)) 0 := by
    rw [← batch[i].length_nextTokens, ← mapIdx_cut]
    congr 1
    funext j x
    split_ifs <;> first | rfl | omega
  simp only [List.getElem_map, List.getElem_range, htokens, hdraft, hsum]
  rw [hmask, length_accepted, padRow, length_accepted]
  rfl

/-! ## The filter on padded rows -/

/-- The last token is an end that is looked for. -/
def found (cfg : ResultConfig) (ids : List Int) (r : ResultRow n) (l : List Int) : Bool :=
  !cfg.ignoreEos && (l.getLast?.any (isEnd ids) && !r.ignoreEos)

def delivered (cfg : ResultConfig) (ids : List Int) (r : ResultRow n) (l : List Int) (m : Nat) :
    Delivered where
  tokenIds := l.take m
  numNewTokens := m
  finishReason := lengthReason cfg r m (eosReason (found cfg ids r l))

theorem any_beq (t : Int) (ids : List Int) : (ids.map fun e => t == e).any id = isEnd ids t := by
  induction ids with
  | nil => rfl
  | cons e ids ih =>
    rw [List.map_cons, List.any_cons, ih]
    by_cases ht : t = e <;> simp [isEnd, ht]

theorem filterRowByEos_padRow (r : ResultRow n) (hl : l ≠ []) :
    filterRowByEos (ids.map .single) (r.filterRow (padRow 0 width l)) =
      .ok (l.getLast?.any (isEnd ids) && !r.ignoreEos) := by
  have hchecks : (ids.map Eos.single).mapM (checkEos (r.filterRow (padRow 0 width l))) =
      .ok (ids.map fun e => l.getLast hl == e) := by
    rw [mapM_eq_ok_iff, List.forall₂_map_left_iff, List.forall₂_map_right_iff, List.forall₂_same]
    intro e _
    unfold checkEos
    rw [show (r.filterRow (padRow 0 width l)).row = padRow 0 width l from rfl,
      EndOfSequence.lastNewToken_padRow 0 width hl]
  unfold filterRowByEos
  rw [hchecks]
  simp only [any_beq, List.getLast?_eq_getLast_of_ne_nil hl, Option.any_some]
  rfl

theorem checkedEos_eq (heos : cfg.eosTokenId = ids.map .single) {f : ResultRow n → List Int}
    (hf : ∀ r, f r ≠ []) : checkedEos cfg batch (batch.map fun r => padRow 0 width (f r)) =
      .ok (batch.map fun r => found cfg ids r (f r)) := by
  unfold checkedEos found
  cases cfg.ignoreEos with
  | true => simp
  | false =>
    have hrows : List.zipWith ResultRow.filterRow batch
        (batch.map fun r => padRow 0 width (f r)) =
        batch.map fun r => r.filterRow (padRow 0 width (f r)) := by
      rw [List.zipWith_map_right, List.zipWith_self]
    rw [if_neg Bool.false_ne_true, hrows, filterByEos, List.mapM_map, heos]
    refine mapM_eq_ok_map _ fun r _ => ?_
    rw [Function.comp_apply, filterRowByEos_padRow r (hf r)]
    rfl

theorem filterFinished_eq (heos : cfg.eosTokenId = ids.map .single) {f : ResultRow n → List Int}
    (hf : ∀ r, f r ≠ []) {adjust : ResultRow n → Nat → Nat} (hadjust : ∀ r m, adjust r m ≤ m) :
    filterFinished cfg adjust batch (batch.map fun r => padRow 0 width (f r)) =
      .ok (batch.map fun r => delivered cfg ids r (f r) (adjust r (f r).length)) := by
  unfold filterFinished
  rw [checkedEos_eq heos hf]
  change Except.ok _ = _
  congr 1
  rw [List.zip_map', List.zipWith_map_right, List.zipWith_self]
  refine List.map_congr_left fun r _ => ?_
  have hle := hadjust r (f r).length
  unfold decision delivered
  dsimp only [padRow]
  rw [List.take_append_of_le_length hle]

/-! ## What both ways deliver -/

def kept (cfg : ResultConfig) (ids : List Int) (r : ResultRow n) : List Int :=
  (upTo (isEnd ids) r.accepted).take
    (if outputSpaceLeft cfg r ≤ 0 then 1 else outputSpaceLeft cfg r).toNat

theorem kept_ne_nil (r : ResultRow n) : kept cfg ids r ≠ [] := by
  intro h
  rcases List.take_eq_nil_iff.mp h with h | h
  · split at h <;> omega
  · exact upTo_ne_nil (accepted_ne_nil r) h

/-- The tokens of an asynchronous row that are counted as new. -/
def counted (ids : List Int) (r : ResultRow n) : List Int :=
  ids.foldl (cutTokens (n + 1)) r.accepted

theorem areNumbers (ids : List Int) : AreNumbers (ids.map .single) ids := by
  rw [AreNumbers, List.forall₂_map_left_iff, List.forall₂_same]
  exact fun _ _ => .inl rfl

theorem reshapeSpeculativeOutputs_eq {f : ResultRow n → List Int} (hf : ∀ r, f r ≠ []) :
    reshapeSpeculativeOutputs 0 (batch.map f) = .ok (batch.map fun r =>
      padRow 0 (((batch.map f).map List.length).foldl max 0) (f r)) := by
  have hnil : ¬(batch.map f).any List.isEmpty := by
    rw [List.any_eq_true]
    rintro ⟨l, hl, hempty⟩
    obtain ⟨r, -, rfl⟩ := List.mem_map.mp hl
    exact hf r (List.isEmpty_iff.mp hempty)
  rw [reshapeSpeculativeOutputs, if_neg hnil, List.map_map]
  rfl

theorem ok_bind {ε α β : Type} (a : α) (f : α → Except ε β) :
    ((Except.ok a : Except ε α) >>= f) = f a := rfl

theorem deliver_eq {batch : List (ResultRow cfg.numSpeculativeTokens)}
    (heos : cfg.eosTokenId = ids.map .single) : deliver cfg batch =
      .ok (batch.map fun r => delivered cfg ids r (kept cfg ids r) (kept cfg ids r).length) := by
  have hkept : ((batch.zip (batch.map ResultRow.accepted)).mapM fun p =>
      stopCriteria cfg.eosTokenId (outputSpaceLeft cfg p.1) p.2) =
        .ok (batch.map (kept cfg ids)) := by
    rw [← List.map_prod_left_eq_zip, List.mapM_map]
    refine mapM_eq_ok_map _ fun r _ => ?_
    rw [Function.comp_apply, heos]
    exact stopCriteria_eq (areNumbers ids)
  unfold deliver
  simp only [gather_pluginVerify, ok_bind, hkept, reshapeSpeculativeOutputs_eq kept_ne_nil]
  exact filterFinished_eq heos kept_ne_nil fun _ _ => le_rfl

theorem counted_ne_nil (r : ResultRow n) : counted ids r ≠ [] := by
  have hupTo := upTo_ne_nil (p := isEnd ids) (accepted_ne_nil r)
  rcases foldl_cutTokens (n + 1) r.accepted ids with ⟨-, h⟩ | ⟨-, -, -, h⟩
  · rwa [counted, h]
  · rw [counted, h]
    exact List.append_ne_nil_of_left_ne_nil hupTo _

theorem adjusted_le (r : ResultRow n) (m : Nat) : adjusted cfg r m ≤ m := by
  simp only [adjusted, adjustNumNewTokens]
  omega

theorem deliverExp_eq {batch : List (ResultRow cfg.numSpeculativeTokens)}
    (heos : cfg.eosTokenId = ids.map .single) : deliverExp cfg batch =
      .ok (batch.map fun r =>
        delivered cfg ids r (counted ids r) (adjusted cfg r (counted ids r).length)) := by
  have hrows : (pluginVerifyExp cfg.numSpeculativeTokens 0 (tokenMatrix batch)
      (draftMatrix batch)).mapM
        (fun v => truncateAfter cfg.eosTokenId ⟨v.tokenIds, v.numNewTokens⟩) =
        .ok (batch.map fun r => padRow 0 (cfg.numSpeculativeTokens + 1) (counted ids r)) := by
    rw [pluginVerifyExp_eq, List.mapM_map]
    refine mapM_eq_ok_map _ fun r _ => ?_
    rw [Function.comp_apply, heos]
    exact truncateAfter_padRow (areNumbers ids) (length_accepted_le r)
  unfold deliverExp
  dsimp only
  rw [hrows]
  exact filterFinished_eq heos counted_ne_nil adjusted_le

/-! ## When they are the same -/

/-- The beginning of what is counted is what is kept. -/
theorem take_counted {m : Nat} (hm : m ≤ (upTo (isEnd ids) r.accepted).length) :
    (counted ids r).take m = (upTo (isEnd ids) r.accepted).take m := by
  rcases foldl_cutTokens (n + 1) r.accepted ids with ⟨-, h⟩ | ⟨-, -, -, h⟩
  · rw [counted, h]
  · rw [counted, h, List.take_append_of_le_length hm]

/-- What is counted is what is kept up to the first end, or one token of the padding more. -/
theorem length_counted (ids : List Int) (r : ResultRow n) :
    (¬PaddingCounted ids (n + 1) r.accepted ∧ counted ids r = upTo (isEnd ids) r.accepted) ∨
      PaddingCounted ids (n + 1) r.accepted ∧
        (counted ids r).length = (upTo (isEnd ids) r.accepted).length + 1 := by
  rcases foldl_cutTokens (n + 1) r.accepted ids with ⟨hno, h⟩ | ⟨hpadding, -, -, h⟩
  · exact .inl ⟨hno, h⟩
  · exact .inr ⟨hpadding, by rw [counted, h, List.length_append, List.length_singleton]⟩

/-- What is kept in a room, at least one token, against what is counted and adjusted. -/
theorem min_eq_min_iff {u c room gen : Nat} (hu : 0 < u) (hc : c = u ∨ c = u + 1) :
    min (max 1 room) u = min c (min room gen) ↔
      0 < room ∧ min u room ≤ gen ∧ (c = u + 1 → room ≤ u ∨ gen ≤ u) := by
  rcases Nat.eq_zero_or_pos room with rfl | hroom
  · omega
  · rw [Nat.max_eq_right hroom]
    rcases hc with rfl | rfl <;> omega

/-- The room that is left to a sequence. -/
def room (cfg : ResultConfig) (r : ResultRow n) : Nat :=
  min (r.maxOutputLen - r.outputIds.length) (cfg.maxSeqLen - r.seqLen)

theorem length_kept (r : ResultRow n) : (kept cfg ids r).length =
    min (max 1 (room cfg r)) (upTo (isEnd ids) r.accepted).length := by
  have hspace : (if outputSpaceLeft cfg r ≤ 0 then 1 else outputSpaceLeft cfg r).toNat =
      max 1 (room cfg r) := by
    unfold outputSpaceLeft room
    split <;> omega
  rw [kept, List.length_take, hspace]

theorem adjusted_eq (r : ResultRow n) (m : Nat) :
    adjusted cfg r m = min m (min (room cfg r) (cfg.maxGenLen - r.outputIds.length)) := by
  simp only [adjusted, adjustNumNewTokens, room]
  rw [Nat.min_assoc m, Nat.min_comm (cfg.maxSeqLen - r.seqLen), Nat.min_assoc m]

/-- The numbers of new tokens are the same. -/
theorem adjusted_eq_iff (r : ResultRow n) : (kept cfg ids r).length =
    adjusted cfg r (counted ids r).length ↔ Fits cfg ids r := by
  have hpos := List.length_pos_iff.mpr (upTo_ne_nil (p := isEnd ids) (accepted_ne_nil r))
  have hroom : 0 < room cfg r ↔ r.seqLen < cfg.maxSeqLen ∧ r.outputIds.length < r.maxOutputLen := by
    unfold room
    omega
  have hleft (u : Nat) : room cfg r ≤ u ↔
      r.maxOutputLen - r.outputIds.length ≤ u ∨ cfg.maxSeqLen - r.seqLen ≤ u := by
    unfold room
    omega
  have hcounted : (counted ids r).length = (upTo (isEnd ids) r.accepted).length ∨
      (counted ids r).length = (upTo (isEnd ids) r.accepted).length + 1 := by
    rcases length_counted ids r with ⟨-, h⟩ | ⟨-, h⟩
    · exact .inl (congrArg List.length h)
    · exact .inr h
  have hpadding : (counted ids r).length = (upTo (isEnd ids) r.accepted).length + 1 ↔
      PaddingCounted ids (n + 1) r.accepted := by
    rcases length_counted ids r with ⟨hno, h⟩ | ⟨hpad, h⟩
    · rw [h]
      exact iff_of_false (by omega) hno
    · exact iff_of_true h hpad
  rw [length_kept, adjusted_eq, min_eq_min_iff hpos hcounted, hroom, hleft, hpadding]
  constructor
  · rintro ⟨⟨hseq, hout⟩, hgen, hpad⟩
    exact ⟨hseq, hout, hgen, fun h => or_assoc.mp (hpad h)⟩
  · rintro ⟨hseq, hout, hgen, hpad⟩
    exact ⟨⟨hseq, hout⟩, hgen, fun h => or_assoc.mpr (hpad h)⟩

/-- A sequence that has reached a limit is finished for that, whatever its last token is. -/
theorem lengthReason_eq {m : Nat} {reason reason' : ResponseConfig}
    (h : cfg.maxGenLen ≤ r.outputIds.length + m ∨ r.maxOutputLen ≤ r.outputIds.length + m ∨
      cfg.maxSeqLen ≤ r.seqLen + m) :
    lengthReason cfg r m reason = lengthReason cfg r m reason' := by
  unfold lengthReason
  split_ifs <;> first | rfl | omega

/-- The same number of new tokens makes all the same. -/
theorem delivered_eq_iff (r : ResultRow n) :
    delivered cfg ids r (kept cfg ids r) (kept cfg ids r).length =
        delivered cfg ids r (counted ids r) (adjusted cfg r (counted ids r).length) ↔
      Fits cfg ids r := by
  rw [← adjusted_eq_iff]
  refine ⟨fun h => congrArg Delivered.numNewTokens h, fun h => ?_⟩
  rw [← h]
  have hle : (kept cfg ids r).length ≤ (upTo (isEnd ids) r.accepted).length :=
    List.length_take_le' _ _
  have htake : (kept cfg ids r).take (kept cfg ids r).length =
      (counted ids r).take (kept cfg ids r).length := by
    rw [take_counted hle, List.take_length]
    exact List.prefix_iff_eq_take.mp (List.take_prefix _ _)
  have hreason : lengthReason cfg r (kept cfg ids r).length
        (eosReason (found cfg ids r (kept cfg ids r))) =
      lengthReason cfg r (kept cfg ids r).length (eosReason (found cfg ids r (counted ids r))) := by
    by_cases hall : (kept cfg ids r).length = (counted ids r).length
    · rw [hall, List.take_length, ← hall, List.take_length] at htake
      rw [htake]
    · -- tokens are left out where there is no room for them
      refine lengthReason_eq ?_
      rw [h, adjusted_eq] at hall ⊢
      unfold room at hall ⊢
      omega
  unfold delivered
  rw [htake, hreason]

theorem agree_iff {batch : List (ResultRow cfg.numSpeculativeTokens)}
    (heos : cfg.eosTokenId = ids.map .single) :
    Agree cfg batch ↔ ∀ r ∈ batch, Fits cfg ids r := by
  unfold Agree
  rw [deliver_eq heos, deliverExp_eq heos]
  constructor
  · rintro ⟨out, hout, hexp⟩ r hr
    have hmaps := (Except.ok.inj hout).trans (Except.ok.inj hexp).symm
    exact (delivered_eq_iff r).mp (List.map_inj_left.mp hmaps r hr)
  · intro h
    refine ⟨_, rfl, congrArg Except.ok (List.map_inj_left.mpr fun r hr => ?_)⟩
    exact ((delivered_eq_iff r).mpr (h r hr)).symm

/-- All ends are single tokens. -/
def Singles (cfg : ResultConfig) : Prop := ∃ ids : List Int, cfg.eosTokenId = ids.map .single

/-- All ends are single tokens, and all sequences of the batch fit. -/
def AllFit (cfg : ResultConfig) (batch : List (ResultRow n)) : Prop :=
  ∃ ids : List Int, cfg.eosTokenId = ids.map .single ∧ ∀ r ∈ batch, Fits cfg ids r

/-- **Both ways deliver the same**, if all ends are single tokens and all sequences fit; and where
all ends are single tokens, only then. -/
theorem agree_of_allFit (cfg : ResultConfig) (batch : List (ResultRow cfg.numSpeculativeTokens)) :
    (AllFit cfg batch → Agree cfg batch) ∧
      (Singles cfg → (Agree cfg batch ↔ AllFit cfg batch)) := by
  have hfit : AllFit cfg batch → Agree cfg batch := by
    rintro ⟨ids, heos, h⟩
    exact (agree_iff heos).mpr h
  refine ⟨hfit, ?_⟩
  rintro ⟨ids, heos⟩
  exact ⟨fun h => ⟨ids, heos, (agree_iff heos).mp h⟩, hfit⟩

section Example

/-- Two guesses for each sequence. -/
def twoGuesses (eos : Int) : ResultConfig where
  numSpeculativeTokens := 2
  eosTokenId := [.single eos]
  ignoreEos := false
  maxSeqLen := 64
  maxGenLen := 32

/-- The first guess is wrong. -/
def firstWrong : ResultRow 2 where
  nextTokens := [7, 8, 9]
  draft := [6, 8]
  ignoreEos := false
  outputIds := [4]
  seqLen := 11
  maxOutputLen := 9
  length_nextTokens := rfl
  length_draft := rfl

/-- One token is delivered. -/
theorem agree_of_allFit_firstWrong :
    Agree (twoGuesses 2) [firstWrong] ∧
      deliver (twoGuesses 2) [firstWrong] = .ok [⟨[7], 1, .continue⟩] := by
  refine ⟨(agree_of_allFit (twoGuesses 2) [firstWrong]).1 ⟨[2], rfl, fun r hr => ?_⟩, by decide⟩
  rw [List.mem_singleton.mp hr]
  refine ⟨by decide, by decide, by decide, ?_⟩
  -- 0 does not end the answer
  rintro ⟨before, after, heq, -⟩
  have hmem : (0 : Int) ∈ [2] := heq ▸ List.mem_append_right _ List.mem_cons_self
  simp at hmem

/-- Where 0 ends the answer, the padding behind the one token ends it. -/
theorem not_agree : ¬∀ (cfg : ResultConfig) (batch : List (ResultRow cfg.numSpeculativeTokens)),
    Agree cfg batch := by
  intro h
  obtain ⟨out, hout, hexp⟩ := h (twoGuesses 0) [firstWrong]
  have hdeliver : deliver (twoGuesses 0) [firstWrong] = .ok [⟨[7], 1, .continue⟩] := by decide
  have hdeliverExp : deliverExp (twoGuesses 0) [firstWrong] =
      .ok [⟨[7, 0], 2, .eos⟩] := by decide
  rw [hdeliver] at hout
  rw [hdeliverExp] at hexp
  cases hout
  cases hexp

end Example

end Mtp

end MindieLLM
