import MindieLLM.Speculative.ResultPaths
import MindieLLM.TextGenerator.BatchIndependence

/-!
# History of the tokens

A step of look-ahead, memory decoding or MTP brings a sequence several tokens. The plugin cuts off
what is behind the first end of the answer, and what there is no room for; the output filter cuts
again, marks the sequences that have ended, and the context writes the tokens behind those that it
has in rows of a fixed width, in whole columns or, where a row is too short for them, row by row.

The plugins do not look at all of the limits. Look-ahead and memory decoding only look at the length
that the request asks for, MTP not at the greatest length of an answer, so several tokens may not
fit in a row, and the step raises for the whole batch.

## Main definitions

* `TokenHistory.verify`: the rows of a plugin
* `TokenHistory.outcomes`: what the output filter makes of them
* `TokenHistory.step`: a step of a batch
* `TokenHistory.Exact`: the rows of the context hold the prompt and what has been accepted
* `TokenHistory.Fits`: the steps in which they go on to

## Main results

* `TokenHistory.outcomes_eq`: the rows that come out of the filter
* `TokenHistory.newLen_fits`, `TokenHistory.newLen_le_room`: the new tokens fit
* `TokenHistory.GoesOn.final_prefix`: a sequence that goes on gets what has been accepted
-/

namespace MindieLLM

open Program Truncation UpdateContext

namespace TokenHistory

/-! ## Steps -/

inductive Plugin
  | lookAhead
  | memoryDecoding
  | mtp (numSpeculativeTokens : Nat)
  deriving DecidableEq

structure Config where
  context : BatchContextConfig
  plugin : Plugin
  modelRunnerExp : Bool
  eos : EosConfig
  ignoreEos : Bool
  /-- Asynchronous inference and the model runner of the torch backend know no other plugin. -/
  mtp : modelRunnerExp = true ∨ context.contextParams.asyncInfer = true →
    ∃ numSpeculativeTokens, plugin = .mtp numSpeculativeTokens

/-- What a step has for a sequence: the tokens that are accepted, and behind which of them a stop
string or a stop token id is found. -/
structure Entry where
  tokens : List Int
  stoppedAt : Option Nat := none

structure Batch where
  isPrefill : Bool := false
  /-- `sampling_metadata` is not `None`. -/
  hasSampling : Bool := true
  entries : List (SlotIdx × Entry)

inductive Status
  | absent
  | live
  | finished
  deriving DecidableEq

structure State where
  slots : SlotIdx → SlotContext
  prompt : SlotIdx → List Int
  /-- `max_new_tokens` of the request -/
  maxOutputLen : SlotIdx → Nat
  /-- What has been accepted while the sequence was live. -/
  accepted : SlotIdx → List Int
  status : SlotIdx → Status
  raised : Bool := false

variable (cfg : Config) (s : State) (b : Batch)

/-- `max_seq_len` -/
def Config.maxSeqLen : Nat := cfg.context.cacheConfig.maxSeqLen

/-- `max_gen_len` -/
def Config.maxGenLen : Nat := cfg.context.cacheConfig.maxGenLen

def Config.asyncExp : Bool := cfg.modelRunnerExp && cfg.context.contextParams.asyncInfer

/-- `batch_max_output_lens - output_token_len` -/
def outputSpaceLeft (p : SlotIdx × Entry) : Int :=
  s.maxOutputLen p.1 - (s.slots p.1).outputLenCount

/-- The room in the sequence. -/
def seqSpaceLeft (p : SlotIdx × Entry) : Int := cfg.maxSeqLen - (s.slots p.1).seqLens

/-- `plugin_verify` of the plugin, once it is known which tokens are accepted. Only look-ahead does
not leave a prefill as it is. -/
def verify : Except PyError (List TokenRow) :=
  if b.isPrefill ∧ cfg.plugin ≠ .lookAhead then
    .ok (b.entries.map fun p => padRow 0 1 p.2.tokens)
  else
    match cfg.plugin with
    | .lookAhead => do
      let kept ← b.entries.mapM fun p =>
        truncateTokenIds cfg.eos.eosTokenId (outputSpaceLeft s p) p.2.tokens
      reshapeSpeculativeOutputs (-1) kept
    | .memoryDecoding =>
      reshapeSpeculativeOutputs (-1)
        (b.entries.map fun p => truncateLongTokens (outputSpaceLeft s p) p.2.tokens)
    | .mtp numSpeculativeTokens =>
      if cfg.asyncExp then
        .ok (b.entries.map fun p => padRow 0 (numSpeculativeTokens + 1) p.2.tokens)
      else do
        let kept ← b.entries.mapM fun p =>
          stopCriteria cfg.eos.eosTokenId (min (outputSpaceLeft s p) (seqSpaceLeft cfg s p))
            p.2.tokens
        reshapeSpeculativeOutputs 0 kept

/-- `truncate_after_eos`, by the model runner of the torch backend. -/
def truncated (rows : List TokenRow) : Except PyError (List TokenRow) :=
  if cfg.modelRunnerExp then rows.mapM (truncateAfter cfg.eos.eosTokenId) else .ok rows

/-- `filter_by_eos`, unless no ends are looked for at all. -/
def checked (rows : List TokenRow) : Except PyError (List Bool) :=
  if cfg.ignoreEos then .ok (rows.map fun _ => false)
  else
    filterByEos cfg.eos.eosTokenId (List.zipWith (fun p row =>
      ⟨(s.slots p.1).ignoreEos, (s.slots p.1).allOutputIds.take (s.slots p.1).outputLenCount, row⟩)
      b.entries rows)

/-- `filter_by_stop` -/
def stopCut (stoppedAt : Option Nat) (numNewTokens : Nat) : Nat :=
  match stoppedAt with
  | some i => min numNewTokens (i + 1)
  | none => numNewTokens

def stopped (stoppedAt : Option Nat) (numNewTokens : Nat) : Bool :=
  match stoppedAt with
  | some i => i < numNewTokens
  | none => false

/-- The adjustments of `filter_by_length`. -/
def adjusted (h : SlotIdx) (numNewTokens : Nat) : Nat :=
  let c := s.slots h
  if cfg.modelRunnerExp then
    let numNewTokens := Mtp.adjustNumNewTokens c.seqLens numNewTokens cfg.maxSeqLen
    let numNewTokens := Mtp.adjustNumNewTokens c.outputLenCount numNewTokens (s.maxOutputLen h)
    Mtp.adjustNumNewTokens c.outputLenCount numNewTokens cfg.maxGenLen
  else numNewTokens

/-- The limits of `filter_by_length`. -/
def exceeds (h : SlotIdx) (numNewTokens : Nat) : Bool :=
  let c := s.slots h
  cfg.maxSeqLen ≤ c.seqLens + numNewTokens || s.maxOutputLen h ≤ c.outputLenCount + numNewTokens ||
    cfg.maxGenLen ≤ c.outputLenCount + numNewTokens

/-- What a step brings a sequence. -/
structure Outcome where
  row : TokenRow
  accepted : List Int
  finished : Bool

/-- The decision of the filter on a sequence. -/
def outcome (p : SlotIdx × Entry) (found : TokenRow × Bool) : Outcome :=
  let numNewTokens := adjusted cfg s p.1 (stopCut p.2.stoppedAt found.1.numNewTokens)
  { row := { found.1 with numNewTokens := numNewTokens }
    accepted := if s.status p.1 = .live then p.2.tokens.take numNewTokens else []
    finished := found.2 || stopped p.2.stoppedAt found.1.numNewTokens ||
      exceeds cfg s p.1 numNewTokens }

/-- `filter_finished_sequences` behind the plugin. -/
def outcomes : Except PyError (List (SlotIdx × Outcome)) := do
  let verified ← verify cfg s b
  let rows ← truncated cfg verified
  let checked ← checked cfg s b rows
  return List.zipWith (fun p found => (p.1, outcome cfg s p found)) b.entries (rows.zip checked)

/-- What `update_context` gets. -/
def samplingBatch (found : List (SlotIdx × Outcome)) : SamplingBatch where
  width := (found.map fun o => o.2.row.tokenIds.length).foldl max 0
  entries := found.map fun o =>
    (some o.1, { tokenIds := o.2.row.tokenIds, numNewTokens := o.2.row.numNewTokens })
  hasSampling := b.hasSampling
  isPrefill := b.isPrefill

/-- So many tokens can be accepted: one more than are guessed. -/
def Plugin.Accepts : Plugin → Nat → Prop
  | .mtp numSpeculativeTokens, n => n ≤ numSpeculativeTokens + 1
  | _, _ => True

instance (plugin : Plugin) (n : Nat) : Decidable (plugin.Accepts n) :=
  match plugin with
  | .mtp _ => inferInstanceAs (Decidable (_ ≤ _))
  | .lookAhead | .memoryDecoding => inferInstanceAs (Decidable True)

/-- A sequence that a batch may hold: a live one, and where inference is asynchronous one that has
finished while the batch was made. -/
def Takes (status : Status) : Prop :=
  status = .live ∨ status = .finished ∧ cfg.context.contextParams.asyncInfer = true

instance (status : Status) : Decidable (Takes cfg status) := inferInstanceAs (Decidable (_ ∨ _))

/-- The sequences of a batch are different, and have slots of their own. -/
def Enabled : Prop :=
  s.raised = false ∧ b.entries ≠ [] ∧ (b.entries.map Prod.fst).Nodup ∧
    ∀ p ∈ b.entries, p.1 ≠ 0 ∧ Takes cfg (s.status p.1) ∧ p.2.tokens ≠ [] ∧
      if b.isPrefill then p.2.tokens.length = 1 else cfg.plugin.Accepts p.2.tokens.length

instance : Decidable (Enabled cfg s b) :=
  have : ∀ p ∈ b.entries, Decidable (p.1 ≠ 0 ∧ Takes cfg (s.status p.1) ∧ p.2.tokens ≠ [] ∧
      if b.isPrefill then p.2.tokens.length = 1 else cfg.plugin.Accepts p.2.tokens.length) :=
    fun _ _ => inferInstance
  inferInstanceAs (Decidable (_ ∧ _))

/-- A step with its postprocessing. -/
def decode : State :=
  match outcomes cfg s b with
  | .error _ => { s with raised := true }
  | .ok found =>
    match updateContext cfg.context (samplingBatch b found) s.slots with
    | .error _ slots =>
      { s with
        slots := slots
        raised := true }
    | .ok _ slots =>
      { s with
        slots := slots
        accepted := writeRows (fun tokens o => tokens ++ o.accepted) found s.accepted
        status := writeRows (fun status o => if o.finished then .finished else status) found
          s.status }

def step : Option State := if Enabled cfg s b then some (decode cfg s b) else none

/-! ## What is asked for -/

/-- Before the first step: the prompts have been written, and leave room for an answer. -/
structure Started : Prop where
  raised : s.raised = false
  accepted : ∀ h, s.accepted h = []
  prompt : ∀ h, (s.prompt h).length < cfg.maxSeqLen
  slots : ∀ h, s.status h = .live → (s.slots h).seqLens = (s.prompt h).length ∧
    (s.slots h).outputLenCount = 0 ∧ (s.slots h).allInputIds.take (s.prompt h).length = s.prompt h
  widths : ∀ h, (s.slots h).allInputIds.length = cfg.context.allInputWidth ∧
    (s.slots h).allOutputIds.length = cfg.context.allOutputWidth
  limits : ∀ h, s.status h = .live → 0 < s.maxOutputLen h ∧ 0 < cfg.maxGenLen

/-- The history of the tokens is exact and in bounds. -/
structure Exact : Prop where
  raised : s.raised = false
  allOutputIds : ∀ h, s.status h = .live →
    (s.slots h).allOutputIds.take (s.slots h).outputLenCount = s.accepted h
  allInputIds : ∀ h, s.status h = .live →
    (s.slots h).allInputIds.take (s.slots h).seqLens = s.prompt h ++ s.accepted h
  seqLens : ∀ h, s.status h = .live →
    (s.slots h).seqLens = (s.prompt h).length + (s.accepted h).length
  maxSeqLen : ∀ h, (s.prompt h).length + (s.accepted h).length ≤ cfg.maxSeqLen

/-- `update_context`, where the tokens are always written row by row. -/
def updateContextSliced (context : BatchContextConfig) (b : SamplingBatch) : SlotsM PUnit :=
  updateContextWith context (b.updating.forM (updateSlice context b.hasSampling)) b

/-- Both ways to write the tokens come to the same. -/
def SameBranches : Prop :=
  ∀ found, outcomes cfg s b = .ok found → ∀ h,
    sequenceState (after (updateContext cfg.context (samplingBatch b found)) s.slots h) =
      sequenceState (after (updateContextSliced cfg.context (samplingBatch b found)) s.slots h)

/-! ## Where the tokens fit -/

/-- The token is found among the ends. -/
def isEosToken (t : Int) : Bool :=
  match inEosTokenId t cfg.eos.eosTokenId with
  | .ok found => found
  | .error _ => false

/-- The tokens up to the first end can be compared with the ends. -/
def Comparable (tokens : List Int) : Prop :=
  ∀ t ∈ upTo (isEosToken cfg) tokens, ∃ found, inEosTokenId t cfg.eos.eosTokenId = .ok found

/-- How many tokens the plugin keeps: those up to the first end, as far as there is room. -/
def keptLen (p : SlotIdx × Entry) : Nat :=
  if b.isPrefill ∧ cfg.plugin ≠ .lookAhead then p.2.tokens.length
  else
    match cfg.plugin with
    | .lookAhead =>
      min (upTo (isEosToken cfg) p.2.tokens).length (outputSpaceLeft s p).toNat
    | .memoryDecoding => min p.2.tokens.length (outputSpaceLeft s p).toNat
    | .mtp _ =>
      if cfg.asyncExp then p.2.tokens.length
      else
        min (upTo (isEosToken cfg) p.2.tokens).length
          (max 1 (min (outputSpaceLeft s p) (seqSpaceLeft cfg s p)).toNat)

def kept (p : SlotIdx × Entry) : List Int := p.2.tokens.take (keptLen cfg s b p)

/-- The columns of the rows. -/
def width : Nat :=
  if b.isPrefill ∧ cfg.plugin ≠ .lookAhead then 1
  else
    match cfg.plugin with
    | .mtp numSpeculativeTokens =>
      if cfg.asyncExp then numSpeculativeTokens + 1
      else (b.entries.map fun p => (kept cfg s b p).length).foldl max 0
    | _ => (b.entries.map fun p => (kept cfg s b p).length).foldl max 0

/-- There is room for more than so many tokens, and no stop string among them. -/
def Spare (p : SlotIdx × Entry) (n : Nat) : Prop :=
  (s.slots p.1).seqLens + n < cfg.maxSeqLen ∧
    (s.slots p.1).outputLenCount + n < s.maxOutputLen p.1 ∧
    (s.slots p.1).outputLenCount + n < cfg.maxGenLen ∧ ∀ i, p.2.stoppedAt = some i → n < i

/-- The steps in which the tokens fit. -/
structure Fits : Prop where
  sampling : b.hasSampling = true
  /-- A plugin that looks for the end finds it, or compares all tokens. -/
  compared : ¬(b.isPrefill ∧ cfg.plugin ≠ .lookAhead) → cfg.plugin ≠ .memoryDecoding →
    cfg.asyncExp = false → ∀ p ∈ b.entries, Comparable cfg p.2.tokens
  /-- The torch backend compares rows with numbers only. -/
  numbers : cfg.modelRunnerExp = true →
    AreNumbers cfg.eos.eosTokenId (EndOfSequence.numbers cfg.eos.eosTokenId)
  /-- Where an end does not end the answer, it is not found in the padding. -/
  padding : cfg.modelRunnerExp = true → ∀ p ∈ b.entries,
    cfg.ignoreEos = true ∨ (s.slots p.1).ignoreEos = true →
    PaddingCounted (EndOfSequence.numbers cfg.eos.eosTokenId) (width cfg s b) (kept cfg s b p) →
    ¬Spare cfg s p (upTo (isEnd (EndOfSequence.numbers cfg.eos.eosTokenId))
      (kept cfg s b p)).length
  /-- Without the adjustments of the torch backend, several tokens fit in the rows. -/
  rows : cfg.modelRunnerExp = false → ∀ p ∈ b.entries,
    stopCut p.2.stoppedAt (keptLen cfg s b p) ≤ 1 ∨
      (s.slots p.1).seqLens + stopCut p.2.stoppedAt (keptLen cfg s b p) ≤
          cfg.context.allInputWidth ∧
        (s.slots p.1).outputLenCount + stopCut p.2.stoppedAt (keptLen cfg s b p) ≤
          cfg.context.allOutputWidth

variable {cfg s b} {s' : State} {p : SlotIdx × Entry} {tokens : List Int} {t : Int} {space : Int}
  {h : SlotIdx}

/-! ## The rows -/

theorem eosLoop_eq (hcompared : Comparable cfg tokens) :
    eosLoop cfg.eos.eosTokenId tokens = .ok (upTo (isEosToken cfg) tokens).length := by
  induction tokens with
  | nil => rfl
  | cons t tokens ih =>
    obtain ⟨found, hfound⟩ : ∃ found, inEosTokenId t cfg.eos.eosTokenId = .ok found := by
      refine hcompared t ?_
      rw [upTo]
      split <;> exact List.mem_cons_self
    have hisEos : isEosToken cfg t = found := by rw [isEosToken, hfound]
    rw [eosLoop, hfound]
    cases found with
    | true => rw [upTo_cons_of_pos hisEos]; rfl
    | false =>
      have hrest : Comparable cfg tokens := by
        intro t' ht'
        refine hcompared t' ?_
        rw [upTo_cons_of_neg hisEos]
        exact List.mem_cons_of_mem _ ht'
      rw [upTo_cons_of_neg hisEos, ih hrest]
      rfl

theorem truncateTokenIds_eq (hcompared : Comparable cfg tokens) (hspace : 0 < space) :
    truncateTokenIds cfg.eos.eosTokenId space tokens =
      .ok (tokens.take (min (upTo (isEosToken cfg) tokens).length space.toNat)) := by
  have hmin : (if space < ((upTo (isEosToken cfg) tokens).length : Int) then space
      else ((upTo (isEosToken cfg) tokens).length : Int)).toNat =
      min (upTo (isEosToken cfg) tokens).length space.toNat := by
    split <;> omega
  unfold truncateTokenIds
  rw [eosLoop_eq hcompared]
  change Except.ok (sliceTo tokens _) = _
  rw [sliceTo_of_nonneg (by split <;> omega), hmin]

theorem stopCriteria_eq (hcompared : Comparable cfg tokens) :
    stopCriteria cfg.eos.eosTokenId space tokens =
      .ok (tokens.take (min (upTo (isEosToken cfg) tokens).length (max 1 space.toNat))) := by
  have hroom : (if space ≤ 0 then 1 else space).toNat = max 1 space.toNat := by
    split <;> omega
  rw [stopCriteria, truncateTokenIds_eq hcompared (by split <;> omega), hroom]

theorem truncateLongTokens_eq (hspace : 0 < space) :
    truncateLongTokens space tokens = tokens.take (min tokens.length space.toNat) := by
  rw [Truncation.truncateLongTokens_eq hspace, Nat.min_comm, ← List.take_take, List.take_length]

theorem modelRunnerExp_eq_false (hmtp : ∀ n, cfg.plugin ≠ .mtp n) :
    cfg.modelRunnerExp = false := by
  cases hexp : cfg.modelRunnerExp with
  | false => rfl
  | true =>
    obtain ⟨n, hn⟩ := cfg.mtp (.inl hexp)
    exact absurd hn (hmtp n)

theorem asyncExp_eq_false (hmtp : ∀ n, cfg.plugin ≠ .mtp n) : cfg.asyncExp = false := by
  rw [Config.asyncExp, modelRunnerExp_eq_false hmtp, Bool.false_and]

/-- There is room in a live sequence. -/
def Roomy (cfg : Config) (s : State) (h : SlotIdx) : Prop :=
  (s.slots h).seqLens < cfg.maxSeqLen ∧ (s.slots h).outputLenCount < s.maxOutputLen h ∧
    (s.slots h).outputLenCount < cfg.maxGenLen

/-- Only MTP has sequences in a batch that are not live. -/
theorem roomy_of_enabled (henabled : Enabled cfg s b)
    (hroomy : ∀ h, s.status h = .live → Roomy cfg s h) (hmtp : ∀ n, cfg.plugin ≠ .mtp n)
    (hp : p ∈ b.entries) : Roomy cfg s p.1 := by
  obtain ⟨-, -, -, hentries⟩ := henabled
  rcases (hentries p hp).2.1 with hlive | ⟨-, hasync⟩
  · exact hroomy p.1 hlive
  · obtain ⟨n, hn⟩ := cfg.mtp (.inr hasync)
    exact absurd hn (hmtp n)

theorem keptLen_pos (henabled : Enabled cfg s b)
    (hroomy : ∀ h, s.status h = .live → Roomy cfg s h) (hp : p ∈ b.entries) :
    0 < keptLen cfg s b p := by
  have hne : p.2.tokens ≠ [] := (henabled.2.2.2 p hp).2.2.1
  have hpos : 0 < p.2.tokens.length := List.length_pos_iff.mpr hne
  have hupTo : 0 < (upTo (isEosToken cfg) p.2.tokens).length :=
    List.length_pos_iff.mpr (upTo_ne_nil hne)
  have hspace (hmtp : ∀ n, cfg.plugin ≠ .mtp n) : 0 < (outputSpaceLeft s p).toNat := by
    have hroom := (roomy_of_enabled henabled hroomy hmtp hp).2.1
    unfold outputSpaceLeft
    omega
  unfold keptLen
  split
  · exact hpos
  split
  next hplugin =>
    have := hspace fun n hn => by rw [hplugin] at hn; cases hn
    omega
  next hplugin =>
    have := hspace fun n hn => by rw [hplugin] at hn; cases hn
    omega
  next => split <;> omega

theorem kept_ne_nil (henabled : Enabled cfg s b)
    (hroomy : ∀ h, s.status h = .live → Roomy cfg s h) (hp : p ∈ b.entries) :
    kept cfg s b p ≠ [] := by
  have hne : p.2.tokens ≠ [] := (henabled.2.2.2 p hp).2.2.1
  have hpos := keptLen_pos henabled hroomy hp
  exact fun hnil => (List.take_eq_nil_iff.mp hnil).elim (by omega) hne

def padTokenId (cfg : Config) (b : Batch) : Int :=
  if b.isPrefill ∧ cfg.plugin ≠ .lookAhead then 0
  else
    match cfg.plugin with
    | .mtp _ => 0
    | _ => -1

/-- The rows of what is kept are padded to the longest. -/
theorem reshape_eq (padTokenId : Int) (hnil : ∀ p ∈ b.entries, kept cfg s b p ≠ []) :
    reshapeSpeculativeOutputs padTokenId (b.entries.map (kept cfg s b)) =
      .ok (b.entries.map fun p => padRow padTokenId
        ((b.entries.map fun p => (kept cfg s b p).length).foldl max 0) (kept cfg s b p)) := by
  have hany : ¬(b.entries.map (kept cfg s b)).any List.isEmpty := by
    rw [List.any_eq_true]
    rintro ⟨l, hl, hempty⟩
    obtain ⟨p, hp, rfl⟩ := List.mem_map.mp hl
    exact hnil p hp (List.isEmpty_iff.mp hempty)
  rw [reshapeSpeculativeOutputs, if_neg hany, List.map_map, List.map_map]
  rfl

theorem verify_eq (henabled : Enabled cfg s b)
    (hroomy : ∀ h, s.status h = .live → Roomy cfg s h) (hfits : Fits cfg s b) :
    verify cfg s b = .ok (b.entries.map fun p =>
      padRow (padTokenId cfg b) (width cfg s b) (kept cfg s b p)) := by
  have hnil : ∀ p ∈ b.entries, kept cfg s b p ≠ [] := fun p hp => kept_ne_nil henabled hroomy hp
  unfold verify padTokenId width
  by_cases hprefill : b.isPrefill ∧ cfg.plugin ≠ .lookAhead
  · refine (if_pos hprefill).trans (congrArg Except.ok (List.map_congr_left fun p _ => ?_))
    simp only [kept, keptLen, if_pos hprefill, List.take_length]
  · have hcompared := hfits.compared hprefill
    simp only [if_neg hprefill]
    cases hplugin : cfg.plugin with
    | lookAhead =>
      have hmtp : ∀ n, cfg.plugin ≠ .mtp n := fun n hn => by rw [hplugin] at hn; cases hn
      have hkept := mapM_eq_ok_map b.entries
        (f := fun p => truncateTokenIds cfg.eos.eosTokenId (outputSpaceLeft s p) p.2.tokens)
        (g := kept cfg s b) fun p hp => by
          have hroom := (roomy_of_enabled henabled hroomy hmtp hp).2.1
          rw [truncateTokenIds_eq
            (hcompared (by rw [hplugin]; exact nofun) (asyncExp_eq_false hmtp) p hp)
            (by unfold outputSpaceLeft; omega), kept, keptLen, if_neg hprefill, hplugin]
      simp only [hkept]
      exact reshape_eq (-1) hnil
    | memoryDecoding =>
      have hmtp : ∀ n, cfg.plugin ≠ .mtp n := fun n hn => by rw [hplugin] at hn; cases hn
      have hkept : (b.entries.map fun p =>
          truncateLongTokens (outputSpaceLeft s p) p.2.tokens) = b.entries.map (kept cfg s b) :=
        List.map_congr_left fun p hp => by
          have hroom := (roomy_of_enabled henabled hroomy hmtp hp).2.1
          rw [truncateLongTokens_eq (by unfold outputSpaceLeft; omega), kept, keptLen,
            if_neg hprefill, hplugin]
      simp only [hkept]
      exact reshape_eq (-1) hnil
    | mtp n =>
      cases hexp : cfg.asyncExp with
      | true =>
        refine congrArg Except.ok (List.map_congr_left fun p _ => ?_)
        simp only [kept, keptLen, hplugin, hexp, if_true, ite_self, List.take_length]
      | false =>
        have hkept := mapM_eq_ok_map b.entries
          (f := fun p => stopCriteria cfg.eos.eosTokenId
            (min (outputSpaceLeft s p) (seqSpaceLeft cfg s p)) p.2.tokens)
          (g := kept cfg s b) fun p hp => by
            rw [stopCriteria_eq (hcompared (by rw [hplugin]; exact nofun) hexp p hp), kept, keptLen,
              if_neg hprefill, hplugin, hexp]
            rfl
        simp only [Bool.false_eq_true, if_false, hkept]
        exact reshape_eq 0 hnil

/-! ## The output filter -/

/-- What is kept, after the rows have been truncated. -/
def final (cfg : Config) (s : State) (b : Batch) (p : SlotIdx × Entry) : List Int :=
  if cfg.modelRunnerExp then
    (EndOfSequence.numbers cfg.eos.eosTokenId).foldl (cutTokens (width cfg s b)) (kept cfg s b p)
  else kept cfg s b p

theorem padTokenId_eq_zero (hexp : cfg.modelRunnerExp = true) : padTokenId cfg b = 0 := by
  obtain ⟨n, hn⟩ := cfg.mtp (.inl hexp)
  unfold padTokenId
  rw [hn]
  split <;> rfl

theorem le_foldl_max {α : Type} {f : α → Nat} {l : List α} {x : α} (hx : x ∈ l) (n : Nat) :
    f x ≤ (l.map f).foldl max n := by
  have hstart (l : List Nat) (n : Nat) : n ≤ l.foldl max n := by
    induction l generalizing n with
    | nil => exact le_rfl
    | cons m l ih => exact (Nat.le_max_left n m).trans (ih _)
  induction l generalizing n with
  | nil => cases hx
  | cons y l ih =>
    rcases List.mem_cons.mp hx with rfl | hx
    · exact (Nat.le_max_right n _).trans (hstart _ _)
    · exact ih hx _

theorem length_kept_le (henabled : Enabled cfg s b) (hp : p ∈ b.entries) :
    (kept cfg s b p).length ≤ width cfg s b := by
  have haccepts := (henabled.2.2.2 p hp).2.2.2
  have hlongest := le_foldl_max (f := fun p => (kept cfg s b p).length) hp 0
  have hle : (kept cfg s b p).length ≤ p.2.tokens.length := (List.take_sublist _ _).length_le
  unfold width
  split
  next hprefill =>
    rw [if_pos hprefill.1] at haccepts
    exact hle.trans haccepts.le
  next hprefill =>
  split
  · next n hplugin =>
    have hdecode : ¬b.isPrefill = true := fun h => hprefill ⟨h, by rw [hplugin]; exact nofun⟩
    rw [if_neg hdecode, hplugin] at haccepts
    split
    · exact hle.trans haccepts
    · exact hlongest
  · exact hlongest

theorem length_foldl_cutTokens_le {w : Nat} (ids : List Int) {u : List Int} (hu : u.length ≤ w) :
    (ids.foldl (cutTokens w) u).length ≤ w := by
  induction ids generalizing u with
  | nil => exact hu
  | cons e ids ih => exact ih (length_cutTokens_le hu e)

theorem length_final_le (henabled : Enabled cfg s b) (hp : p ∈ b.entries) :
    (final cfg s b p).length ≤ width cfg s b := by
  unfold final
  split
  · exact length_foldl_cutTokens_le _ (length_kept_le henabled hp)
  · exact length_kept_le henabled hp

/-- The tokens that are left are the first that are kept, or one of the padding is counted. -/
theorem final_cases (cfg : Config) (s : State) (b : Batch) (p : SlotIdx × Entry) :
    final cfg s b p <+: kept cfg s b p ∨
      cfg.modelRunnerExp = true ∧
        PaddingCounted (EndOfSequence.numbers cfg.eos.eosTokenId) (width cfg s b)
          (kept cfg s b p) ∧
        final cfg s b p = upTo (isEnd (EndOfSequence.numbers cfg.eos.eosTokenId))
          (kept cfg s b p) ++ [0] := by
  unfold final
  split
  · next hexp =>
    rcases foldl_cutTokens (width cfg s b) (kept cfg s b p)
      (EndOfSequence.numbers cfg.eos.eosTokenId) with ⟨-, hfold⟩ | ⟨hcounted, -, -, hfold⟩
    · exact .inl (hfold ▸ upTo_isPrefix)
    · exact .inr ⟨hexp, hcounted, hfold⟩
  · exact .inl List.prefix_rfl

theorem final_ne_nil (hkept : kept cfg s b p ≠ []) : final cfg s b p ≠ [] := by
  unfold final
  split
  · rcases foldl_cutTokens (width cfg s b) (kept cfg s b p)
      (EndOfSequence.numbers cfg.eos.eosTokenId) with ⟨-, hfold⟩ | ⟨-, -, -, hfold⟩
    · rw [hfold]
      exact upTo_ne_nil hkept
    · rw [hfold]
      exact List.concat_ne_nil _ _
  · exact hkept

/-- The row that the filter looks at. -/
def row (cfg : Config) (s : State) (b : Batch) (p : SlotIdx × Entry) : TokenRow :=
  padRow (padTokenId cfg b) (width cfg s b) (final cfg s b p)

theorem truncated_eq (henabled : Enabled cfg s b) (hfits : Fits cfg s b) :
    truncated cfg (b.entries.map fun p =>
        padRow (padTokenId cfg b) (width cfg s b) (kept cfg s b p)) =
      .ok (b.entries.map (row cfg s b)) := by
  unfold truncated row final
  split
  · next hexp =>
    rw [padTokenId_eq_zero hexp, mapM_eq_ok_iff, List.forall₂_map_left_iff,
      List.forall₂_map_right_iff, List.forall₂_same]
    exact fun p hp => truncateAfter_padRow (hfits.numbers hexp) (length_kept_le henabled hp)
  · rfl

/-- The history of a sequence, as the filter reads it. -/
def history (s : State) (h : SlotIdx) : List Int :=
  (s.slots h).allOutputIds.take (s.slots h).outputLenCount

/-- Whether an end is found. -/
def marked (cfg : Config) (s : State) (b : Batch) (p : SlotIdx × Entry) : Bool :=
  !cfg.ignoreEos && (cfg.eos.eosTokenId.any (EndOfSequence.found (history s p.1) (final cfg s b p)
    (row cfg s b p).tokenIds) && !(s.slots p.1).ignoreEos)

theorem checked_eq (hnil : ∀ p ∈ b.entries, kept cfg s b p ≠ []) :
    checked cfg s b (b.entries.map (row cfg s b)) = .ok (b.entries.map (marked cfg s b)) := by
  unfold checked
  split
  · next hignore =>
    rw [List.map_map]
    refine congrArg Except.ok (List.map_congr_left fun p _ => ?_)
    rw [marked, hignore]
    rfl
  · next hignore =>
    have hzip : List.zipWith (fun p row => (⟨(s.slots p.1).ignoreEos,
          (s.slots p.1).allOutputIds.take (s.slots p.1).outputLenCount, row⟩ : FilterRow))
        b.entries (b.entries.map (row cfg s b)) =
      b.entries.map fun p => ⟨(s.slots p.1).ignoreEos, history s p.1, row cfg s b p⟩ := by
      rw [List.zipWith_map_right, List.zipWith_self]
      rfl
    rw [hzip, filterByEos, mapM_eq_ok_iff, List.forall₂_map_left_iff, List.forall₂_map_right_iff,
      List.forall₂_same]
    intro p hp
    have hchecks := mapM_eq_ok_map cfg.eos.eosTokenId fun eos _ =>
      EndOfSequence.checkEos_padRow (s.slots p.1).ignoreEos (history s p.1) (padTokenId cfg b)
        (width cfg s b) (final_ne_nil (hnil p hp)) eos
    unfold filterRowByEos
    rw [row, hchecks]
    simp only [marked, hignore, Bool.not_false, Bool.true_and, List.any_map, row]
    rfl

theorem outcomes_eq (henabled : Enabled cfg s b)
    (hroomy : ∀ h, s.status h = .live → Roomy cfg s h) (hfits : Fits cfg s b) :
    outcomes cfg s b = .ok (b.entries.map fun p =>
      (p.1, outcome cfg s p (row cfg s b p, marked cfg s b p))) := by
  unfold outcomes
  rw [verify_eq henabled hroomy hfits]
  change (truncated cfg _ >>= _) = _
  rw [truncated_eq henabled hfits]
  change (checked cfg s b _ >>= _) = _
  rw [checked_eq fun p hp => kept_ne_nil henabled hroomy hp]
  change Except.ok _ = _
  rw [List.zip_map', List.zipWith_map_right, List.zipWith_self]

/-! ## The new tokens -/

/-- How many tokens of a sequence are new. -/
def newLen (cfg : Config) (s : State) (b : Batch) (p : SlotIdx × Entry) : Nat :=
  adjusted cfg s p.1 (stopCut p.2.stoppedAt (final cfg s b p).length)

theorem stopCut_le (stoppedAt : Option Nat) (n : Nat) : stopCut stoppedAt n ≤ n := by
  cases stoppedAt with
  | none => exact le_rfl
  | some i => exact Nat.min_le_left _ _

theorem adjusted_le (h : SlotIdx) (n : Nat) : adjusted cfg s h n ≤ n := by
  unfold adjusted Mtp.adjustNumNewTokens
  split
  · dsimp only
    omega
  · exact le_rfl

theorem newLen_le (cfg : Config) (s : State) (b : Batch) (p : SlotIdx × Entry) :
    newLen cfg s b p ≤ (final cfg s b p).length :=
  (adjusted_le _ _).trans (stopCut_le _ _)

/-- The adjustments of the torch backend leave room. -/
theorem adjusted_le_room (hexp : cfg.modelRunnerExp = true) (h : SlotIdx) (n : Nat) :
    adjusted cfg s h n ≤ cfg.maxSeqLen - (s.slots h).seqLens ∧
      adjusted cfg s h n ≤ cfg.maxGenLen - (s.slots h).outputLenCount := by
  unfold adjusted Mtp.adjustNumNewTokens
  rw [if_pos hexp]
  dsimp only
  omega

theorem maxSeqLen_le_allInputWidth (cfg : Config) : cfg.maxSeqLen ≤ cfg.context.allInputWidth := by
  unfold Config.maxSeqLen BatchContextConfig.allInputWidth
  split <;> omega

theorem maxGenLen_le_allOutputWidth (cfg : Config) :
    cfg.maxGenLen ≤ cfg.context.allOutputWidth := by
  unfold Config.maxGenLen BatchContextConfig.allOutputWidth
  split <;> omega

theorem newLen_of_not_exp (hexp : cfg.modelRunnerExp = false) (p : SlotIdx × Entry)
    (hkept : (kept cfg s b p).length = keptLen cfg s b p) :
    newLen cfg s b p = stopCut p.2.stoppedAt (keptLen cfg s b p) := by
  have hfinal : final cfg s b p = kept cfg s b p := if_neg (by rw [hexp]; exact nofun)
  unfold newLen adjusted
  rw [hfinal, hkept, hexp]
  rfl

theorem keptLen_le (p : SlotIdx × Entry) : keptLen cfg s b p ≤ p.2.tokens.length := by
  have hupTo := length_upTo_le (p := isEosToken cfg) (l := p.2.tokens)
  unfold keptLen
  split
  · exact le_rfl
  split
  · omega
  · omega
  · split <;> omega

theorem length_kept (cfg : Config) (s : State) (b : Batch) (p : SlotIdx × Entry) :
    (kept cfg s b p).length = keptLen cfg s b p := by
  rw [kept, List.length_take, Nat.min_eq_left (keptLen_le p)]

/-- Several new tokens fit in the rows. -/
theorem newLen_fits (hfits : Fits cfg s b) (hp : p ∈ b.entries) :
    newLen cfg s b p ≤ 1 ∨
      (s.slots p.1).seqLens + newLen cfg s b p ≤ cfg.context.allInputWidth ∧
        (s.slots p.1).outputLenCount + newLen cfg s b p ≤ cfg.context.allOutputWidth := by
  cases hexp : cfg.modelRunnerExp with
  | false =>
    rw [newLen_of_not_exp hexp p (length_kept cfg s b p)]
    exact hfits.rows hexp p hp
  | true =>
    obtain ⟨hseq, hgen⟩ := adjusted_le_room (s := s) hexp p.1
      (stopCut p.2.stoppedAt (final cfg s b p).length)
    have hin := maxSeqLen_le_allInputWidth cfg
    have hout := maxGenLen_le_allOutputWidth cfg
    unfold newLen
    omega

/-- A live sequence does not grow beyond its greatest length. -/
theorem newLen_le_room (henabled : Enabled cfg s b) (hfits : Fits cfg s b)
    (hroom : Roomy cfg s p.1) (hp : p ∈ b.entries) :
    (s.slots p.1).seqLens + newLen cfg s b p ≤ cfg.maxSeqLen := by
  obtain ⟨hseq, -, -⟩ := hroom
  cases hexp : cfg.modelRunnerExp with
  | true =>
    have hadjusted := (adjusted_le_room (s := s) hexp p.1
      (stopCut p.2.stoppedAt (final cfg s b p).length)).1
    unfold newLen
    omega
  | false =>
    have hnew := newLen_of_not_exp hexp p (length_kept cfg s b p)
    have hle := stopCut_le p.2.stoppedAt (keptLen cfg s b p)
    rcases hfits.rows hexp p hp with hone | ⟨hin, -⟩
    · omega
    cases hasync : cfg.context.contextParams.asyncInfer with
    | false =>
      have hwidth : cfg.context.allInputWidth = cfg.maxSeqLen := by
        unfold BatchContextConfig.allInputWidth Config.maxSeqLen
        rw [hasync]
        rfl
      omega
    | true =>
      -- only MTP is asynchronous, and it looks at the room in the sequence
      obtain ⟨n, hn⟩ := cfg.mtp (.inr hasync)
      have hasyncExp : cfg.asyncExp = false := by rw [Config.asyncExp, hexp, Bool.false_and]
      have hkept : keptLen cfg s b p ≤ max 1 (seqSpaceLeft cfg s p).toNat := by
        have haccepts := (henabled.2.2.2 p hp).2.2.2
        unfold keptLen
        split
        · next hprefill =>
          rw [if_pos hprefill.1] at haccepts
          omega
        · rw [hn]
          simp only [hasyncExp, Bool.false_eq_true, if_false]
          omega
      unfold seqSpaceLeft at hkept
      omega

/-- An adjustment brings a sequence to a limit. -/
theorem adjusted_eq_self {n : Nat} (hseq : (s.slots h).seqLens + adjusted cfg s h n < cfg.maxSeqLen)
    (hout : (s.slots h).outputLenCount + adjusted cfg s h n < s.maxOutputLen h)
    (hgen : (s.slots h).outputLenCount + adjusted cfg s h n < cfg.maxGenLen) :
    adjusted cfg s h n = n := by
  unfold adjusted Mtp.adjustNumNewTokens at *
  dsimp only at *
  by_cases hexp : cfg.modelRunnerExp = true
  · rw [if_pos hexp] at *
    omega
  · rw [if_neg hexp]

/-- What is known of a sequence that goes on. -/
structure GoesOn (cfg : Config) (s : State) (b : Batch) (p : SlotIdx × Entry) : Prop where
  newLen : newLen cfg s b p = (final cfg s b p).length
  marked : marked cfg s b p = false
  seqLens : (s.slots p.1).seqLens + (final cfg s b p).length < cfg.maxSeqLen
  maxOutputLen : (s.slots p.1).outputLenCount + (final cfg s b p).length < s.maxOutputLen p.1
  maxGenLen : (s.slots p.1).outputLenCount + (final cfg s b p).length < cfg.maxGenLen
  stoppedAt : ∀ i, p.2.stoppedAt = some i → (final cfg s b p).length ≤ i

theorem goesOn (hunfinished :
    (outcome cfg s p (row cfg s b p, marked cfg s b p)).finished = false) : GoesOn cfg s b p := by
  have hfinished : (marked cfg s b p || stopped p.2.stoppedAt (final cfg s b p).length ||
      exceeds cfg s p.1 (newLen cfg s b p)) = false := hunfinished
  rw [Bool.or_eq_false_iff, Bool.or_eq_false_iff] at hfinished
  obtain ⟨⟨hmarked, hstopped⟩, hexceeds⟩ := hfinished
  have hstoppedAt : ∀ i, p.2.stoppedAt = some i → (final cfg s b p).length ≤ i := by
    intro i hi
    rw [hi] at hstopped
    exact Nat.not_lt.mp (of_decide_eq_false hstopped)
  have hcut : stopCut p.2.stoppedAt (final cfg s b p).length = (final cfg s b p).length := by
    unfold stopCut
    split
    · next i hi => exact Nat.min_eq_left ((hstoppedAt i hi).trans (Nat.le_succ i))
    · rfl
  simp only [exceeds, Bool.or_eq_false_iff, decide_eq_false_iff_not, Nat.not_le] at hexceeds
  obtain ⟨⟨hseq, hout⟩, hgen⟩ := hexceeds
  have hnew : newLen cfg s b p = (final cfg s b p).length := by
    unfold newLen at *
    rw [hcut] at *
    exact adjusted_eq_self hseq hout hgen
  rw [hnew] at hseq hout hgen
  exact ⟨hnew, hmarked, hseq, hout, hgen, hstoppedAt⟩

theorem exists_eos_of_mem {eosTokenId : List Eos} {ids : List Int} {id : Int}
    (hnumbers : AreNumbers eosTokenId ids) (hid : id ∈ ids) :
    ∃ eos ∈ eosTokenId, eos = .single id ∨ eos = .composite [id] := by
  induction hnumbers with
  | nil => cases hid
  | cons heos _ ih =>
    rcases List.mem_cons.mp hid with rfl | hid
    · exact ⟨_, List.mem_cons_self, heos⟩
    · obtain ⟨eos, hmem, hcases⟩ := ih hid
      exact ⟨eos, List.mem_cons_of_mem _ hmem, hcases⟩

/-- An end that is a number is found where it comes last. -/
theorem marked_of_padding {ids : List Int} (hignore : ¬(cfg.ignoreEos = true ∨
      (s.slots p.1).ignoreEos = true))
    (hnumbers : AreNumbers cfg.eos.eosTokenId ids) (hzero : 0 ∈ ids) {u : List Int}
    (hfinal : final cfg s b p = u ++ [0]) (hpad : padTokenId cfg b = 0) :
    marked cfg s b p = true := by
  obtain ⟨hnone, hrow⟩ := not_or.mp hignore
  obtain ⟨eos, heos, hcases⟩ := exists_eos_of_mem hnumbers hzero
  have hfound : EndOfSequence.found (history s p.1) (final cfg s b p) (row cfg s b p).tokenIds eos
      = true := by
    rcases hcases with rfl | rfl
    · rw [EndOfSequence.found, hfinal, ← List.append_assoc]
      exact decide_eq_true (List.suffix_append _ _)
    · -- the padding ends with a zero as well
      have hlast : final cfg s b p ++
          List.replicate (width cfg s b - (final cfg s b p).length) (0 : Int) =
          u ++ List.replicate (width cfg s b - (final cfg s b p).length) 0 ++ [0] := by
        rw [hfinal, List.append_assoc, List.append_assoc, ← List.replicate_succ']
        rfl
      rw [EndOfSequence.found, row, hpad, padRow, hlast, ← List.append_assoc]
      exact decide_eq_true (List.suffix_append _ _)
  rw [marked, Bool.and_eq_true, Bool.and_eq_true]
  refine ⟨by simpa using hnone, List.any_eq_true.mpr ⟨eos, heos, hfound⟩, by simpa using hrow⟩

/-- A sequence that goes on has got what has been accepted. -/
theorem GoesOn.final_prefix (hgoesOn : GoesOn cfg s b p) (hfits : Fits cfg s b)
    (hp : p ∈ b.entries) : final cfg s b p <+: p.2.tokens := by
  have hkept : kept cfg s b p <+: p.2.tokens := List.take_prefix _ _
  rcases final_cases cfg s b p with hprefix | ⟨hexp, hcounted, hfinal⟩
  · exact hprefix.trans hkept
  · exfalso
    have hlen : (final cfg s b p).length =
        (upTo (isEnd (EndOfSequence.numbers cfg.eos.eosTokenId)) (kept cfg s b p)).length + 1 := by
      rw [hfinal, List.length_append, List.length_singleton]
    have hspare : Spare cfg s p
        (upTo (isEnd (EndOfSequence.numbers cfg.eos.eosTokenId)) (kept cfg s b p)).length := by
      obtain ⟨-, -, hseq, hout, hgen, hstop⟩ := hgoesOn
      rw [hlen] at hseq hout hgen hstop
      exact ⟨by omega, by omega, by omega, hstop⟩
    by_cases hignore : cfg.ignoreEos = true ∨ (s.slots p.1).ignoreEos = true
    · exact hfits.padding hexp p hp hignore hcounted hspare
    · obtain ⟨before, after, hids, -, -⟩ := hcounted
      have hmarked := marked_of_padding hignore (hfits.numbers hexp)
        (by rw [hids]; exact List.mem_append_right _ List.mem_cons_self) hfinal
        (padTokenId_eq_zero hexp)
      rw [hgoesOn.marked] at hmarked
      cases hmarked

end TokenHistory

end MindieLLM
