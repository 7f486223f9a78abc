import MindieLLM.Program.EntryUpdates
import MindieLLM.Program.Slices
import MindieLLM.Program.Utf8
import MindieLLM.Server.StreamCache
import Mathlib.Data.List.Chain
import Mathlib.Data.List.Induction

/-!
# The text of a stream

The endpoint decodes the tokens of a sequence as they come. It keeps two indices into them: the
tokenizer decodes the tokens from the first index on, decodes those between the indices, and sends
what the first text has more than the second. A text that ends in a replacement character may end
inside a character, so it is held back, and the indices stay where they are; with the last response
of the request nothing is held back any more. A sequence that has not ended and is missing in a
response is taken for one that was pruned, and what is kept of it is erased.

A tokenizer is taken to be byte-level: each token has some bytes, and a text is the decoding of the
bytes of its tokens. `-1` is no token.

## Main definitions

* `decode`, `decodeOne`, `decodeOneToken`: the tokenizer
* `SequenceStream`, `SequenceStream.respond`: what the endpoint keeps of a sequence
* `Round.process`, `Request`, `streamed`: a request and the text that it streams

## Main results

* `streamed_eq_iff`: the streamed text is the decoding of all tokens unless some of it was held back
  at the last tokens of the sequence
-/

namespace MindieLLM.StreamDecode

open Program StreamCache

/-! ## The tokenizer -/

abbrev Text : Type := List Char

/-- The bytes of each token. -/
abbrev Vocabulary : Type := ℤ → List UInt8

/-- `_tokenizer_decode` -/
def tokenizerDecode (v : Vocabulary) (tokenIds : List ℤ) : Text := utf8Decode (tokenIds.flatMap v)

/-- What the endpoint reads of the object that comes from the tokenizer. -/
structure TokenizerContents where
  content : Option Text := none
  needUpdateIndex : Option Bool := none
  deriving DecidableEq

/-- The text may end inside a character. -/
def EndsOpen (text : Text) : Prop := text.getLast? = some replacement

instance (text : Text) : Decidable (EndsOpen text) := decEq text.getLast? (some replacement)

/-- The streaming branch of `TokenizerWrapper.decode`, for plain text. -/
def decode (v : Vocabulary) (allTokenIds : List ℤ) (prevDecodeIndex currDecodeIndex : ℕ)
    (reqEndFlag : Bool) : TokenizerContents :=
  let currAndPrevContent := tokenizerDecode v (allTokenIds.drop prevDecodeIndex)
  let preText := tokenizerDecode v (slice allTokenIds prevDecodeIndex currDecodeIndex)
  if (currAndPrevContent.length ≤ preText.length ∨ EndsOpen currAndPrevContent) ∧ ¬reqEndFlag then
    { needUpdateIndex := some false }
  else
    { content := some (currAndPrevContent.drop preText.length) }

/-- `decode_one` of the tokenizer, `none` where it raises. -/
def decodeOne (v : Vocabulary) (allTokenIds : List ℤ) (preIndex currentIndex : ℕ)
    (reqEndFlag : Bool) : Option TokenizerContents :=
  if allTokenIds.length < preIndex then none
  else if allTokenIds.length < currentIndex then none
  else
    match allTokenIds.getLast? with
    | none => none
    | some last =>
      if last = -1 then some {} else some (decode v allTokenIds preIndex currentIndex reqEndFlag)

/-- `DecodeOneToken` catches what `decode_one` raises. Its output is then empty, which is no JSON
and is taken as the text. -/
def decodeOneToken (v : Vocabulary) (allTokenIds : List ℤ) (preIndex currentIndex : ℕ)
    (reqEndFlag : Bool) : TokenizerContents :=
  (decodeOne v allTokenIds preIndex currentIndex reqEndFlag).getD { content := some [] }

/-! ## The endpoint -/

/-- What a response has for a sequence. -/
structure BestNTokens (ι : Type) where
  seqId : ι
  tokens : List ℤ
  finishReason : InferStatusType := .iterationContinue
  notMem_tokens : -1 ∉ tokens

/-- The entries that the endpoint keeps for a sequence, where it keeps none empty ones. -/
structure SequenceStream where
  /-- The entry of `eosMap`, which begins as the first of the reasons. -/
  eos : InferStatusType := .iterationContinue
  respTokens : List ℤ := []
  postTokenIds : List ℤ := []
  prevDecodeIndex : ℕ := 0
  currentDecodeIndex : ℕ := 0
  postSingleText : Text := []
  deriving DecidableEq

/-- The tokens of a round in `ProcessResponseStream`. -/
def SequenceStream.respond (v : Vocabulary) (requestEndFlag : Bool) (tempTokens : List ℤ)
    (finishReason : InferStatusType) (s : SequenceStream) : SequenceStream :=
  if tempTokens = [] then s
  else
    let postTokenIds := s.postTokenIds ++ tempTokens
    let contents :=
      decodeOneToken v postTokenIds s.prevDecodeIndex s.currentDecodeIndex requestEndFlag
    let s := { s with
      postTokenIds := postTokenIds
      postSingleText := s.postSingleText ++ contents.content.getD [] }
    let s :=
      if contents.needUpdateIndex.getD true then
        { s with
          prevDecodeIndex := s.currentDecodeIndex
          currentDecodeIndex := postTokenIds.length }
      else s
    -- the full text of a sequence that has ended is decoded from all its tokens
    if finishReason = .iterationContinue then s
    else { s with postTokenIds := s.respTokens, respTokens := [] }

variable {ι : Type}

/-- A response has each sequence once at most. One with an illegal input is left out: it aborts the
request. -/
structure Round (ι : Type) where
  items : List (BestNTokens ι)
  nodup : (items.map BestNTokens.seqId).Nodup
  legal : ∀ item ∈ items, item.finishReason ≠ .illegalInput

abbrev Streams (ι : Type) : Type := ι → SequenceStream

variable [DecidableEq ι]

/-- What is kept of a sequence that goes on and is not used is erased. -/
def clearUnusedDecodeCache (usedSeqIds : List ι) (t : Streams ι) : Streams ι := fun seqId =>
  if (t seqId).eos = .iterationContinue ∧ seqId ∉ usedSeqIds then {} else t seqId

/-- `ConvertTokenToMap`, where every sequence goes on with itself. -/
def convertTokenToMap (items : List (BestNTokens ι)) (t : Streams ι) : Streams ι :=
  updateEntries BestNTokens.seqId
    (fun item s =>
      { s with
        respTokens := s.respTokens ++ item.tokens
        eos := item.finishReason })
    items (clearUnusedDecodeCache (items.map BestNTokens.seqId) t)

def processResponseStream (v : Vocabulary) (isEos : Bool) (items : List (BestNTokens ι))
    (t : Streams ι) : Streams ι :=
  updateEntries BestNTokens.seqId
    (fun item => SequenceStream.respond v isEos item.tokens item.finishReason) items
    fun seqId => { t seqId with postSingleText := [] }

/-- A response: the entries after it. -/
def Round.process (v : Vocabulary) (isEos : Bool) (round : Round ι) (t : Streams ι) : Streams ι :=
  processResponseStream v isEos round.items (convertTokenToMap round.items t)

/-- The entries, and what was streamed of each sequence. -/
structure Progress (ι : Type) where
  streams : Streams ι := fun _ => {}
  text : ι → Text := fun _ => []

def Progress.round (v : Vocabulary) (isEos : Bool) (p : Progress ι) (round : Round ι) :
    Progress ι :=
  let streams := round.process v isEos p.streams
  ⟨streams, fun seqId => p.text seqId ++ (streams seqId).postSingleText⟩

/-- A sequence that has a finish reason gets no more tokens. -/
def NothingAfter (item item' : BestNTokens ι) : Prop :=
  item.seqId = item'.seqId → item.finishReason ≠ .iterationContinue → item'.tokens = []

/-- A sequence that goes on has an item in the next response too, perhaps without tokens. -/
def GoesOn (round next : Round ι) : Prop :=
  ∀ item ∈ round.items, item.finishReason = .iterationContinue →
    item.seqId ∈ next.items.map BestNTokens.seqId

/-- The responses of a request, of which the last says that it has ended. -/
structure Request (ι : Type) where
  earlier : List (Round ι)
  last : Round ι
  finished : ((earlier ++ [last]).flatMap Round.items).Pairwise NothingAfter
  goesOn : (earlier ++ [last]).IsChain GoesOn

def run (v : Vocabulary) (rounds : List (Round ι)) : Progress ι :=
  rounds.foldl (Progress.round v false) {}

/-- What is streamed of the sequences of a request. -/
def streamed (v : Vocabulary) (request : Request ι) : ι → Text :=
  ((run v request.earlier).round v true request.last).text

/-- The tokens of a sequence in a response. -/
def Round.tokens (round : Round ι) (seqId : ι) : List ℤ :=
  match round.items.find? fun item => item.seqId = seqId with
  | some item => item.tokens
  | none => []

def Request.tokens (request : Request ι) (seqId : ι) : List ℤ :=
  (request.earlier ++ [request.last]).flatMap fun round => round.tokens seqId

/-! ## Decoding step by step -/

section Tokenizer

variable {v : Vocabulary} {a b c : List ℤ} {flag : Bool}

theorem endsOpen_append {text text' : Text} (h : text' ≠ []) :
    EndsOpen (text ++ text') ↔ EndsOpen text' := by
  rw [EndsOpen, EndsOpen, List.getLast?_append_of_ne_nil _ h]

theorem not_endsOpen_nil : ¬EndsOpen [] := nofun

/-- What follows a text that is complete is decoded by itself. -/
theorem tokenizerDecode_append (h : ¬EndsOpen (tokenizerDecode v a)) (b : List ℤ) :
    tokenizerDecode v (a ++ b) = tokenizerDecode v a ++ tokenizerDecode v b := by
  rw [tokenizerDecode, List.flatMap_append]
  exact utf8Decode_append h _

/-- There is nothing to be sent yet. -/
def Held (v : Vocabulary) (tokens : List ℤ) : Prop :=
  tokenizerDecode v tokens = [] ∨ EndsOpen (tokenizerDecode v tokens)

instance : Decidable (Held v c) := inferInstanceAs (Decidable (_ ∨ _))

/-- The tokenizer sends the text of the tokens after the second index. -/
theorem decode_eq (h : ¬EndsOpen (tokenizerDecode v b)) :
    decode v (a ++ b ++ c) a.length (a.length + b.length) flag =
      if Held v c ∧ ¬flag then { needUpdateIndex := some false }
      else { content := some (tokenizerDecode v c) } := by
  have hdrop : (a ++ b ++ c).drop a.length = b ++ c := by
    rw [List.append_assoc, List.drop_left]
  have hheld : (tokenizerDecode v b ++ tokenizerDecode v c).length ≤ (tokenizerDecode v b).length ∨
      EndsOpen (tokenizerDecode v b ++ tokenizerDecode v c) ↔ Held v c := by
    by_cases hc : tokenizerDecode v c = []
    · simp [Held, hc]
    · have hlength := List.length_pos_iff.mpr hc
      rw [endsOpen_append hc, List.length_append, Held]
      constructor
      · rintro (hle | hopen)
        · omega
        · exact .inr hopen
      · rintro (hnil | hopen)
        · exact absurd hnil hc
        · exact .inr hopen
  simp only [decode, hdrop, slice_append_append, tokenizerDecode_append h, hheld, List.drop_left]

theorem decodeOneToken_eq (h : ¬EndsOpen (tokenizerDecode v b)) (hc : c ≠ []) (hmem : -1 ∉ c) :
    decodeOneToken v (a ++ b ++ c) a.length (a.length + b.length) flag =
      if Held v c ∧ ¬flag then { needUpdateIndex := some false }
      else { content := some (tokenizerDecode v c) } := by
  obtain ⟨init, last, rfl⟩ := (List.eq_nil_or_concat' c).resolve_left hc
  have hlast : last ≠ -1 := by
    rintro rfl
    simp at hmem
  have hlength : (a ++ b ++ (init ++ [last])).length = a.length + b.length + (init.length + 1) := by
    rw [List.length_append, List.length_append, List.length_append, List.length_singleton]
  rw [decodeOneToken, decodeOne, if_neg (by omega), if_neg (by omega), ← List.append_assoc,
    List.getLast?_concat, List.append_assoc, decode_eq h]
  simp [hlast]

end Tokenizer

/-! ## One sequence -/

section Sequence

variable {v : Vocabulary} {a b c new : List ℤ} {isEos : Bool} {finishReason : InferStatusType}
  {s : SequenceStream}

/-- The tokens are those before the first index, those between the indices, and those that are not
sent yet. -/
structure Split (v : Vocabulary) (a b c : List ℤ) (s : SequenceStream) : Prop where
  postTokenIds : s.postTokenIds = a ++ b ++ c
  prevDecodeIndex : s.prevDecodeIndex = a.length
  currentDecodeIndex : s.currentDecodeIndex = a.length + b.length
  complete : ¬EndsOpen (tokenizerDecode v (a ++ b))
  complete_part : ¬EndsOpen (tokenizerDecode v b)
  held : Held v c

theorem Split.frame (h : Split v a b c s) (eos : InferStatusType) (respTokens : List ℤ) :
    Split v a b c { s with eos := eos, respTokens := respTokens, postSingleText := [] } :=
  ⟨h.postTokenIds, h.prevDecodeIndex, h.currentDecodeIndex, h.complete, h.complete_part, h.held⟩

theorem SequenceStream.respond_nil (s : SequenceStream) :
    s.respond v isEos [] finishReason = s := if_pos rfl

theorem SequenceStream.respond_eos (s : SequenceStream) (v : Vocabulary) (isEos : Bool)
    (new : List ℤ) (finishReason : InferStatusType) :
    (s.respond v isEos new finishReason).eos = s.eos := by
  unfold respond
  split
  · rfl
  · dsimp only
    split <;> split <;> rfl

/-- New tokens of a sequence that has not ended before. -/
theorem SequenceStream.respond_eq (h : Split v a b c s) (hnew : new ≠ []) (hmem : -1 ∉ c ++ new) :
    s.respond v isEos new finishReason =
      let held := Held v (c ++ new) ∧ ¬isEos
      let ended := finishReason ≠ .iterationContinue
      { eos := s.eos
        respTokens := if ended then [] else s.respTokens
        postTokenIds := if ended then s.respTokens else a ++ b ++ (c ++ new)
        prevDecodeIndex := if held then a.length else a.length + b.length
        currentDecodeIndex := if held then a.length + b.length else (a ++ b ++ (c ++ new)).length
        postSingleText :=
          s.postSingleText ++ if held then [] else tokenizerDecode v (c ++ new) } := by
  have hne : c ++ new ≠ [] := by
    intro hnil
    exact hnew (List.append_eq_nil_iff.mp hnil).2
  rw [respond, if_neg hnew, h.postTokenIds, h.prevDecodeIndex, h.currentDecodeIndex,
    List.append_assoc (a ++ b)]
  dsimp only
  rw [decodeOneToken_eq h.complete_part hne hmem]
  by_cases hheld : Held v (c ++ new) ∧ ¬isEos
  · simp only [if_pos hheld]
    by_cases hended : finishReason = .iterationContinue <;> simp [hended]
  · simp only [if_neg hheld]
    by_cases hended : finishReason = .iterationContinue <;> simp [hended]

/-- The tokens of a round are taken: the indices still split them, and what is sent is the text up
to the second index that was not sent before. -/
theorem Split.respond (h : Split v a b c s) (hresp : s.respTokens = s.postTokenIds ++ new)
    (hnew : new ≠ []) (hmem : -1 ∉ c ++ new) (finishReason : InferStatusType) :
    ∃ a' b' c' delta, Split v a' b' c' (s.respond v false new finishReason) ∧
      a' ++ b' ++ c' = a ++ b ++ c ++ new ∧
      (s.respond v false new finishReason).postSingleText = s.postSingleText ++ delta ∧
      tokenizerDecode v (a' ++ b') = tokenizerDecode v (a ++ b) ++ delta ∧
      (finishReason = .iterationContinue → (s.respond v false new finishReason).respTokens =
        (s.respond v false new finishReason).postTokenIds) := by
  rw [SequenceStream.respond_eq h hnew hmem]
  have htokens : s.respTokens = a ++ b ++ (c ++ new) := by
    rw [hresp, h.postTokenIds, List.append_assoc (a ++ b)]
  have hcontinue : finishReason = .iterationContinue →
      (if finishReason ≠ .iterationContinue then [] else s.respTokens) =
        if finishReason ≠ .iterationContinue then s.respTokens else a ++ b ++ (c ++ new) := by
    intro hreason
    rw [if_neg (not_not.mpr hreason), if_neg (not_not.mpr hreason), htokens]
  by_cases hheld : Held v (c ++ new)
  · refine ⟨a, b, c ++ new, [], ⟨?_, ?_, ?_, h.complete, h.complete_part, hheld⟩, ?_, ?_, ?_,
      hcontinue⟩
    · simp [htokens]
    · simp [hheld]
    · simp [hheld]
    · exact (List.append_assoc _ _ _).symm
    · simp [hheld]
    · rw [List.append_nil]
  · obtain ⟨hnil, hopen⟩ := not_or.mp hheld
    have hdecode : tokenizerDecode v (a ++ b ++ (c ++ new)) =
        tokenizerDecode v (a ++ b) ++ tokenizerDecode v (c ++ new) :=
      tokenizerDecode_append h.complete _
    refine ⟨a ++ b, c ++ new, [], tokenizerDecode v (c ++ new), ⟨?_, ?_, ?_, ?_, hopen, .inl rfl⟩,
      ?_, ?_, hdecode, hcontinue⟩
    · simp [htokens]
    · simp [hheld]
    · simp [hheld]
      omega
    · rw [hdecode, endsOpen_append hnil]
      exact hopen
    · rw [List.append_nil, ← List.append_assoc]
    · simp [hheld]

/-- With the last response nothing is held back. -/
theorem Split.respond_last (h : Split v a b c s) (hnew : new ≠ []) (hmem : -1 ∉ c ++ new)
    (finishReason : InferStatusType) :
    (s.respond v true new finishReason).postSingleText =
      s.postSingleText ++ tokenizerDecode v (c ++ new) := by
  rw [SequenceStream.respond_eq h hnew hmem]
  simp

end Sequence

/-! ## Runs -/

section Runs

variable {v : Vocabulary} {rounds : List (Round ι)} {round : Round ι} {p : Progress ι} {seqId : ι}
  {isEos : Bool}

/-- What a round has for a sequence. -/
def Round.item? (round : Round ι) (seqId : ι) : Option (BestNTokens ι) :=
  round.items.find? fun item => item.seqId = seqId

theorem Round.mem_of_item? {item : BestNTokens ι} (h : round.item? seqId = some item) :
    item ∈ round.items ∧ item.seqId = seqId :=
  ⟨List.mem_of_find?_eq_some h, by simpa using List.find?_some h⟩

theorem Round.notMem_of_item? (h : round.item? seqId = none) :
    seqId ∉ round.items.map BestNTokens.seqId := by
  rintro hmem
  obtain ⟨item, hitem, rfl⟩ := List.mem_map.mp hmem
  simpa using List.find?_eq_none.mp h item hitem

/-- The entry of a sequence after a response. -/
theorem Round.process_apply (v : Vocabulary) (isEos : Bool) (round : Round ι) (t : Streams ι)
    (seqId : ι) :
    round.process v isEos t seqId =
      match round.item? seqId with
      | some item => SequenceStream.respond v isEos item.tokens item.finishReason
          { t seqId with
            eos := item.finishReason
            respTokens := (t seqId).respTokens ++ item.tokens
            postSingleText := [] }
      | none =>
        { if (t seqId).eos = .iterationContinue then {} else t seqId with
          postSingleText := [] } := by
  rw [process, processResponseStream, updateEntries_apply round.nodup, convertTokenToMap,
    updateEntries_apply round.nodup]
  cases hitem : round.item? seqId with
  | none =>
    have hunused := notMem_of_item? hitem
    rw [item?] at hitem
    simp only [hitem, clearUnusedDecodeCache, hunused, not_false_eq_true, and_true]
  | some item =>
    obtain ⟨hmem, hseqId⟩ := mem_of_item? hitem
    have hused : seqId ∈ round.items.map BestNTokens.seqId := hseqId ▸ List.mem_map_of_mem hmem
    rw [item?] at hitem
    simp only [hitem, clearUnusedDecodeCache, hused, not_true_eq_false, and_false, if_false]

/-- What is known of a sequence after some responses. -/
structure Inv (v : Vocabulary) (rounds : List (Round ι)) (seqId : ι) (p : Progress ι) : Prop where
  /-- Of a sequence that goes on and had no part in the last response nothing is kept. -/
  eos : (p.streams seqId).eos = .iterationContinue →
    p.streams seqId = {} ∨ ∃ round ∈ rounds.getLast?, ∃ item ∈ round.items,
      item.seqId = seqId ∧ item.finishReason = .iterationContinue
  split : ∃ a b c, Split v a b c (p.streams seqId) ∧
    a ++ b ++ c = rounds.flatMap (fun round => round.tokens seqId) ∧
    p.text seqId = tokenizerDecode v (a ++ b)
  respTokens : (∀ item ∈ rounds.flatMap Round.items, item.seqId = seqId →
      item.finishReason = .iterationContinue) →
    (p.streams seqId).respTokens = (p.streams seqId).postTokenIds

theorem Round.tokens_of_item? {item : BestNTokens ι} (h : round.item? seqId = some item) :
    round.tokens seqId = item.tokens := by
  rw [item?] at h
  rw [tokens, h]

theorem Round.tokens_of_none (h : round.item? seqId = none) : round.tokens seqId = [] := by
  rw [item?] at h
  rw [tokens, h]

theorem Round.notMem_tokens (round : Round ι) (seqId : ι) : -1 ∉ round.tokens seqId := by
  cases hitem : round.item? seqId with
  | none => simp [tokens_of_none hitem]
  | some item =>
    rw [tokens_of_item? hitem]
    exact item.notMem_tokens

theorem notMem_flatMap_tokens (rounds : List (Round ι)) (seqId : ι) :
    -1 ∉ rounds.flatMap fun round => round.tokens seqId := by
  intro h
  obtain ⟨round, -, hmem⟩ := List.mem_flatMap.mp h
  exact round.notMem_tokens seqId hmem

theorem notMem_append {a b c : List ℤ}
    (hall : a ++ b ++ c = rounds.flatMap fun round => round.tokens seqId) (item : BestNTokens ι) :
    -1 ∉ c ++ item.tokens := by
  intro hmem
  rcases List.mem_append.mp hmem with hmem | hmem
  · apply notMem_flatMap_tokens rounds seqId
    rw [← hall]
    exact List.mem_append_right _ hmem
  · exact item.notMem_tokens hmem

theorem inv_start (v : Vocabulary) (seqId : ι) : Inv v [] seqId ({} : Progress ι) :=
  ⟨fun _ => .inl rfl,
    ⟨[], [], [], ⟨rfl, rfl, rfl, not_endsOpen_nil, not_endsOpen_nil, .inl rfl⟩, rfl, rfl⟩,
    fun _ => rfl⟩

namespace Inv

/-- A sequence that is missing in a response has not begun, or has ended: nothing is erased. -/
theorem not_erased (h : Inv v rounds seqId p)
    (hgoesOn : ∀ last ∈ rounds.getLast?, GoesOn last round)
    (hitem : round.item? seqId = none) :
    (if (p.streams seqId).eos = .iterationContinue then {} else p.streams seqId) =
      p.streams seqId := by
  split
  · next heos =>
    rcases h.eos heos with hnew | ⟨last, hlast, item, hmem, rfl, hreason⟩
    · exact hnew.symm
    · exact absurd (hgoesOn last hlast item hmem hreason) (Round.notMem_of_item? hitem)
  · rfl

/-- A response that has no tokens of the sequence. -/
theorem of_nil (h : Inv v rounds seqId p) (htokens : round.tokens seqId = [])
    {eos : InferStatusType}
    (hs : round.process v isEos p.streams seqId =
      { p.streams seqId with eos := eos, postSingleText := [] })
    (heos : eos = .iterationContinue → p.streams seqId = {} ∨ ∃ item ∈ round.items,
      item.seqId = seqId ∧ item.finishReason = .iterationContinue) :
    Inv v (rounds ++ [round]) seqId (p.round v isEos round) := by
  obtain ⟨-, ⟨a, b, c, hsplit, hall, htext⟩, hresp⟩ := h
  refine ⟨?_, ⟨a, b, c, ?_, ?_, ?_⟩, ?_⟩
  · change (round.process v isEos p.streams seqId).eos = _ →
      round.process v isEos p.streams seqId = _ ∨ _
    rw [hs, List.getLast?_concat]
    intro hcontinue
    rcases heos hcontinue with hnew | hitem
    · obtain rfl : eos = .iterationContinue := hcontinue
      exact .inl (by rw [hnew])
    · exact .inr ⟨round, rfl, hitem⟩
  · change Split v a b c (round.process v isEos p.streams seqId)
    rw [hs]
    exact hsplit.frame _ _
  · rw [hall, List.flatMap_append, List.flatMap_singleton, htokens, List.append_nil]
  · change p.text seqId ++ (round.process v isEos p.streams seqId).postSingleText = _
    rw [hs, List.append_nil, htext]
  · intro hcontinue
    change (round.process v isEos p.streams seqId).respTokens =
      (round.process v isEos p.streams seqId).postTokenIds
    rw [hs]
    apply hresp
    intro item hitem
    exact hcontinue item (by simpa using .inl (by simpa using hitem))

/-- **A response before the last.** -/
theorem respond (h : Inv v rounds seqId p) (round : Round ι)
    (hgoesOn : ∀ last ∈ rounds.getLast?, GoesOn last round)
    (hfinished : ∀ item, round.item? seqId = some item → item.tokens ≠ [] →
      ∀ item' ∈ rounds.flatMap Round.items, item'.seqId = seqId →
        item'.finishReason = .iterationContinue) :
    Inv v (rounds ++ [round]) seqId (p.round v false round) := by
  have happly := round.process_apply v false p.streams seqId
  cases hitem : round.item? seqId with
  | none =>
    simp only [hitem, h.not_erased hgoesOn hitem] at happly
    refine h.of_nil (Round.tokens_of_none hitem) happly fun heos => ?_
    rcases h.eos heos with hnew | ⟨last, hlast, item, hmem, rfl, hreason⟩
    · exact .inl hnew
    · exact absurd (hgoesOn last hlast item hmem hreason) (Round.notMem_of_item? hitem)
  | some item =>
    simp only [hitem] at happly
    obtain ⟨hmem, hseqId⟩ := Round.mem_of_item? hitem
    by_cases hnil : item.tokens = []
    · rw [hnil, SequenceStream.respond_nil, List.append_nil] at happly
      exact h.of_nil ((Round.tokens_of_item? hitem).trans hnil) happly fun hreason =>
        .inr ⟨item, hmem, hseqId, hreason⟩
    · obtain ⟨-, ⟨a, b, c, hsplit, hall, htext⟩, hresp⟩ := h
      have hnotMem := notMem_append hall item
      have hs := hsplit.frame item.finishReason ((p.streams seqId).respTokens ++ item.tokens)
      have htokens : (p.streams seqId).respTokens ++ item.tokens =
          (p.streams seqId).postTokenIds ++ item.tokens := by
        rw [hresp (hfinished item hitem hnil)]
      have heos := SequenceStream.respond_eos
        { p.streams seqId with
          eos := item.finishReason
          respTokens := (p.streams seqId).respTokens ++ item.tokens
          postSingleText := [] }
        v false item.tokens item.finishReason
      obtain ⟨a', b', c', delta, hsplit', hall', hdelta, htext', hresp'⟩ :=
        hs.respond htokens hnil hnotMem item.finishReason
      rw [← happly] at hsplit' hdelta hresp' heos
      refine ⟨fun hreason => ?_, ⟨a', b', c', hsplit', ?_, ?_⟩, ?_⟩
      · rw [List.getLast?_concat]
        exact .inr ⟨round, rfl, item, hmem, hseqId, heos.symm.trans hreason⟩
      · rw [hall', hall, List.flatMap_append, List.flatMap_singleton, Round.tokens_of_item? hitem]
      · rw [htext', ← htext]
        exact congrArg _ hdelta
      · intro hcontinue
        apply hresp'
        exact hcontinue item (by simpa using .inr hmem) hseqId

/-- **The last response.** What was held back is streamed if it has tokens of the sequence. -/
theorem respond_last (h : Inv v rounds seqId p) (last : Round ι) :
    (p.round v true last).text seqId =
      if last.tokens seqId = [] then p.text seqId
      else tokenizerDecode v ((rounds ++ [last]).flatMap fun round => round.tokens seqId) := by
  have happly := last.process_apply v true p.streams seqId
  change p.text seqId ++ (last.process v true p.streams seqId).postSingleText = _
  cases hitem : last.item? seqId with
  | none =>
    simp only [hitem] at happly
    rw [happly, if_pos (Round.tokens_of_none hitem), List.append_nil]
  | some item =>
    simp only [hitem] at happly
    rw [happly, Round.tokens_of_item? hitem]
    by_cases hnil : item.tokens = []
    · rw [if_pos hnil, hnil, SequenceStream.respond_nil, List.append_nil]
    · obtain ⟨-, ⟨a, b, c, hsplit, hall, htext⟩, -⟩ := h
      have hmem := notMem_append hall item
      have hs := hsplit.frame item.finishReason ((p.streams seqId).respTokens ++ item.tokens)
      rw [hs.respond_last hnil hmem, if_neg hnil, List.flatMap_append, List.flatMap_singleton,
        Round.tokens_of_item? hitem, ← hall, List.append_assoc (a ++ b),
        tokenizerDecode_append hsplit.complete, htext]
      rfl

end Inv

theorem inv_run (v : Vocabulary) {rounds : List (Round ι)}
    (hfinished : (rounds.flatMap Round.items).Pairwise NothingAfter)
    (hgoesOn : rounds.IsChain GoesOn) (seqId : ι) : Inv v rounds seqId (run v rounds) := by
  induction rounds using List.reverseRecOn with
  | nil => exact inv_start v seqId
  | append_singleton rounds round ih =>
    rw [List.flatMap_append, List.pairwise_append, List.flatMap_singleton] at hfinished
    obtain ⟨hbefore, -, hlast⟩ := hfinished
    obtain ⟨hchain, -, hnext⟩ := List.isChain_append.mp hgoesOn
    rw [run, List.foldl_append]
    apply (ih hbefore hchain).respond round fun last hmem => hnext last hmem round rfl
    intro item hitem hne item' hitem' hseqId
    obtain ⟨hmem, rfl⟩ := Round.mem_of_item? hitem
    by_contra hreason
    exact hne (hlast item' hitem' item hmem hseqId hreason)

/-- **What is streamed is the decoded whole**, for a sequence of any request, if and only if the
text of the sequence does not end in a replacement character or the last response has tokens of
it. -/
theorem streamed_eq_iff (v : Vocabulary) (request : Request ι) (seqId : ι) :
    streamed v request seqId = tokenizerDecode v (request.tokens seqId) ↔
      (EndsOpen (tokenizerDecode v (request.tokens seqId)) → request.last.tokens seqId ≠ []) := by
  have hfinished := request.finished
  rw [List.flatMap_append, List.pairwise_append] at hfinished
  have h := inv_run v hfinished.1 request.goesOn.left_of_append seqId
  rw [streamed, h.respond_last]
  by_cases hlast : request.last.tokens seqId = []
  · obtain ⟨-, ⟨a, b, c, hsplit, hall, htext⟩, -⟩ := h
    have htokens : request.tokens seqId = a ++ b ++ c := by
      rw [Request.tokens, List.flatMap_append, List.flatMap_singleton, hlast, List.append_nil, hall]
    rw [if_pos hlast, htokens, htext, tokenizerDecode_append hsplit.complete]
    constructor
    · -- nothing was held back, so the text ends where a text was sent
      intro heq hopen
      rw [← heq] at hopen
      exact absurd hopen hsplit.complete
    · intro himp
      rcases hsplit.held with hnil | hopen
      · rw [hnil, List.append_nil]
      · by_cases hnil : tokenizerDecode v c = []
        · rw [hnil, List.append_nil]
        · exact absurd hlast (himp ((endsOpen_append hnil).mpr hopen))
  · rw [if_neg hlast]
    exact ⟨fun _ _ => hlast, fun _ => rfl⟩

end Runs

/-- Each token is the byte of its number. -/
def byteVocabulary : Vocabulary := fun token => [token.toNat.toUInt8]

/-- The first sequence ends, at its longest, inside a character; the second goes on. -/
def endsInside : Request ℕ where
  earlier :=
    [⟨[⟨0, [0x68], .iterationContinue, by decide⟩, ⟨1, [0x68], .iterationContinue, by decide⟩],
      by decide, by decide⟩,
    ⟨[⟨0, [0x6F, 0x6B, 0xE2], .reachMaxOutputLen, by decide⟩,
      ⟨1, [0x69], .iterationContinue, by decide⟩], by decide, by decide⟩]
  last := ⟨[⟨1, [0x21], .endOfSentence, by decide⟩], by decide, by decide⟩
  finished := by
    simp [NothingAfter]
  goesOn := by
    simp [GoesOn]

/-- What was held back of the first sequence is never streamed, with the two characters before
it. -/
theorem not_streamed_eq :
    ¬∀ seqId, streamed byteVocabulary endsInside seqId =
      tokenizerDecode byteVocabulary (endsInside.tokens seqId) := by
  intro h
  have h0 : streamed byteVocabulary endsInside 0 = [Char.ofNat 0x68] := by decide +kernel
  have h1 : tokenizerDecode byteVocabulary (endsInside.tokens 0) =
      [Char.ofNat 0x68, Char.ofNat 0x6F, Char.ofNat 0x6B, replacement] := by decide +kernel
  have heq := h 0
  rw [h0, h1] at heq
  cases heq

end MindieLLM.StreamDecode
