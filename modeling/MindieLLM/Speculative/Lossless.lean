import MindieLLM.Speculative.Drafts
import MindieLLM.Speculative.Verification

/-!
# Verification is lossless

The model is any function that gives a row of logits for a list of tokens, and a sequence goes on
with the greedy token of the row. The rows that come back from a forward pass are those of the
tokens that each position has seen. What a plugin accepts for a sequence is then what the model
would have said token by token, as far as one of the drafts went along, and one token more. Memory
decoding feeds the first id of a draft in place of the last token of the sequence, so there this id
has to be the last token.

## Main definitions

* `Step`: a batch that one of the plugins has prepared
* `Step.accepted`: the tokens that are accepted for each sequence

## Main results

* `lossless_iff`: when a step accepts the longest agreement with a draft, and the token after it
-/

namespace MindieLLM

open Program

variable {f : List Int → Int}

/-- The tokens at the indices are there, and nothing is lost. -/
def Accepts (f : List Int → Int) (tokens : List Int) (drafts : List (List Int))
    (accepted : Option (List Int)) : Prop :=
  ∃ as, accepted = some as ∧ Lossless f tokens drafts as

/-! ## Memory decoding -/

namespace MemoryDecoding

variable {next before after r d : List Int} {i offset : Nat}

/-- The loop goes on as long as the draft agrees, and once more where it does not. -/
theorem verifySingleDraftProcess_eq (hi : before.length = i) (hr : d.length ≤ r.length) :
    verifySingleDraftProcess (before ++ r ++ after) i d =
      (decide (hitLength d r = d.length), List.range' i (min (hitLength d r + 1) d.length)) := by
  induction d generalizing before r i with
  | nil =>
    have hzero : hitLength ([] : List Int) r = 0 := Nat.le_zero.mp (hitLength_le [] r)
    rw [verifySingleDraftProcess, hzero]
    rfl
  | cons x d ih =>
    cases r with
    | nil => cases hr
    | cons y r =>
      have hget : (before ++ y :: r ++ after)[i]? = some y := by
        rw [List.append_assoc, List.getElem?_append_right (by omega)]
        simp [hi]
      rw [verifySingleDraftProcess, hget, hitLength]
      by_cases hxy : x = y
      · subst hxy
        rw [if_pos rfl, if_pos rfl]
        have hsplit : before ++ x :: r ++ after = before ++ [x] ++ r ++ after := by simp
        rw [hsplit, ih (by simp [hi]) (Nat.le_of_succ_le_succ hr)]
        have hmin : min (hitLength d r + 1 + 1) (d.length + 1) =
            min (hitLength d r + 1) d.length + 1 := by omega
        rw [List.length_cons, hmin, List.range'_succ]
        simp
      · rw [if_neg fun h => hxy (Option.some.inj h).symm, if_neg hxy]
        have hmin : min (0 + 1) (d.length + 1) = 1 := by omega
        rw [List.length_cons, hmin]
        simp

/-- The indices that are accepted for a sequence are consecutive. -/
theorem verifyOne_eq {x : Int} (hoffset : before.length = offset) (hr : r.length = d.length + 1) :
    verifyOne (before ++ r ++ after) offset (x :: d) =
      List.range' offset (hitLength d r + 1) := by
  cases d with
  | nil =>
    have hzero : hitLength ([] : List Int) r = 0 := Nat.le_zero.mp (hitLength_le [] r)
    rw [verifyOne, hzero]
    rfl
  | cons y d =>
    cases r with
    | nil => cases hr
    | cons z r =>
      have hget : (before ++ z :: r ++ after)[offset]? = some z := by
        rw [List.append_assoc, List.getElem?_append_right (by omega)]
        simp [hoffset]
      rw [verifyOne, hget, hitLength]
      by_cases hyz : y = z
      · subst hyz
        have hsplit : before ++ y :: r ++ after = before ++ [y] ++ r ++ after := by simp
        have hlen : d.length ≤ r.length := by
          simp only [List.length_cons] at hr
          omega
        rw [if_neg (not_not_intro rfl), if_pos rfl, hsplit,
          verifySingleDraftProcess_eq (by simp [hoffset]) hlen]
        dsimp only
        have hle := hitLength_le d r
        by_cases hall : hitLength d r = d.length
        · -- the last row is the one after the whole draft
          rw [decide_eq_true hall, if_pos rfl, hall, Nat.min_eq_right (Nat.le_succ _)]
          rw [List.range'_succ, List.cons_append, List.range'_concat]
          simp [Nat.add_assoc, Nat.add_comm 1]
        · rw [decide_eq_false hall, if_neg Bool.false_ne_true, List.append_nil,
            Nat.min_eq_left (by omega), List.range'_succ, List.range'_succ, List.range'_succ]
      · rw [if_pos fun h => hyz (Option.some.inj h).symm, if_neg hyz]
        rfl

/-- A sequence, the first id of its draft, and how the draft guesses that the answer goes on. -/
structure Seq where
  tokens : List Int
  firstId : Int
  draft : List Int

/-- What is in front of the guesses: the first id is fed at the place of the last token. -/
def Seq.fed (s : Seq) : List Int := s.tokens.dropLast ++ [s.firstId]

theorem Seq.fed_eq_tokens_iff {s : Seq} :
    s.fed = s.tokens ↔ s.tokens.getLast? = some s.firstId := by
  unfold fed
  constructor
  · intro h
    rw [← h, List.getLast?_concat]
  · exact List.dropLast_append_getLast? _

/-- What a row has seen through a mask: the sequence as it is fed, and the tokens of the draft that
are not masked. The first column is the first id. -/
def maskedRows {Row : Type} (model : List Int → Row) (s : Seq) (mask : Nat → Nat → Bool) :
    List Row :=
  (List.range (s.draft.length + 1)).map fun i =>
    model (s.fed ++ ((s.draft.zipIdx 1).filter fun p => mask i p.2).map Prod.fst)

/-- The mask of a draft, `np.tril`. -/
def tril (i j : Nat) : Bool := j ≤ i

/-- The tokens that are accepted for each sequence of a batch. -/
def accepted {Row : Type} (model : List Int → Row) (argmax : Row → Int) (batch : List Seq) :
    List (Option (List Int)) :=
  let tokenIds := (batch.flatMap fun s => maskedRows model s tril).map argmax
  let decodingIds := batch.map fun s => s.firstId :: s.draft
  (verifySingle tokenIds decodingIds).map (gather tokenIds)

variable {Row : Type} {model : List Int → Row} {argmax : Row → Int}

theorem filter_zipIdx (k : Nat) :
    ((d.zipIdx (k + 1)).filter fun p => tril (k + i) p.2).map Prod.fst = d.take i := by
  induction d generalizing k i with
  | nil => rw [List.take_nil]; rfl
  | cons x d ih =>
    rw [List.zipIdx_cons]
    cases i with
    | zero =>
      rw [List.filter_cons_of_neg (by simp [tril]), List.take_zero]
      refine List.map_eq_nil_iff.mpr (List.filter_eq_nil_iff.mpr fun p hp => ?_)
      have hle := (List.mk_mem_zipIdx_iff_le_and_getElem?_sub.mp hp).1
      simp only [tril, decide_eq_true_eq]
      omega
    | succ i =>
      rw [List.filter_cons_of_pos (by simp [tril]), List.map_cons, List.take_succ_cons,
        show k + (i + 1) = k + 1 + i by omega, ih]

/-- Under the mask each row has seen the beginning of the draft up to it. -/
theorem maskedRows_tril (s : Seq) : maskedRows model s tril = answers model s.fed s.draft := by
  have hrows : ∀ i, model (s.fed ++ ((s.draft.zipIdx 1).filter fun p => tril i p.2).map
      Prod.fst) = model (s.fed ++ s.draft.take i) := by
    intro i
    have hfilter := filter_zipIdx (d := s.draft) (i := i) 0
    rw [Nat.zero_add, Nat.zero_add] at hfilter
    rw [hfilter]
  unfold maskedRows
  rw [List.map_congr_left fun i _ => hrows i]
  exact (answers_eq_map ..).symm

theorem accepts_verifySingleFrom (before : List Int) (batch : List Seq)
    (hoffset : before.length = offset) :
    List.Forall₂ (fun s is => Accepts f s.fed [s.draft]
        (gather (before ++ batch.flatMap fun s => answers f s.fed s.draft) is))
      batch (verifySingleFrom (before ++ batch.flatMap fun s => answers f s.fed s.draft) offset
        (batch.map fun s => s.firstId :: s.draft)) := by
  induction batch generalizing before offset with
  | nil => exact .nil
  | cons s batch ih =>
    rw [List.flatMap_cons, ← List.append_assoc, List.map_cons, verifySingleFrom]
    refine .cons ?_ (ih _ ?_)
    · rw [verifyOne_eq hoffset length_answers]
      refine ⟨_, gather_range' hoffset ?_, lossless_single⟩
      rw [length_answers]
      exact Nat.succ_le_succ (hitLength_le _ _)
    · rw [List.length_append, hoffset, length_answers, List.length_cons]

theorem accepts_accepted (batch : List Seq) :
    List.Forall₂ (fun s => Accepts (fun l => argmax (model l)) s.fed [s.draft]) batch
      (accepted model argmax batch) := by
  have htokens : (batch.flatMap fun s => maskedRows model s tril).map argmax =
      batch.flatMap fun s => answers (fun l => argmax (model l)) s.fed s.draft := by
    rw [List.map_flatMap]
    simp only [maskedRows_tril, map_answers]
  unfold accepted
  dsimp only
  rw [htokens, List.forall₂_map_right_iff]
  exact accepts_verifySingleFrom [] batch rfl

end MemoryDecoding

/-! ## Look-ahead -/

namespace LookAhead

/-- A sequence in a decode. The last of its tokens are fed again, then come the guesses and the
window, whose rows are not verified. -/
structure Seq (Row : Type) where
  tokens : List Int
  lastGenLen : Nat
  guesses : Option (List (List Int))
  windowRows : List Row

/-- What follows the tokens, and then each beginning of each guess. -/
def verified {β : Type} (g : List Int → β) (tokens : List Int) (guesses : List (List Int)) :
    List β :=
  g tokens :: guesses.flatMap fun d => (answers g tokens d).tail

variable {Row : Type} (model : List Int → Row)

/-- The rows of the guesses: each token has seen the sequence and its own guess up to it. -/
def guessRows (s : Seq Row) : List Row :=
  (s.guesses.getD []).flatMap fun d => (answers model s.tokens d).tail

def lastGenRows (s : Seq Row) : List Row :=
  (List.range' (s.tokens.length + 1 - s.lastGenLen) s.lastGenLen).map fun n =>
    model (s.tokens.take n)

def rows (s : Seq Row) : List Row := lastGenRows model s ++ guessRows model s ++ s.windowRows

/-- Where the sequences end, counted from the first of them. -/
def layout (start : Nat) : List (Seq Row) → List (Nat × Nat × Option (List (List Int)))
  | [] => []
  | s :: batch =>
    let ends := start + (rows model s).length
    (ends, s.windowRows.length, s.guesses) :: layout ends batch

/-- The tokens that are accepted for each sequence of a batch. -/
def accepted (argmax : Row → Int) (level : Nat) (batch : List (Seq Row)) :
    List (Option (List Int)) :=
  let logits := batch.flatMap (rows model)
  let tokenIds := (nextGuessLogits logits (layout model 0 batch)).map argmax
  (laTokenVerifyFrom level tokenIds 0 (batch.map Seq.guesses)).map (gather tokenIds)

/-- What the cache of look-ahead keeps: at least the last token is fed, the guesses have one length,
and there is no empty set of them. -/
structure Seq.WellFormed (level : Nat) (s : Seq Row) : Prop where
  lastGen : 1 ≤ s.lastGenLen ∧ s.lastGenLen ≤ s.tokens.length
  guess : ∀ gs, s.guesses = some gs → gs ≠ [] ∧ ∀ d ∈ gs, d.length = level - 1

variable {model} {s : Seq Row} {level : Nat} {before after : List Row}

theorem length_flatMap_tail {β : Type} {g : List Int → β} {p : List Int} {gs : List (List Int)}
    {n : Nat} (hgs : ∀ d ∈ gs, d.length = n) :
    (gs.flatMap fun d => (answers g p d).tail).length = gs.length * n := by
  induction gs with
  | nil => simp
  | cons d gs ih =>
    rw [List.flatMap_cons, List.length_append, List.length_tail, length_answers,
      ih fun e he => hgs e (List.mem_cons_of_mem _ he), hgs d List.mem_cons_self, List.length_cons,
      Nat.succ_mul]
    omega

theorem length_verified {β : Type} {g : List Int → β} (hs : s.WellFormed level) :
    (verified g s.tokens (s.guesses.getD [])).length = qLen s.guesses := by
  unfold verified
  cases hg : s.guesses with
  | none => rfl
  | some gs =>
    obtain ⟨hne, hlen⟩ := hs.guess gs hg
    rw [List.length_cons, Option.getD_some, length_flatMap_tail hlen]
    cases gs with
    | nil => exact absurd rfl hne
    | cons d gs =>
      rw [qLen, hlen d List.mem_cons_self, List.length_cons]
      omega

/-- The row of the last token is the last of those that are fed again. -/
theorem exists_rows_eq (hs : s.WellFormed level) :
    ∃ fed, rows model s = fed ++ verified model s.tokens (s.guesses.getD []) ++ s.windowRows := by
  obtain ⟨hpos, hle⟩ := hs.lastGen
  obtain ⟨n, hn⟩ : ∃ n, s.lastGenLen = n + 1 := ⟨s.lastGenLen - 1, by omega⟩
  have hlast : s.tokens.length + 1 - (n + 1) + 1 * n = s.tokens.length := by omega
  refine ⟨(List.range' (s.tokens.length + 1 - (n + 1)) n).map fun n => model (s.tokens.take n), ?_⟩
  unfold rows lastGenRows guessRows verified
  rw [hn, List.range'_concat, List.map_append, hlast]
  simp

/-- The logits that are verified are cut out of those of the whole batch. -/
theorem nextGuessLogits_eq (before : List Row) {batch : List (Seq Row)}
    (hbatch : ∀ s ∈ batch, s.WellFormed level) :
    nextGuessLogits (before ++ batch.flatMap (rows model)) (layout model before.length batch) =
      batch.flatMap fun s => verified model s.tokens (s.guesses.getD []) := by
  induction batch generalizing before with
  | nil => rfl
  | cons s batch ih =>
    have hs := hbatch s List.mem_cons_self
    have hrows : ∃ fed, rows model s = _ := exists_rows_eq hs
    obtain ⟨fed, hfed⟩ := hrows
    have hrest := ih (before ++ rows model s) fun t ht => hbatch t (List.mem_cons_of_mem _ ht)
    rw [List.length_append] at hrest
    rw [List.flatMap_cons, List.flatMap_cons, ← List.append_assoc, layout, nextGuessLogits, hrest]
    congr 1
    have hlen := length_verified (g := model) hs
    have hsplit : before ++ rows model s ++ batch.flatMap (rows model) =
        (before ++ fed) ++ verified model s.tokens (s.guesses.getD []) ++
          (s.windowRows ++ batch.flatMap (rows model)) := by
      rw [hfed]
      simp only [List.append_assoc]
    have hq : 1 ≤ qLen s.guesses := by
      rw [← hlen]
      exact Nat.succ_pos _
    rw [hsplit, hfed]
    refine slice_of_length ?_ ?_
    · simp only [List.length_append]
      omega
    · simp only [List.length_append]
      omega

theorem map_verified {β γ : Type} {g : List Int → β} (h : β → γ) (tokens : List Int)
    (gs : List (List Int)) :
    (verified g tokens gs).map h = verified (fun l => h (g l)) tokens gs := by
  unfold verified
  rw [List.map_cons, List.map_flatMap]
  simp only [List.map_tail, map_answers]

/-! ### The guesses of one sequence -/

/-- What has been found is the best of the guesses so far. -/
structure Best (f : List Int → Int) (p tokenIds : List Int) (done : List (List Int))
    (found : Hits) : Prop where
  hits : gather tokenIds found.hits = some (continuation f p (found.maxHit + 1))
  isGreatest : IsGreatest
    {k | k = 0 ∨ ∃ d ∈ done, k ≤ d.length ∧ d.take k = continuation f p k} found.maxHit

variable {p tokenIds : List Int} {indices : List Nat} {gs done : List (List Int)} {found : Hits}
  {d : List Int} {n eg : Nat}

/-- The answers to a guess are found by its number. -/
theorem take_append_slice {rest : List (List Int)} (hdone : ∀ e ∈ done, e.length = n)
    (hd : d.length = n) {r : List Int} (hr : r = verified f p (done ++ d :: rest)) :
    r.take 1 ++ slice r.tail (done.length * n) (done.length * n + n) = answers f p d := by
  subst hr
  have hslice : slice (verified f p (done ++ d :: rest)).tail (done.length * n)
      (done.length * n + n) = (answers f p d).tail := by
    unfold verified
    rw [List.tail_cons, List.flatMap_append, List.flatMap_cons, ← List.append_assoc]
    refine slice_of_length (length_flatMap_tail hdone) ?_
    rw [length_flatMap_tail hdone, List.length_tail, length_answers, hd, Nat.add_sub_cancel]
  rw [hslice, answers_eq_cons]
  rfl

/-- One guess more. -/
theorem Best.verifyGuess (hbest : Best f p tokenIds done found) {r : List Int}
    (hgather : gather tokenIds indices = some r)
    (hr : r.take 1 ++ slice r.tail (eg * (level - 1)) (eg * (level - 1) + (level - 1)) =
      answers f p d) :
    Best f p tokenIds (done ++ [d]) (verifyGuess level r indices found eg d) := by
  obtain ⟨⟨hle, htake⟩, hgreatest⟩ := isGreatest_hitLength (f := f) (p := p) (d := d)
  obtain ⟨hmem, hupper⟩ := hbest.isGreatest
  have hcorrect : gather tokenIds (indices.take 1 ++
      slice indices.tail (eg * (level - 1)) (eg * (level - 1) + (level - 1))) =
      some (answers f p d) := by
    rw [← hr, ← List.drop_one, ← List.drop_one]
    exact gather_append (gather_take hgather) (gather_slice (gather_drop hgather))
  have hd : d ∈ done ++ [d] := List.mem_append_right _ (List.mem_singleton_self d)
  unfold LookAhead.verifyGuess
  dsimp only
  rw [hr]
  split
  · next hlt =>
    refine ⟨?_, .inr ⟨d, hd, hle, htake⟩, ?_⟩
    · rw [gather_take hcorrect, take_answers hle htake]
    · rintro k (rfl | ⟨e, he, hk⟩)
      · exact Nat.zero_le _
      · rcases List.mem_append.mp he with he | he
        · exact (hupper (.inr ⟨e, he, hk⟩)).trans hlt.le
        · rw [List.mem_singleton.mp he] at hk
          exact hgreatest hk
  · next hlt =>
    refine ⟨hbest.hits, ?_, ?_⟩
    · rcases hmem with hzero | ⟨e, he, hk⟩
      · exact .inl hzero
      · exact .inr ⟨e, List.mem_append_left _ he, hk⟩
    · rintro k (rfl | ⟨e, he, hk⟩)
      · exact Nat.zero_le _
      · rcases List.mem_append.mp he with he | he
        · exact hupper (.inr ⟨e, he, hk⟩)
        · rw [List.mem_singleton.mp he] at hk
          exact (hgreatest hk).trans (not_lt.mp hlt)

/-- All guesses. -/
theorem Best.verifyGuesses {rest : List (List Int)} (hbest : Best f p tokenIds done found)
    (hdone : ∀ e ∈ done, e.length = level - 1) (hrest : ∀ e ∈ rest, e.length = level - 1)
    (hgather : gather tokenIds indices = some (verified f p (done ++ rest))) :
    Best f p tokenIds (done ++ rest)
      (verifyGuesses level (verified f p (done ++ rest)) indices found done.length rest) := by
  induction rest generalizing done found with
  | nil =>
    rw [List.append_nil, LookAhead.verifyGuesses]
    exact hbest
  | cons d rest ih =>
    have hd := hrest d List.mem_cons_self
    have hnext := hbest.verifyGuess hgather (take_append_slice hdone hd rfl)
    have hsplit : done ++ d :: rest = done ++ [d] ++ rest := by simp
    have hlen : done.length + 1 = (done ++ [d]).length := by simp
    rw [LookAhead.verifyGuesses, hlen]
    rw [hsplit] at hgather hnext ⊢
    refine ih hnext (fun e he => ?_) (fun e he => hrest e (List.mem_cons_of_mem _ he)) hgather
    rcases List.mem_append.mp he with he | he
    · exact hdone e he
    · rw [List.mem_singleton.mp he]
      exact hd

theorem accepts_laVerifyGreedyOneBatch {t : Seq Row} {start : Nat} {front back : List Int}
    (ht : t.WellFormed level) (hstart : front.length = start) (hguesses : t.guesses = some gs) :
    Accepts f t.tokens gs (gather (front ++ verified f t.tokens gs ++ back)
      (laVerifyGreedyOneBatch level (some gs) (verified f t.tokens gs)
        (List.range' start (qLen (some gs)))).1) := by
  have hlen := length_verified (g := f) ht
  rw [hguesses, Option.getD_some] at hlen
  have hgather : gather (front ++ verified f t.tokens gs ++ back)
      (List.range' start (qLen (some gs))) = some (verified f t.tokens gs) := by
    rw [gather_range' hstart hlen.ge, ← hlen, List.take_length]
  have hfirst : Best f t.tokens (front ++ verified f t.tokens gs ++ back) []
      ⟨0, (List.range' start (qLen (some gs))).take 1, false⟩ := by
    refine ⟨gather_take hgather, .inl rfl, ?_⟩
    rintro k (rfl | ⟨e, he, -⟩)
    · exact Nat.le_refl 0
    · cases he
  have hbest := hfirst.verifyGuesses (fun e he => by cases he) (ht.guess gs hguesses).2 hgather
  exact ⟨_, hbest.hits, _, hbest.isGreatest, rfl⟩

theorem accepts_laTokenVerifyFrom (front : List Int) {batch : List (Seq Row)} {start : Nat}
    (hbatch : ∀ s ∈ batch, s.WellFormed level) (hstart : front.length = start) :
    List.Forall₂ (fun s is => Accepts f s.tokens (s.guesses.getD [])
        (gather (front ++ batch.flatMap fun s => verified f s.tokens (s.guesses.getD [])) is))
      batch (laTokenVerifyFrom level
        (front ++ batch.flatMap fun s => verified f s.tokens (s.guesses.getD [])) start
        (batch.map Seq.guesses)) := by
  induction batch generalizing front start with
  | nil => exact .nil
  | cons t batch ih =>
    have ht := hbatch t List.mem_cons_self
    have hlen := length_verified (g := f) ht
    rw [List.flatMap_cons, ← List.append_assoc, List.map_cons, laTokenVerifyFrom]
    refine .cons ?_ (ih _ (fun s hs => hbatch s (List.mem_cons_of_mem _ hs)) ?_)
    · rw [slice_of_length hstart (by rw [hlen, hstart])]
      cases hguesses : t.guesses with
      | none =>
        rw [if_pos rfl]
        refine ⟨_, gather_range' hstart ?_, lossless_nil⟩
        exact Nat.le_refl 1
      | some gs =>
        rw [if_neg (by simp)]
        exact accepts_laVerifyGreedyOneBatch ht hstart hguesses
    · rw [List.length_append, hlen, hstart]

theorem accepts_accepted {argmax : Row → Int} {batch : List (Seq Row)}
    (hbatch : ∀ s ∈ batch, s.WellFormed level) :
    List.Forall₂ (fun s => Accepts (fun l => argmax (model l)) s.tokens (s.guesses.getD [])) batch
      (accepted model argmax level batch) := by
  have hlogits : nextGuessLogits (batch.flatMap (rows model)) (layout model 0 batch) =
      batch.flatMap fun s => verified model s.tokens (s.guesses.getD []) :=
    nextGuessLogits_eq [] hbatch
  unfold accepted
  dsimp only
  rw [hlogits, List.map_flatMap, List.forall₂_map_right_iff]
  simp only [map_verified]
  exact accepts_laTokenVerifyFrom [] hbatch rfl

end LookAhead

/-! ## MTP -/

namespace Mtp

/-- A sequence, and as many tokens as the draft model gives for each of them. -/
structure Seq where
  tokens : List Int
  draft : List Int

variable {Row : Type} (model : List Int → Row) (argmax : Row → Int)

/-- The greedy tokens of the whole batch. -/
def tokenIds (batch : List Seq) : List Int :=
  (batch.flatMap fun s => answers model s.tokens s.draft).map argmax

def accepted (numSpeculativeTokens : Nat) (batch : List Seq) : List (Option (List Int)) :=
  (pluginVerify numSpeculativeTokens (tokenIds model argmax batch) (batch.flatMap Seq.draft)
    batch.length).map (gather (tokenIds model argmax batch))

def acceptedExp (numSpeculativeTokens : Nat) (padTokenId : Int) (batch : List Seq) :
    List (Option (List Int)) :=
  (pluginVerifyExp numSpeculativeTokens padTokenId (tokenIds model argmax batch)
    (batch.flatMap Seq.draft)).map fun v => some (v.tokenIds.take v.numNewTokens)

variable {model argmax} {n : Nat} {batch : List Seq} {d r : List Int}

/-- The running product is zero after the first miss. -/
theorem sum_cumprod_zero (l : List Nat) : (cumprod 0 l).sum = 0 := by
  induction l with
  | nil => rfl
  | cons x l ih => rw [cumprod, Nat.zero_mul, List.sum_cons, ih]

theorem sum_cumprod : (cumprod 1 (List.zipWith (fun guess next => if guess = next then 1 else 0) d
    (r.take d.length))).sum = hitLength d r := by
  induction d generalizing r with
  | nil => exact (Nat.le_zero.mp (hitLength_le [] r)).symm
  | cons x d ih =>
    cases r with
    | nil => rfl
    | cons y r =>
      rw [List.length_cons, List.take_succ_cons, List.zipWith_cons_cons, cumprod, hitLength,
        Nat.one_mul]
      by_cases hxy : x = y
      · rw [if_pos hxy, if_pos hxy, List.sum_cons, ih, Nat.add_comm]
      · rw [if_neg hxy, if_neg hxy, List.sum_cons, sum_cumprod_zero]

/-- What is masked out is beyond the number of new tokens. -/
theorem take_mapIdx {l : List Int} {m : Nat} {pad : Int} :
    (l.mapIdx fun i x => if i < m then x else pad).take m = l.take m := by
  refine List.ext_getElem? fun i => ?_
  rw [List.getElem?_take, List.getElem?_take]
  split
  · next hi =>
    rw [List.getElem?_mapIdx]
    simp [hi]
  · rfl

theorem tokenIds_eq (batch : List Seq) : tokenIds model argmax batch =
    (batch.map fun s => answers (fun l => argmax (model l)) s.tokens s.draft).flatten := by
  unfold tokenIds
  rw [List.map_flatMap, List.flatMap_def]
  simp only [map_answers]

/-- The rows and the draft of a sequence are found by its number. -/
theorem slices_eq (hbatch : ∀ s ∈ batch, s.draft.length = n) {i : Nat} (hi : i < batch.length) :
    slice (tokenIds model argmax batch) (i * (n + 1)) ((i + 1) * (n + 1)) =
        answers (fun l => argmax (model l)) batch[i].tokens batch[i].draft ∧
      slice (batch.flatMap Seq.draft) (i * n) ((i + 1) * n) = batch[i].draft := by
  constructor
  · rw [tokenIds_eq, slice_flatten (n := n + 1) _ (by simpa using hi), List.getElem_map]
    intro r hr
    obtain ⟨s, hs, rfl⟩ := List.mem_map.mp hr
    rw [length_answers, hbatch s hs]
  · rw [List.flatMap_def, slice_flatten (n := n) _ (by simpa using hi), List.getElem_map]
    intro r hr
    obtain ⟨s, hs, rfl⟩ := List.mem_map.mp hr
    exact hbatch s hs

theorem length_tokenIds (hbatch : ∀ s ∈ batch, s.draft.length = n) :
    (tokenIds model argmax batch).length = batch.length * (n + 1) := by
  rw [tokenIds_eq, List.length_flatten, List.map_map]
  have hrow : ∀ s ∈ batch, (List.length ∘ fun s : Seq =>
      answers (fun l => argmax (model l)) s.tokens s.draft) s = n + 1 := by
    intro s hs
    rw [Function.comp_apply, length_answers, hbatch s hs]
  rw [List.map_congr_left hrow, List.map_const', List.sum_replicate_nat]

theorem accepts_accepted (hbatch : ∀ s ∈ batch, s.draft.length = n) :
    List.Forall₂ (fun s => Accepts (fun l => argmax (model l)) s.tokens [s.draft]) batch
      (accepted model argmax n batch) := by
  unfold accepted pluginVerify
  rw [List.map_map, List.forall₂_iff_get]
  refine ⟨by simp, fun i hi _ => ?_⟩
  have hslices : slice (tokenIds model argmax batch) (i * (n + 1)) ((i + 1) * (n + 1)) = _ ∧ _ :=
    slices_eq hbatch hi
  obtain ⟨hrow, hdraft⟩ := hslices
  have hend : i * (n + 1) + (n + 1) = (i + 1) * (n + 1) := (Nat.succ_mul i (n + 1)).symm
  simp only [List.get_eq_getElem, List.getElem_map, List.getElem_range, Function.comp_apply, hend,
    hrow, hdraft]
  have hhit := hitLength_le batch[i].draft
    (answers (fun l => argmax (model l)) batch[i].tokens batch[i].draft)
  rw [hbatch _ (List.getElem_mem hi)] at hhit
  have hlen : (i + 1) * (n + 1) ≤ (tokenIds model argmax batch).length := by
    rw [length_tokenIds hbatch]
    exact Nat.mul_le_mul_right _ hi
  refine ⟨_, gather_range'_slice ?_ hlen, ?_⟩
  · omega
  · rw [hrow]
    exact lossless_single

theorem accepts_acceptedExp {padTokenId : Int} (hbatch : ∀ s ∈ batch, s.draft.length = n) :
    List.Forall₂ (fun s => Accepts (fun l => argmax (model l)) s.tokens [s.draft]) batch
      (acceptedExp model argmax n padTokenId batch) := by
  unfold acceptedExp pluginVerifyExp
  dsimp only
  rw [length_tokenIds hbatch, Nat.mul_div_cancel _ (Nat.succ_pos n), List.map_map,
    List.forall₂_iff_get]
  refine ⟨by simp, fun i hi _ => ?_⟩
  have hslices : slice (tokenIds model argmax batch) (i * (n + 1)) ((i + 1) * (n + 1)) = _ ∧ _ :=
    slices_eq hbatch hi
  obtain ⟨hrow, hdraft⟩ := hslices
  simp only [List.get_eq_getElem, List.getElem_map, List.getElem_range, Function.comp_apply, hrow,
    hdraft, take_mapIdx]
  have hsum := sum_cumprod (d := batch[i].draft)
    (r := answers (fun l => argmax (model l)) batch[i].tokens batch[i].draft)
  rw [hbatch _ (List.getElem_mem hi)] at hsum
  rw [hsum]
  exact ⟨_, rfl, lossless_single⟩

end Mtp

/-! ## Every step -/

/-- A batch that one of the plugins has prepared. -/
inductive Step (Row : Type)
  | memoryDecoding (batch : List MemoryDecoding.Seq)
  | lookAhead (level : Nat) (batch : List (LookAhead.Seq Row))
  | mtp (numSpeculativeTokens : Nat) (batch : List Mtp.Seq)
  | mtpExp (numSpeculativeTokens : Nat) (padTokenId : Int) (batch : List Mtp.Seq)

namespace Step

variable {Row : Type}

/-- The sequences of the batch, each with its drafts. -/
def sequences : Step Row → List (List Int × List (List Int))
  | memoryDecoding batch => batch.map fun s => (s.tokens, [s.draft])
  | lookAhead _ batch => batch.map fun s => (s.tokens, s.guesses.getD [])
  | mtp _ batch => batch.map fun s => (s.tokens, [s.draft])
  | mtpExp _ _ batch => batch.map fun s => (s.tokens, [s.draft])

/-- The sequences as the model sees them. -/
def fed : Step Row → List (List Int × List (List Int))
  | memoryDecoding batch => batch.map fun s => (s.fed, [s.draft])
  | step => step.sequences

/-- The drafts of memory decoding start with the last token of the sequence. -/
def StartsWithLast : Step Row → Prop
  | memoryDecoding batch => ∀ s ∈ batch, s.tokens.getLast? = some s.firstId
  | _ => True

def accepted (model : List Int → Row) (argmax : Row → Int) : Step Row → List (Option (List Int))
  | memoryDecoding batch => MemoryDecoding.accepted model argmax batch
  | lookAhead level batch => LookAhead.accepted model argmax level batch
  | mtp num batch => Mtp.accepted model argmax num batch
  | mtpExp num padTokenId batch => Mtp.acceptedExp model argmax num padTokenId batch

/-- What each plugin makes sure of: guesses of one length, and drafts of one length. -/
def WellFormed : Step Row → Prop
  | memoryDecoding _ => True
  | lookAhead level batch => ∀ s ∈ batch, s.WellFormed level
  | mtp num batch => ∀ s ∈ batch, s.draft.length = num
  | mtpExp num _ batch => ∀ s ∈ batch, s.draft.length = num

variable {model : List Int → Row} {argmax : Row → Int}

theorem accepts_accepted (model : List Int → Row) (argmax : Row → Int) {step : Step Row}
    (h : step.WellFormed) :
    List.Forall₂ (fun s a => Accepts (fun l => argmax (model l)) s.1 s.2 a) step.fed
      (step.accepted model argmax) := by
  cases step with
  | memoryDecoding batch =>
    exact List.forall₂_map_left_iff.mpr (MemoryDecoding.accepts_accepted batch)
  | lookAhead level batch => exact List.forall₂_map_left_iff.mpr (LookAhead.accepts_accepted h)
  | mtp num batch => exact List.forall₂_map_left_iff.mpr (Mtp.accepts_accepted h)
  | mtpExp num padTokenId batch =>
    exact List.forall₂_map_left_iff.mpr (Mtp.accepts_acceptedExp h)

theorem fed_eq_sequences {step : Step Row} (h : step.StartsWithLast) :
    step.fed = step.sequences := by
  cases step with
  | memoryDecoding batch =>
    refine List.map_congr_left fun s hs => ?_
    rw [MemoryDecoding.Seq.fed_eq_tokens_iff.mpr (h s hs)]
  | lookAhead level batch => rfl
  | mtp num batch => rfl
  | mtpExp num padTokenId batch => rfl

/-- Each sequence of the batch gets the longest agreement of one of its drafts with what the model
says token by token, and the token after it: one token at least, and not more than the draft and
one. -/
def IsLossless (model : List Int → Row) (argmax : Row → Int) (step : Step Row) : Prop :=
  List.Forall₂ (fun s a => ∃ accepted, a = some accepted ∧
      Lossless (fun l => argmax (model l)) s.1 s.2 accepted ∧ 1 ≤ accepted.length ∧
      ∀ n, (∀ d ∈ s.2, d.length ≤ n) → accepted.length ≤ n + 1)
    step.sequences (step.accepted model argmax)

end Step

open Classical in
/-- **Nothing is lost**, whatever the model is, if and only if the drafts of memory decoding start
with the last token of the sequence. -/
theorem lossless_iff {Row : Type} [Nontrivial Row] (step : Step Row) (h : step.WellFormed) :
    (∀ model argmax, step.IsLossless model argmax) ↔ step.StartsWithLast := by
  constructor
  · intro hlossless
    cases step with
    | memoryDecoding batch =>
      intro s hs
      by_contra hne
      obtain ⟨r, r', hr⟩ := exists_pair_ne Row
      -- a model that tells the sequence from every other list
      let model : List Int → Row := fun l => if l = s.tokens then r else r'
      let argmax : Row → Int := fun row => if row = r then 1 else 0
      have hfed := List.forall₂_map_left_iff.mp
        (Step.accepts_accepted model argmax h)
      have hall := List.forall₂_map_left_iff.mp (hlossless model argmax)
      obtain ⟨i, hi, rfl⟩ := List.mem_iff_getElem.mp hs
      have hi' := hi.trans_eq hall.length_eq
      obtain ⟨as, has, htokens⟩ := (List.forall₂_iff_get.mp hfed).2 i hi hi'
      obtain ⟨as', has', htokens', -⟩ := (List.forall₂_iff_get.mp hall).2 i hi hi'
      obtain rfl := Option.some.inj (has.symm.trans has')
      have hhead := Option.some.inj (htokens.head?.symm.trans htokens'.head?)
      have hfirst : argmax (model batch[i].fed) = 0 := by
        simp only [model, argmax, if_neg (mt MemoryDecoding.Seq.fed_eq_tokens_iff.mp hne),
          if_neg hr.symm]
      have hlast : argmax (model batch[i].tokens) = 1 := by
        simp only [model, argmax, if_true]
      exact absurd (hfirst.symm.trans (hhead.trans hlast)) zero_ne_one
    | lookAhead level batch => trivial
    | mtp num batch => trivial
    | mtpExp num padTokenId batch => trivial
  · intro hstarts model argmax
    have hfed := Step.accepts_accepted model argmax h
    rw [Step.fed_eq_sequences hstarts] at hfed
    refine hfed.imp fun s a ha => ?_
    obtain ⟨accepted, rfl, hlossless⟩ := ha
    exact ⟨accepted, rfl, hlossless, hlossless.length_pos, fun n hn => hlossless.length_le hn⟩

section Example

/-- Two sequences with guesses of two tokens, and one without. -/
def guessing : Step Int :=
  .lookAhead 3 [⟨[5, 6], 1, some [[7, 8], [2, 3]], [0]⟩, ⟨[5], 1, none, [0, 0]⟩,
    ⟨[5, 6, 7], 2, some [[3, 9]], []⟩]

/-- A sequence with a draft, and one for which nothing was found. -/
def remembering : Step Int := .memoryDecoding [⟨[5, 6], 6, [2, 8]⟩, ⟨[4], 4, []⟩]

/-- A model that counts: after `n` tokens it says `n`. -/
def counting (l : List Int) : Int := l.length

example : guessing.accepted counting id = [some [2, 3, 4], some [1], some [3, 4]] ∧
    remembering.accepted counting id = [some [2, 3], some [1]] := by decide

theorem lossless_iff_two :
    (∀ model argmax, guessing.IsLossless model argmax) ∧
      ∀ model argmax, remembering.IsLossless model argmax := by
  constructor
  · refine (lossless_iff guessing fun s hs => ?_).mpr trivial
    simp only [List.mem_cons, List.not_mem_nil, or_false] at hs
    rcases hs with rfl | rfl | rfl
    · exact ⟨by decide, fun gs hgs => by cases hgs; decide⟩
    · exact ⟨by decide, fun gs hgs => by cases hgs⟩
    · exact ⟨by decide, fun gs hgs => by cases hgs; decide⟩
  · exact (lossless_iff remembering trivial).mpr (by simp [remembering, Step.StartsWithLast])

/-- After the tokens 5 and 0 the draft starts with 5, and what is accepted follows two fives. -/
theorem not_lossless_zero :
    let kb : DraftCache Tree := DraftCache.putWindow { eos := [2] } 5 [0, 6] .output 0 {}
    (DraftCache.getSingleDraft [] [5, 0] 4 4 0 kb).1 = [5, 6] ∧
      ¬∀ (model : List Int → Int) argmax,
        (Step.memoryDecoding [⟨[5, 0], 5, [6]⟩]).IsLossless model argmax := by
  refine ⟨by decide +kernel, fun h => ?_⟩
  have hstep := h (fun l => l.getLastD 0 + 1) id
  have haccepted : (Step.memoryDecoding [⟨[5, 0], 5, [6]⟩]).accepted
      (fun l : List Int => l.getLastD 0 + 1) id = [some [6, 7]] := by decide
  rw [Step.IsLossless, haccepted] at hstep
  obtain ⟨as, has, hlossless, -⟩ := (List.forall₂_cons.mp hstep).1
  obtain rfl := Option.some.inj has
  exact absurd (Option.some.inj hlossless.head?) (by decide)

end Example

end MindieLLM
