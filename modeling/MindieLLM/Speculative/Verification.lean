import Mathlib.Algebra.GroupWithZero.Nat
import MindieLLM.Program.Continuation
import MindieLLM.Program.Slices

/-!
# Verification of drafts

Three plugins guess how an answer goes on and have the model check it in one forward pass. The model
gets the guesses of all sequences of the batch in one flat list, and its tokens come back in one
flat list; each plugin finds the rows of a sequence again by counting. Selection is greedy, so that
a row of logits is the token that follows what the row has seen.

## Main definitions

* `MemoryDecoding.verifySingle`: a draft for each sequence, of any length
* `LookAhead.laVerifyGreedyOneBatch`: several guesses of one length for each sequence
* `Mtp.pluginVerify`, `Mtp.pluginVerifyExp`: a draft of one length for each sequence
-/

namespace MindieLLM

open Program

/-! ## Memory decoding -/

namespace MemoryDecoding

/-- `verify_single_draft_process`, from the index on: the indices, and whether all of the draft has
been accepted. -/
def verifySingleDraftProcess (nextTokenIds : List Int) (i : Nat) : List Int → Bool × List Nat
  | [] => (true, [])
  | draftId :: rest =>
    if nextTokenIds[i]? = some draftId then
      let next := verifySingleDraftProcess nextTokenIds (i + 1) rest
      (next.1, i :: next.2)
    else (false, [i])

/-- The indices of one sequence. The first of its tokens is not a guess. -/
def verifyOne (nextTokenIds : List Int) (offset : Nat) : List Int → List Nat
  | [] => []
  | [_] => [offset]
  | _ :: draftId :: rest =>
    if nextTokenIds[offset]? ≠ some draftId then [offset]
    else
      let next := verifySingleDraftProcess nextTokenIds (offset + 1) rest
      offset :: next.2 ++ if next.1 then [offset + (rest.length + 1)] else []

/-- `verify_single`, from the offset on. -/
def verifySingleFrom (nextTokenIds : List Int) (offset : Nat) : List (List Int) → List (List Nat)
  | [] => []
  | decodingId :: rest =>
    verifyOne nextTokenIds offset decodingId ::
      verifySingleFrom nextTokenIds (offset + decodingId.length) rest

def verifySingle (nextTokenIds : List Int) (decodingIds : List (List Int)) : List (List Nat) :=
  verifySingleFrom nextTokenIds 0 decodingIds

end MemoryDecoding

/-! ## Look-ahead -/

namespace LookAhead

/-- What a run over the guesses has found: the longest hit, its indices, and whether the cache of
the keys and values has to be computed again. -/
structure Hits where
  maxHit : Nat
  hits : List Nat
  needCalKv : Bool

/-- One guess, the one with the number `eg`. -/
def verifyGuess (level : Nat) (nextGuessTokens : List Int) (nextGuessIndices : List Nat)
    (found : Hits) (eg : Nat) (guess : List Int) : Hits :=
  let egx := eg * (level - 1)
  let correctIndices :=
    nextGuessIndices.take 1 ++ slice nextGuessIndices.tail egx (egx + (level - 1))
  let correct := nextGuessTokens.take 1 ++ slice nextGuessTokens.tail egx (egx + (level - 1))
  let gg := hitLength guess correct
  if found.maxHit < gg then ⟨gg, correctIndices.take (gg + 1), found.needCalKv || 0 < eg⟩ else found

/-- The loop over the guesses, from the number `eg` on. -/
def verifyGuesses (level : Nat) (nextGuessTokens : List Int) (nextGuessIndices : List Nat) :
    Hits → Nat → List (List Int) → Hits
  | found, _, [] => found
  | found, eg, guess :: rest =>
    verifyGuesses level nextGuessTokens nextGuessIndices
      (verifyGuess level nextGuessTokens nextGuessIndices found eg guess) (eg + 1) rest

/-- `la_verify_greedy_one_batch` -/
def laVerifyGreedyOneBatch (level : Nat) (verifyGuessTokens : Option (List (List Int)))
    (nextGuessTokens : List Int) (nextGuessIndices : List Nat) : List Nat × Bool :=
  match verifyGuessTokens with
  | none => (nextGuessIndices.take 1, false)
  | some guesses =>
    let found := verifyGuesses level nextGuessTokens nextGuessIndices
      ⟨0, nextGuessIndices.take 1, false⟩ 0 guesses
    (found.hits, found.needCalKv)

/-- The number of logits of a sequence: its next token, and one for each token that is guessed. -/
def qLen : Option (List (List Int)) → Nat
  | none => 1
  | some [] => 1
  | some (guess :: rest) => 1 + (rest.length + 1) * guess.length

/-- `la_token_verify_not_sample` of a decode, from the start on. -/
def laTokenVerifyFrom (level : Nat) (nextTokensUncheck : List Int) (startPos : Nat) :
    List (Option (List (List Int))) → List (List Nat)
  | [] => []
  | guesses :: rest =>
    let endPos := startPos + qLen guesses
    let nextGuessIndices := List.range' startPos (qLen guesses)
    let nextGuessByBatch := slice nextTokensUncheck startPos endPos
    let indices :=
      if guesses = none then nextGuessIndices
      else (laVerifyGreedyOneBatch level guesses nextGuessByBatch nextGuessIndices).1
    indices :: laTokenVerifyFrom level nextTokensUncheck endPos rest

/-- The rows of the logits that are verified: where a sequence ends, how many tokens of its window
come last, and how many tokens are guessed. -/
def nextGuessLogits {Row : Type} (logits : List Row) :
    List (Nat × Nat × Option (List (List Int))) → List Row
  | [] => []
  | (ends, pastTokenLen, guesses) :: rest =>
    let guessTokenNum := qLen guesses - 1
    slice logits (ends - pastTokenLen - guessTokenNum - 1) (ends - pastTokenLen) ++
      nextGuessLogits logits rest

end LookAhead

/-! ## MTP -/

namespace Mtp

/-- `plugin_verify`, before `stop_criteria`: the indices of each sequence. -/
def pluginVerify (numSpeculativeTokens : Nat) (nextTokensUncheck draftToken : List Int)
    (batchSize : Nat) : List (List Nat) :=
  (List.range batchSize).map fun batch =>
    let startPos := batch * (numSpeculativeTokens + 1)
    let nextGuessByBatch := slice nextTokensUncheck startPos (startPos + (numSpeculativeTokens + 1))
    let verifyGuessTokens :=
      slice draftToken (batch * numSpeculativeTokens) ((batch + 1) * numSpeculativeTokens)
    -- `verify_greedy_one_batch`
    let indices := hitLength verifyGuessTokens nextGuessByBatch
    List.range' startPos (indices + 1)

/-- `torch.cumprod` -/
def cumprod : Nat → List Nat → List Nat
  | _, [] => []
  | acc, x :: rest => acc * x :: cumprod (acc * x) rest

/-- What `plugin_verify_exp` leaves of a sequence. -/
structure Verified where
  tokenIds : List Int
  numNewTokens : Nat
  deriving DecidableEq

/-- `plugin_verify_exp` -/
def pluginVerifyExp (numSpeculativeTokens : Nat) (padTokenId : Int)
    (nextTokensUncheck draftToken : List Int) : List Verified :=
  let outSeqLen := numSpeculativeTokens + 1
  let batchSize := nextTokensUncheck.length / outSeqLen
  (List.range batchSize).map fun batch =>
    let rawTokenIds := slice nextTokensUncheck (batch * outSeqLen) ((batch + 1) * outSeqLen)
    let verifyGuess :=
      slice draftToken (batch * numSpeculativeTokens) ((batch + 1) * numSpeculativeTokens)
    let hits := List.zipWith (fun guess next => if guess = next then 1 else 0) verifyGuess
      (rawTokenIds.take numSpeculativeTokens)
    let indicesCount := (cumprod 1 hits).sum + 1
    { tokenIds := rawTokenIds.mapIdx fun i x => if i < indicesCount then x else padTokenId
      numNewTokens := indicesCount }

end Mtp

end MindieLLM
