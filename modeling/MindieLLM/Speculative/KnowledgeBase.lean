import MindieLLM.Program.Slices
import MindieLLM.Speculative.Tree

/-!
# The knowledge base of memory decoding

The knowledge base has a tree for each token. Windows of prompts and of answers are put in, and the
trees that prompts have touched are remembered: when a request finishes, the frequencies under its
cache id are cleared in these.

## Main definitions

* `TokensKnowledgeBaseCache`: the trees
* `KnowledgeBase.putWindow`, `KnowledgeBase.clearInput`, `KnowledgeBase.trim`: its operations
-/

namespace MindieLLM

open Program MindieLLM.Tree

/-- What the knowledge base is made with. -/
structure KnowledgeBaseParams where
  eos : List Int
  dynamicAlgo : Bool := false
  maxSize : Nat := 65536
  maxOutputSize : Nat := 1024

/-- Trees are named by their tokens, in the sets of changed trees as well. -/
structure TokensKnowledgeBaseCache where
  token2tree : Int → Option Tree := fun _ => none
  tempOutput : Nat → List Int := fun _ => []
  changedPrefixTrees : List Int := []
  changedInputPrefixTrees : List Int := []

namespace KnowledgeBase

variable (params : KnowledgeBaseParams)

/-- `get_tokens_without_eos` of a list, which is cut. -/
def cutAtEos (inputIds : List Int) : List Int :=
  params.eos.foldl (fun ids e => ids.takeWhile fun t => t != e) inputIds

/-- `get_prefix_tree`, and the trees that have changed. -/
def putWindow (token : Int) (windowTokens : List Int) (pattern : Pattern) (useBatch : Nat)
    (kb : TokensKnowledgeBaseCache) : TokensKnowledgeBaseCache :=
  let prefixTree := (kb.token2tree token).getD
    { startTokenId := token
      maxSize := params.maxSize
      maxOutputSize := params.maxOutputSize }
  { kb with
    token2tree := Function.update kb.token2tree token
      (some (prefixTree.addNode params.dynamicAlgo windowTokens pattern useBatch))
    changedPrefixTrees := kb.changedPrefixTrees.insert token
    changedInputPrefixTrees :=
      if pattern = .input then kb.changedInputPrefixTrees.insert token
      else kb.changedInputPrefixTrees }

/-- `clear_input` -/
def clearInput (useBatch : Nat) (kb : TokensKnowledgeBaseCache) : TokensKnowledgeBaseCache :=
  { kb with
    token2tree := fun token =>
      if token ∈ kb.changedInputPrefixTrees then
        (kb.token2tree token).map (Tree.clearInput useBatch)
      else kb.token2tree token }

def trim (kb : TokensKnowledgeBaseCache) : TokensKnowledgeBaseCache :=
  if 1024 ≤ kb.changedPrefixTrees.length then
    { kb with
      token2tree := fun token =>
        if token ∈ kb.changedPrefixTrees then (kb.token2tree token).map Tree.trim
        else kb.token2tree token
      changedPrefixTrees := [] }
  else kb

def setTempOutput (useBatch : Nat) (ids : List Int) (kb : TokensKnowledgeBaseCache) :
    TokensKnowledgeBaseCache :=
  { kb with tempOutput := Function.update kb.tempOutput useBatch ids }

end KnowledgeBase

end MindieLLM
