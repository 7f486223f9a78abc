import MindieLLM.BlockManager.HashChain
import MindieLLM.Program.DecimalKeys
import MindieLLM.Program.Slices

/-!
# The keys a sequence's blocks have in the pool

The workers put full blocks into a pool that outlives the node, each under its prefix hash and the
rank that computed it. The block manager asks the pool for the blocks that come after those it has
itself, rank by rank, and counts the blocks of which every rank has its part.

## Main definitions

* `fullBlocks size tokens`: the blocks of a token list that are full
* `prefixHashes`: the hashes of blocks that follow one another
* `Linked m e q ps`: the block objects `ps` follow one another behind `q`
* `remoteKey`, `numRemoteComputedBlocks`: what `GetRemoteComputedBlockIds` asks for and counts

## Main results

* `Linked.hashOf`: `PrefixHash` gives linked block objects the hashes of their tokens
* `remoteKey_inj`: a key determines the hash, the rank and the number of ranks
* `numRemoteComputedBlocks_eq`: blocks are counted up to the first that is not there on all ranks
-/

namespace MindieLLM

open Program

/-- The full blocks of `blockSize` tokens. -/
def fullBlocks (blockSize : ℕ) (tokens : List TokenId) : List (List TokenId) :=
  (List.range (tokens.length / blockSize)).map fun i =>
    slice tokens (i * blockSize) (i * blockSize + blockSize)

section

variable {HashValue : Type} [PrefixHasher HashValue]

/-- The hashes of blocks that come after one with hash `prev`. -/
def prefixHashes (extraHash : HashValue) : Option HashValue → List (List TokenId) → List HashValue
  | _, [] => []
  | prev, block :: blocks =>
    let hash := PrefixHasher.prefixHash prev block extraHash
    hash :: prefixHashes extraHash (some hash) blocks

/-- The block objects `ps` follow one another behind `q`. They are full, belong to a sequence with
the extra hash `e`, and what has been memoised is what they hash to. -/
inductive Linked (m : Mem HashValue) (e : HashValue) : Option Ptr → List Ptr → Prop
  | nil {q} : Linked m e q []
  | cons {q p ps} (hready : (m.obj p).isReadyToCalcPrefixHash) (hextra : (m.obj p).extraHash = e)
    (hprev : (m.obj p).prevBlock = q)
    (hmemo : (m.obj p).cachedPrefixHash ≠ invalidHashValue →
      HashedFrom m p (m.obj p).cachedPrefixHash)
    (hps : Linked m e (some p) ps) : Linked m e q (p :: ps)

variable {m : Mem HashValue} {e : HashValue}

theorem HashOf.of_hashedFrom {p : Ptr} {key : HashValue} (h : HashedFrom m p key)
    (hmemo : (m.obj p).cachedPrefixHash ≠ invalidHashValue →
      HashedFrom m p (m.obj p).cachedPrefixHash) : HashOf m p key := by
  by_cases hinv : (m.obj p).cachedPrefixHash = invalidHashValue
  · exact h.hashOf hinv
  · have hown := HashOf.memo hinv
    -- Both are computed from the same predecessor.
    have hsame : key = (m.obj p).cachedPrefixHash := by
      cases h with
      | first _ hprev =>
        generalize (m.obj p).cachedPrefixHash = cached at hmemo hinv
        cases hmemo hinv with
        | first => rfl
        | next _ hprev' => rw [hprev] at hprev'; cases hprev'
      | next _ hprev hq =>
        generalize (m.obj p).cachedPrefixHash = cached at hmemo hinv
        cases hmemo hinv with
        | first _ hprev' => rw [hprev] at hprev'; cases hprev'
        | next _ hprev' hq' =>
          rw [hprev, Option.some.injEq] at hprev'
          subst hprev'
          rw [hq.unique hq']
    rwa [hsame]

/-- `PrefixHash` gives linked block objects the hashes of their tokens. -/
theorem Linked.hashOf {q : Option Ptr} {ps : List Ptr} (h : Linked m e q ps)
    {prev : Option HashValue} (hprev : Option.Rel (HashOf m) q prev) :
    List.Forall₂ (HashOf m) ps (prefixHashes e prev (ps.map fun p => (m.obj p).tokenIds)) := by
  induction h generalizing prev with
  | nil => exact .nil
  | @cons q p ps hready hextra hlink hmemo _ ih =>
    have hp : HashOf m p (PrefixHasher.prefixHash prev (m.obj p).tokenIds e) := by
      refine HashOf.of_hashedFrom ?_ hmemo
      subst hextra
      cases hprev with
      | some hq => exact .next hready hlink hq
      | none => exact .first hready hlink
    exact .cons hp (ih (.some hp))

end

/-! ## Keys -/

/-- The key of a block on one of `size` ranks. -/
def remoteKey (hashValue rank size : ℕ) (modelName : String) : String :=
  field hashValue (field rank (field size modelName))

theorem remoteKey_inj {h h' r r' s s' : ℕ} {n n' : String} :
    remoteKey h r s n = remoteKey h' r' s' n' ↔ h = h' ∧ r = r' ∧ s = s' ∧ n = n' := by
  rw [remoteKey, remoteKey, field_inj, field_inj, field_inj]

/-- `allKeys`: for every block that is not computed, the keys of its parts on the ranks. -/
def remoteKeys (hashValues : List UInt64) (computedLens tpSize : ℕ) (modelName : String) :
    List String :=
  (hashValues.drop computedLens).flatMap fun hashValue =>
    (List.range tpSize).map fun tpIds => remoteKey hashValue.toNat tpIds tpSize modelName

/-- The number of blocks `GetRemoteComputedBlockIds` finds for one sequence. `lookUp` is what the
pool answers for each key. -/
def numRemoteComputedBlocks (lookUp : String → Bool) (hashValues : List UInt64)
    (computedLens tpSize : ℕ) (modelName : String) : ℕ :=
  let allKeys := remoteKeys hashValues computedLens tpSize modelName
  if !allKeys.isEmpty && 0 < tpSize then
    computedLens + (allKeys.takeWhile lookUp).length / tpSize
  else computedLens

/-- Blocks are counted up to the first that is not there on all ranks. -/
theorem numRemoteComputedBlocks_eq {tpSize : ℕ} (htp : 0 < tpSize) (lookUp : String → Bool)
    (hashValues : List UInt64) (computedLens : ℕ) (modelName : String) :
    numRemoteComputedBlocks lookUp hashValues computedLens tpSize modelName = computedLens +
      ((hashValues.drop computedLens).takeWhile fun hashValue => (List.range tpSize).all fun rank =>
        lookUp (remoteKey hashValue.toNat rank tpSize modelName)).length := by
  have hcount := length_takeWhile_flatMap lookUp
    (fun hashValue : UInt64 => (List.range tpSize).map fun tpIds =>
      remoteKey hashValue.toNat tpIds tpSize modelName) htp (fun _ => by simp)
    (hashValues.drop computedLens)
  simp only [List.all_map, Function.comp_def] at hcount
  rw [numRemoteComputedBlocks]
  split
  · rw [← hcount]; rfl
  · rename_i hempty
    have hnil : remoteKeys hashValues computedLens tpSize modelName = [] := by
      simpa [htp] using hempty
    rw [← hcount]
    change _ = computedLens + ((remoteKeys hashValues computedLens tpSize modelName).takeWhile
      lookUp).length / tpSize
    rw [hnil]
    simp

end MindieLLM
