import Mathlib.Algebra.Order.Ring.Int
import MindieLLM.BlockManager.RemoteKeys

/-!
# The prefix cache plugin

The workers hash the blocks of a prompt once more, in Python, to name the blocks they put into the
pool. Python integers do not wrap, so `hash_combine` reduces the seed after each step, and a token
out of an array of `int64` is hashed by the `hash` of the language.

## Main definitions

* `Value`, `cppStyleHash`: what is hashed, and the number it stands for
* `hashCombine`, `hashBlock`, `hashBlocks`: the hashes of blocks that follow one another
* `Worker`, `getPrefixKeys`, `putRequest`: the keys a worker stores for a request
* `Regular`, `Smooth`: tokens that hash to themselves, and hashing without a seed that wraps to zero

## Main results

* `toNat_hashCombine`: one step of the two hashes
* `Smooth.prefixHashes_eq`: the two chains of hashes
* `mem_putRequest_iff`: the keys that a worker stores
-/

namespace MindieLLM

open Program

namespace PrefixCachePlugin

def invalidHashValue : ℕ := 0
def extraHash : ℤ := invalidHashValue

/-! ## Hashes -/

/-- What is hashed: an `int`, or an element of an array of `int64`. -/
inductive Value
  | int (n : ℤ)
  | int64 (n : ℤ)
  deriving DecidableEq, Repr

/-- `hash` of a number: the residue by `2 ^ 61 - 1` with the sign of the number. -1 is not used. -/
def hash (n : ℤ) : ℤ :=
  let residue := n.tmod (2 ^ 61 - 1)
  if residue = -1 then -2 else residue

def cppStyleHash : Value → ℤ
  | .int n => n
  | .int64 n => hash n

/-- The seed before it is reduced. The sum is never negative, see `mixed_nonneg`. -/
def mix (seed : ℕ) (tokenId : Value) : ℕ :=
  seed ^^^ (cppStyleHash tokenId + 0x9E3779B97F4A7C15 + (seed <<< 6 : ℕ) + (seed >>> 2 : ℕ)).toNat

def hashCombine (seed : ℕ) (tokenId : Value) : ℕ :=
  let seed := mix seed tokenId
  (if seed = invalidHashValue then 1 else seed) % 2 ^ 64

def seedOf (prefixHashValue : ℕ) : ℕ :=
  if prefixHashValue ≠ invalidHashValue then
    hashCombine invalidHashValue (.int prefixHashValue)
  else invalidHashValue

def hashBlock (prefixHashValue : ℕ) (blockTokenIds : List ℤ) : ℕ :=
  let seed := blockTokenIds.foldl (fun seed tokenId => hashCombine seed (.int64 tokenId))
    (seedOf prefixHashValue)
  hashCombine seed (.int extraHash)

/-- The hashes of blocks that come after one with hash `prefixHashValue`. -/
def hashBlocks : ℕ → List (List ℤ) → List ℕ
  | _, [] => []
  | prefixHashValue, block :: blocks =>
    let hashValue := hashBlock prefixHashValue block
    hashValue :: hashBlocks hashValue blocks

/-! ## Hashing without surprises -/

/-- The number stands for itself. -/
def Regular : Value → Prop
  | .int n => 0 ≤ n
  | .int64 n => n.natAbs < 2 ^ 61 - 1 ∧ n ≠ -1

/-- The seed before reduction is a multiple of `2 ^ 64` only if it is zero. -/
def NoWrapToZero (seed : ℕ) (tokenId : Value) : Prop :=
  2 ^ 64 ∣ mix seed tokenId → mix seed tokenId = 0

/-- The values are regular and no seed wraps to zero when they are combined, one after the other. -/
def SmoothFrom : ℕ → List Value → Prop
  | _, [] => True
  | seed, v :: vs => Regular v ∧ NoWrapToZero seed v ∧ SmoothFrom (hashCombine seed v) vs

/-- What `hash_block` combines, in this order. -/
def blockValues (prefixHashValue : ℕ) (blockTokenIds : List ℤ) : List Value :=
  (if prefixHashValue ≠ invalidHashValue then [.int prefixHashValue] else []) ++
    blockTokenIds.map .int64 ++ [.int extraHash]

/-- Nothing out of the ordinary happens while the blocks are hashed. -/
def Smooth : ℕ → List (List ℤ) → Prop
  | _, [] => True
  | prefixHashValue, block :: blocks =>
    SmoothFrom invalidHashValue (blockValues prefixHashValue block) ∧
      Smooth (hashBlock prefixHashValue block) blocks

instance : (v : Value) → Decidable (Regular v)
  | .int n => inferInstanceAs (Decidable (0 ≤ n))
  | .int64 n => inferInstanceAs (Decidable (n.natAbs < 2 ^ 61 - 1 ∧ n ≠ -1))

instance (seed : ℕ) (v : Value) : Decidable (NoWrapToZero seed v) :=
  inferInstanceAs (Decidable (_ → _))

instance decidableSmoothFrom : (seed : ℕ) → (vs : List Value) → Decidable (SmoothFrom seed vs)
  | _, [] => inferInstanceAs (Decidable True)
  | seed, v :: vs =>
    have := decidableSmoothFrom (hashCombine seed v) vs
    inferInstanceAs (Decidable (_ ∧ _ ∧ _))

instance decidableSmooth : (hash : ℕ) → (blocks : List (List ℤ)) → Decidable (Smooth hash blocks)
  | _, [] => inferInstanceAs (Decidable True)
  | hash, block :: blocks =>
    have := decidableSmooth (hashBlock hash block) blocks
    inferInstanceAs (Decidable (_ ∧ _))

/-! ## One step of the two hashes -/

def Value.toInt : Value → ℤ
  | .int n => n
  | .int64 n => n

theorem cppStyleHash_of_regular {v : Value} (h : Regular v) : cppStyleHash v = v.toInt := by
  cases v with
  | int n => rfl
  | int64 n =>
    obtain ⟨habs, hne⟩ := h
    have hmod : n.tmod (2 ^ 61 - 1) = n := by
      rcases le_total 0 n with hn | hn
      · exact Int.tmod_eq_of_lt hn (by omega)
      · have hneg : n.tmod (2 ^ 61 - 1) = -((-n).tmod (2 ^ 61 - 1)) := by
          rw [Int.neg_tmod, Int.neg_neg]
        rw [hneg, Int.tmod_eq_of_lt (by omega) (by omega), Int.neg_neg]
    change (if n.tmod (2 ^ 61 - 1) = -1 then -2 else n.tmod (2 ^ 61 - 1)) = n
    rw [hmod, if_neg hne]

theorem neg_lt_hash (n : ℤ) : -2 ^ 61 < hash n := by
  have hmod := Int.lt_tmod_of_pos n (b := 2 ^ 61 - 1) (by decide)
  simp only [hash]
  split <;> omega

/-- What is added up in `hash_combine` is not negative. -/
theorem mixed_nonneg {v : Value} (seed : ℕ) (h : ∀ n, v = .int n → 0 ≤ n) :
    0 ≤ cppStyleHash v + 0x9E3779B97F4A7C15 + (seed <<< 6 : ℕ) + (seed >>> 2 : ℕ) := by
  have hv : -2 ^ 61 < cppStyleHash v := by
    cases v with
    | int n =>
      have := h n rfl
      simp only [cppStyleHash]
      omega
    | int64 n => exact neg_lt_hash n
  omega

theorem toNat_ofInt (n : ℤ) : ((UInt64.ofInt n).toNat : ℤ) = n % 2 ^ 64 := by
  have hlt := Int.emod_lt_of_pos n (b := 2 ^ 64) (by decide)
  have hnonneg := Int.emod_nonneg n (b := 2 ^ 64) (by decide)
  rw [UInt64.ofInt, UInt64.toNat_ofNat', Nat.mod_eq_of_lt (by omega), Int.toNat_of_nonneg hnonneg]

/-- The sum of `HashCombine`, before it meets the seed. -/
theorem toNat_sum {v : Value} (hv : Regular v) (seed : UInt64) :
    (UInt64.ofInt v.toInt + (0x9e3779b97f4a7c15 : UInt64) + seed <<< (6 : UInt64) +
      seed >>> (2 : UInt64)).toNat =
    (cppStyleHash v + 0x9E3779B97F4A7C15 + (seed.toNat <<< 6 : ℕ) + (seed.toNat >>> 2 : ℕ)).toNat %
      2 ^ 64 := by
  have hnonneg := mixed_nonneg (v := v) seed.toNat fun n hn => by
    subst hn
    exact hv
  have hofInt := toNat_ofInt v.toInt
  rw [cppStyleHash_of_regular hv] at hnonneg ⊢
  rw [UInt64.toNat_add, UInt64.toNat_add, UInt64.toNat_add, UInt64.toNat_shiftLeft,
    UInt64.toNat_shiftRight]
  change ((((UInt64.ofInt v.toInt).toNat + 0x9e3779b97f4a7c15) % 2 ^ 64 +
    seed.toNat <<< 6 % 2 ^ 64) % 2 ^ 64 + seed.toNat >>> 2) % 2 ^ 64 = _
  omega

theorem toNat_hashCombine {v : Value} {seed : UInt64} (hv : Regular v)
    (hno : NoWrapToZero seed.toNat v) :
    (MindieLLM.hashCombine seed (UInt64.ofInt v.toInt)).toNat = hashCombine seed.toNat v := by
  have hmix : (seed ^^^ (UInt64.ofInt v.toInt + (0x9e3779b97f4a7c15 : UInt64) +
      seed <<< (6 : UInt64) + seed >>> (2 : UInt64))).toNat = mix seed.toNat v % 2 ^ 64 := by
    rw [UInt64.toNat_xor, toNat_sum hv, mix, Nat.xor_mod_two_pow,
      Nat.mod_eq_of_lt seed.toNat_lt]
  rw [MindieLLM.hashCombine, hashCombine]
  simp only [← UInt64.toNat_inj, hmix, UInt64.toNat_zero]
  by_cases hzero : mix seed.toNat v = 0
  · simp [hzero, invalidHashValue]
  · have hmod : mix seed.toNat v % 2 ^ 64 ≠ 0 :=
      fun hmod => hzero (hno (Nat.dvd_of_mod_eq_zero hmod))
    rw [if_neg hmod, hmix]
    exact congrArg (· % 2 ^ 64) (if_neg hzero).symm

/-! ## The two chains -/

theorem toNat_foldl {vs : List Value} {seed : UInt64} (h : SmoothFrom seed.toNat vs) :
    ((vs.map fun v => UInt64.ofInt v.toInt).foldl MindieLLM.hashCombine seed).toNat =
      vs.foldl hashCombine seed.toNat := by
  induction vs generalizing seed with
  | nil => rfl
  | cons v vs ih =>
    obtain ⟨hv, hno, hrest⟩ := h
    rw [List.map_cons, List.foldl_cons, List.foldl_cons, ← toNat_hashCombine hv hno]
    rw [← toNat_hashCombine hv hno] at hrest
    exact ih hrest

theorem hashBlock_eq (prefixHashValue : ℕ) (block : List ℤ) :
    hashBlock prefixHashValue block =
      (blockValues prefixHashValue block).foldl hashCombine invalidHashValue := by
  rw [blockValues, List.foldl_append, List.foldl_append, List.foldl_map, hashBlock, seedOf]
  by_cases hprefix : prefixHashValue ≠ invalidHashValue
  · rw [if_pos hprefix, if_pos hprefix, List.foldl_cons, List.foldl_nil, List.foldl_cons,
      List.foldl_nil]
  · rw [if_neg hprefix, if_neg hprefix, List.foldl_nil, List.foldl_cons, List.foldl_nil]

/-- The hash before a block as the plugin keeps it. -/
def prefixHashValue (prev : Option UInt64) : ℕ := prev.elim invalidHashValue UInt64.toNat

theorem ofInt_toNat (h : UInt64) : UInt64.ofInt (h.toNat : ℤ) = h := by
  rw [← UInt64.toNat_inj]
  have hofInt := toNat_ofInt h.toNat
  have hlt := h.toNat_lt
  omega

theorem prefixHash_eq {prev : Option UInt64} (hprev : prev ≠ some 0) (block : List ℤ) :
    PrefixHasher.prefixHash prev block (0 : UInt64) =
      ((blockValues (prefixHashValue prev) block).map fun v => UInt64.ofInt v.toInt).foldl
        MindieLLM.hashCombine 0 := by
  rw [blockValues, List.map_append, List.map_append, List.map_map, List.foldl_append,
    List.foldl_append, List.map_singleton, List.foldl_cons, List.foldl_nil, List.foldl_map]
  cases prev with
  | none =>
    have hnone : ¬prefixHashValue none ≠ invalidHashValue := fun h => h rfl
    rw [if_neg hnone, List.map_nil, List.foldl_nil]
    rfl
  | some h =>
    have hsome : prefixHashValue (some h) ≠ invalidHashValue := fun hzero =>
      hprev (congrArg some (UInt64.toNat_inj.mp hzero))
    rw [if_pos hsome, List.map_singleton, List.foldl_cons, List.foldl_nil, Value.toInt,
      show UInt64.ofInt (prefixHashValue (some h) : ℤ) = h from ofInt_toNat h]
    rfl

/-- The block manager and the plugin hash a chain of blocks to the same values. -/
theorem Smooth.prefixHashes_eq {blocks : List (List ℤ)} {prev : Option UInt64}
    (hprev : prev ≠ some 0) (h : Smooth (prefixHashValue prev) blocks) :
    (prefixHashes 0 prev blocks).map UInt64.toNat = hashBlocks (prefixHashValue prev) blocks := by
  induction blocks generalizing prev with
  | nil => rfl
  | cons block blocks ih =>
    obtain ⟨hblock, hrest⟩ := h
    have hhash : (PrefixHasher.prefixHash prev block (0 : UInt64)).toNat =
        hashBlock (prefixHashValue prev) block := by
      rw [prefixHash_eq hprev, hashBlock_eq]
      exact toNat_foldl hblock
    have hne : some (PrefixHasher.prefixHash prev block (0 : UInt64)) ≠ some 0 := fun heq =>
      PrefixHasher.prefixHash_ne_invalid prev block (0 : UInt64) (Option.some.inj heq)
    rw [← hhash] at hrest
    have hnext : prefixHashValue (some (PrefixHasher.prefixHash prev block (0 : UInt64))) =
        hashBlock (prefixHashValue prev) block := hhash
    rw [prefixHashes, hashBlocks, List.map_cons, ih hne hrest, hhash, hnext]

/-! ## What a worker stores -/

/-- A worker, with what its keys are made of. -/
structure Worker where
  tpSize : ℕ
  tpRank : ℕ
  scpSize : ℕ
  scpRank : ℕ
  dpRank : ℕ
  modelName : String
  tpRank_lt : tpRank < tpSize
  scpRank_lt : scpRank < scpSize

/-- A request of a prefill batch. The row of token ids is padded behind the sequence. -/
structure PutRequest where
  inputIds : List ℤ
  seqLen : ℕ
  remoteComputedBlocks : ℕ
  dpRankId : ℕ
  seqLen_le : seqLen ≤ inputIds.length

/-- Where the loops over the blocks of a request are. -/
structure Cursor where
  prefixHashValue : ℕ
  requestInputIdsOffset : ℕ
  scpRank : ℕ

namespace Worker

variable (w : Worker) (maxBlockSize : ℕ)

/-- The rank in the keys. -/
def rank : ℕ := if w.scpSize > 1 then w.scpRank else w.tpRank

/-- The number of ranks in the keys. -/
def size : ℕ := if w.scpSize > 1 then w.scpSize else w.tpSize

def getPrefixKeys (hashValue : ℕ) : String :=
  if w.scpSize > 1 then field hashValue (field w.scpRank (field w.scpSize w.modelName))
  else field hashValue (field w.tpRank (field w.tpSize w.modelName))

/-- One turn of either loop: the next block is hashed. -/
def next (inputIds : List ℤ) (c : Cursor) : Cursor where
  prefixHashValue := hashBlock c.prefixHashValue
    (slice inputIds c.requestInputIdsOffset (c.requestInputIdsOffset + maxBlockSize))
  requestInputIdsOffset := c.requestInputIdsOffset + maxBlockSize
  scpRank := (c.scpRank + 1) % w.scpSize

/-- The loop over the blocks that are not in the pool; those of other ranks are passed over. -/
def putBlocks (inputIds : List ℤ) : ℕ → Cursor → List String
  | 0, _ => []
  | n + 1, c =>
    let c' := w.next maxBlockSize inputIds c
    if c.scpRank ≠ w.scpRank then putBlocks inputIds n c'
    else w.getPrefixKeys c'.prefixHashValue :: putBlocks inputIds n c'

/-- The keys for one request in `put_prefix_kvcache_to_mempool`. -/
def putRequest (r : PutRequest) : List String :=
  if (r.seqLen - 1 < maxBlockSize ∧ maxBlockSize ≠ 0) ∨ r.dpRankId ≠ w.dpRank then []
  else
    let computedBlocks := r.remoteComputedBlocks
    let reqFullBlocksNum := (r.seqLen - 1) / maxBlockSize
    w.putBlocks maxBlockSize r.inputIds (reqFullBlocksNum - computedBlocks)
      ((w.next maxBlockSize r.inputIds)^[computedBlocks] ⟨invalidHashValue, 0, 0⟩)

/-- The keys `put_prefix_kvcache_to_mempool` stores for a batch. -/
def putPrefixKvcacheToMempool (batch : List PutRequest) : List String :=
  batch.flatMap (w.putRequest maxBlockSize)

/-- The worker stores a block with this hash for the request: one that was not in the pool before,
is full before the last token, and is a block of its rank. -/
def Stores (r : PutRequest) (hashValue : ℕ) : Prop :=
  r.dpRankId = w.dpRank ∧ ∃ j, r.remoteComputedBlocks ≤ j ∧ j < (r.seqLen - 1) / maxBlockSize ∧
    j % w.scpSize = w.scpRank ∧
    (hashBlocks invalidHashValue (fullBlocks maxBlockSize r.inputIds))[j]? = some hashValue

variable {w maxBlockSize}

theorem getPrefixKeys_eq (hashValue : ℕ) :
    w.getPrefixKeys hashValue = remoteKey hashValue w.rank w.size w.modelName := by
  unfold getPrefixKeys rank size
  split <;> rfl

end Worker

theorem getElem?_hashBlocks (prefixHashValue : ℕ) (blocks : List (List ℤ)) (j : ℕ) :
    (hashBlocks prefixHashValue blocks)[j]? =
      if j < blocks.length then some ((blocks.take (j + 1)).foldl hashBlock prefixHashValue)
      else none := by
  induction blocks generalizing prefixHashValue j with
  | nil => rfl
  | cons block blocks ih =>
    cases j with
    | zero => simp [hashBlocks]
    | succ j => simp [hashBlocks, ih]

@[simp]
theorem length_fullBlocks (blockSize : ℕ) (tokens : List ℤ) :
    (fullBlocks blockSize tokens).length = tokens.length / blockSize := by
  rw [fullBlocks, List.length_map, List.length_range]

namespace Worker

variable {w : Worker} {maxBlockSize : ℕ}

/-- The cursor once `n` blocks are hashed. -/
def cursorAt (w : Worker) (maxBlockSize : ℕ) (inputIds : List ℤ) (n : ℕ) : Cursor where
  prefixHashValue := ((fullBlocks maxBlockSize inputIds).take n).foldl hashBlock invalidHashValue
  requestInputIdsOffset := n * maxBlockSize
  scpRank := n % w.scpSize

theorem next_cursorAt {inputIds : List ℤ} {n : ℕ} (hn : n < inputIds.length / maxBlockSize) :
    w.next maxBlockSize inputIds (w.cursorAt maxBlockSize inputIds n) =
      w.cursorAt maxBlockSize inputIds (n + 1) := by
  have hblock : (fullBlocks maxBlockSize inputIds)[n]? =
      some (slice inputIds (n * maxBlockSize) (n * maxBlockSize + maxBlockSize)) := by
    rw [fullBlocks, List.getElem?_map, List.getElem?_range hn, Option.map_some]
  have htake : (fullBlocks maxBlockSize inputIds).take (n + 1) =
      (fullBlocks maxBlockSize inputIds).take n ++
        [slice inputIds (n * maxBlockSize) (n * maxBlockSize + maxBlockSize)] := by
    rw [List.take_add_one, hblock, Option.toList_some]
  rw [next, cursorAt, cursorAt, htake, List.foldl_append, List.foldl_cons, List.foldl_nil,
    Nat.succ_mul, Nat.mod_add_mod]

theorem iterate_next {inputIds : List ℤ} {n : ℕ} (hn : n ≤ inputIds.length / maxBlockSize) :
    (w.next maxBlockSize inputIds)^[n] ⟨invalidHashValue, 0, 0⟩ =
      w.cursorAt maxBlockSize inputIds n := by
  induction n with
  | zero => simp [cursorAt]
  | succ n ih => rw [Function.iterate_succ_apply', ih (by omega), next_cursorAt hn]

theorem mem_putBlocks_iff {inputIds : List ℤ} {k n : ℕ} {key : String}
    (hn : k + n ≤ inputIds.length / maxBlockSize) :
    key ∈ w.putBlocks maxBlockSize inputIds n (w.cursorAt maxBlockSize inputIds k) ↔
      ∃ j h, k ≤ j ∧ j < k + n ∧ j % w.scpSize = w.scpRank ∧
        (hashBlocks invalidHashValue (fullBlocks maxBlockSize inputIds))[j]? = some h ∧
        key = w.getPrefixKeys h := by
  induction n generalizing k with
  | zero =>
    refine ⟨fun h => absurd h List.not_mem_nil, ?_⟩
    rintro ⟨j, h, hk, hj, -⟩
    omega
  | succ n ih =>
    have hnext : w.next maxBlockSize inputIds (w.cursorAt maxBlockSize inputIds k) =
        w.cursorAt maxBlockSize inputIds (k + 1) := next_cursorAt (by omega)
    have hhash : (hashBlocks invalidHashValue (fullBlocks maxBlockSize inputIds))[k]? =
        some (w.cursorAt maxBlockSize inputIds (k + 1)).prefixHashValue := by
      rw [getElem?_hashBlocks, if_pos (by rw [length_fullBlocks]; omega)]
      rfl
    have hrest := ih (k := k + 1) (by omega)
    simp only [putBlocks, hnext]
    split
    · rename_i hrank
      rw [hrest]
      constructor
      · rintro ⟨j, h, hk, hj, hmod, hget, hkey⟩
        exact ⟨j, h, by omega, by omega, hmod, hget, hkey⟩
      · rintro ⟨j, h, hk, hj, hmod, hget, hkey⟩
        have hne : j ≠ k := fun heq => hrank (heq ▸ hmod)
        exact ⟨j, h, by omega, by omega, hmod, hget, hkey⟩
    · rename_i hrank
      rw [List.mem_cons, hrest]
      constructor
      · rintro (hkey | ⟨j, h, hk, hj, hmod, hget, hkey⟩)
        · exact ⟨k, _, le_rfl, by omega, not_not.mp hrank, hhash, hkey⟩
        · exact ⟨j, h, by omega, by omega, hmod, hget, hkey⟩
      · rintro ⟨j, h, hk, hj, hmod, hget, hkey⟩
        by_cases heq : j = k
        · subst heq
          rw [hhash, Option.some.injEq] at hget
          exact .inl (hget ▸ hkey)
        · exact .inr ⟨j, h, by omega, by omega, hmod, hget, hkey⟩

/-- A worker stores the keys of the blocks it stores. -/
theorem mem_putRequest_iff {r : PutRequest} {key : String} :
    key ∈ w.putRequest maxBlockSize r ↔
      ∃ h, w.Stores maxBlockSize r h ∧ key = w.getPrefixKeys h := by
  have hle : (r.seqLen - 1) / maxBlockSize ≤ r.inputIds.length / maxBlockSize :=
    Nat.div_le_div_right (by have := r.seqLen_le; omega)
  unfold putRequest
  split
  · rename_i hskip
    refine ⟨fun h => absurd h List.not_mem_nil, ?_⟩
    rintro ⟨h, ⟨hdp, j, -, hj, -⟩, -⟩
    rcases hskip with ⟨hshort, -⟩ | hdp'
    · rw [Nat.div_eq_of_lt hshort] at hj
      omega
    · exact absurd hdp hdp'
  · rename_i hskip
    have hdp : r.dpRankId = w.dpRank := not_not.mp fun h => hskip (.inr h)
    by_cases hcomputed : r.remoteComputedBlocks ≤ (r.seqLen - 1) / maxBlockSize
    · simp only
      rw [iterate_next (by omega), mem_putBlocks_iff (by omega)]
      constructor
      · rintro ⟨j, h, hk, hj, hmod, hget, hkey⟩
        exact ⟨h, ⟨hdp, j, hk, by omega, hmod, hget⟩, hkey⟩
      · rintro ⟨h, ⟨-, j, hk, hj, hmod, hget⟩, hkey⟩
        exact ⟨j, h, hk, by omega, hmod, hget, hkey⟩
    · simp only
      rw [Nat.sub_eq_zero_of_le (by omega)]
      refine ⟨fun h => absurd h List.not_mem_nil, ?_⟩
      rintro ⟨h, ⟨-, j, hk, hj, -⟩, -⟩
      omega

end Worker

/-! ## The two sides

The pool holds what the workers have put there, each for the batches it computed. -/

/-- A worker and a batch it has put into the pool. -/
structure Put where
  worker : Worker
  batch : List PutRequest

/-- Some worker with this rank has stored a block with this hash. -/
def Stored (maxBlockSize : ℕ) (puts : List Put) (rank size : ℕ) (modelName : String)
    (hashValue : ℕ) : Prop :=
  ∃ p ∈ puts, p.worker.rank = rank ∧ p.worker.size = size ∧ p.worker.modelName = modelName ∧
    ∃ r ∈ p.batch, p.worker.Stores maxBlockSize r hashValue

/-- What the pool answers when it holds the keys of these puts. -/
def lookUp (maxBlockSize : ℕ) (puts : List Put) (key : String) : Bool :=
  puts.any fun p => (p.worker.putPrefixKvcacheToMempool maxBlockSize p.batch).contains key

theorem lookUp_remoteKey_iff {maxBlockSize : ℕ} {puts : List Put} {hashValue rank size : ℕ}
    {modelName : String} :
    lookUp maxBlockSize puts (remoteKey hashValue rank size modelName) ↔
      Stored maxBlockSize puts rank size modelName hashValue := by
  simp only [lookUp, List.any_eq_true, List.contains_iff_mem, Worker.putPrefixKvcacheToMempool,
    List.mem_flatMap, Worker.mem_putRequest_iff, Worker.getPrefixKeys_eq, remoteKey_inj]
  constructor
  · rintro ⟨p, hp, r, hr, h, hstores, rfl, rfl, rfl, rfl⟩
    exact ⟨p, hp, rfl, rfl, rfl, r, hr, hstores⟩
  · rintro ⟨p, hp, rfl, rfl, rfl, r, hr, hstores⟩
    exact ⟨p, hp, r, hr, _, hstores, rfl, rfl, rfl, rfl⟩

/-- **The blocks found in the pool** are those up to the first that some rank has not stored. -/
theorem numRemoteComputedBlocks_spec {maxBlockSize tpSize computedLens : ℕ} (puts : List Put)
    (keys : List UInt64) (modelName : String) (htp : 0 < tpSize) {n : ℕ}
    (hn : n = numRemoteComputedBlocks (lookUp maxBlockSize puts) keys computedLens tpSize
      modelName) :
    computedLens ≤ n ∧
      (∀ i key, computedLens ≤ i → i < n → keys[i]? = some key → ∀ rank < tpSize,
        Stored maxBlockSize puts rank tpSize modelName key.toNat) ∧
      ∀ key, keys[n]? = some key →
        ∃ rank < tpSize, ¬Stored maxBlockSize puts rank tpSize modelName key.toNat := by
  have hall : ∀ key : UInt64, ((List.range tpSize).all fun rank =>
      lookUp maxBlockSize puts (remoteKey key.toNat rank tpSize modelName)) ↔
      ∀ rank < tpSize, Stored maxBlockSize puts rank tpSize modelName key.toNat := by
    intro key
    simp only [List.all_eq_true, List.mem_range, lookUp_remoteKey_iff]
  rw [numRemoteComputedBlocks_eq htp] at hn
  refine ⟨by omega, fun i key hi hin hkey => ?_, fun key hkey => ?_⟩
  · rw [← hall]
    have hdrop : (keys.drop computedLens)[i - computedLens]? = some key := by
      rw [List.getElem?_drop, Nat.add_sub_cancel' hi, hkey]
    rw [hn, Nat.add_comm, ← Nat.sub_lt_iff_lt_add hi] at hin
    have hpre := of_lt_length_takeWhile hin hdrop
    exact hpre
  · have hnot := not_of_length_takeWhile (l := keys.drop computedLens) (a := key)
      (by rw [List.getElem?_drop, ← hn, hkey])
    rw [hall key] at hnot
    obtain ⟨rank, hrank⟩ := not_forall.mp hnot
    exact ⟨rank, Classical.not_imp.mp hrank⟩

/-- **The two prefix hashes agree** for a sequence without an extra hash, wherever nothing out of
the ordinary happens in the hashes of Python: the block objects of the full blocks have the hashes
the plugin computes, under the same keys, and the block manager finds exactly those of them in the
pool whose keys the workers have stored. -/
theorem prefixHash_agrees {m : Mem UInt64} {ps : List Ptr} {blockSize : ℕ} {tokens : List TokenId}
    (hps : Linked m 0 none ps)
    (htokens : ps.map (fun p => (m.obj p).tokenIds) = fullBlocks blockSize tokens)
    (hsmooth : Smooth invalidHashValue (fullBlocks blockSize tokens)) :
    ∃ keys : List UInt64, List.Forall₂ (HashOf m) ps keys ∧
      keys.map UInt64.toNat = hashBlocks invalidHashValue (fullBlocks blockSize tokens) ∧
      (∀ w : Worker, keys.map (fun key => remoteKey key.toNat w.rank w.size w.modelName) =
        (hashBlocks invalidHashValue (fullBlocks blockSize tokens)).map w.getPrefixKeys) ∧
      ∀ (puts : List Put) (tpSize computedLens : ℕ) (modelName : String), 0 < tpSize →
        let n := numRemoteComputedBlocks (lookUp blockSize puts) keys computedLens tpSize modelName
        (∀ i hash, computedLens ≤ i → i < n →
          (hashBlocks invalidHashValue (fullBlocks blockSize tokens))[i]? = some hash →
          ∀ rank < tpSize, Stored blockSize puts rank tpSize modelName hash) ∧
        (∀ hash, (hashBlocks invalidHashValue (fullBlocks blockSize tokens))[n]? = some hash →
          ∃ rank < tpSize, ¬Stored blockSize puts rank tpSize modelName hash) := by
  have hkeys : (prefixHashes 0 none (fullBlocks blockSize tokens)).map UInt64.toNat =
      hashBlocks (prefixHashValue none) (fullBlocks blockSize tokens) :=
    Smooth.prefixHashes_eq (Option.some_ne_none 0).symm hsmooth
  refine ⟨prefixHashes 0 none (fullBlocks blockSize tokens), htokens ▸ hps.hashOf .none, hkeys,
    fun w => ?_, fun puts tpSize computedLens modelName htp => ?_⟩
  · rw [show invalidHashValue = prefixHashValue none from rfl, ← hkeys, List.map_map]
    exact List.map_congr_left fun key _ => (Worker.getPrefixKeys_eq _).symm
  · obtain ⟨-, hfound, hfirst⟩ := numRemoteComputedBlocks_spec puts
      (prefixHashes 0 none (fullBlocks blockSize tokens)) modelName htp
      (Eq.refl (numRemoteComputedBlocks (lookUp blockSize puts)
        (prefixHashes 0 none (fullBlocks blockSize tokens)) computedLens tpSize modelName))
    rw [show invalidHashValue = prefixHashValue none from rfl, ← hkeys]
    refine ⟨fun i hash hi hin hhash => ?_, fun hash hhash => ?_⟩
    · rw [List.getElem?_map, Option.map_eq_some_iff] at hhash
      obtain ⟨key, hkey, rfl⟩ := hhash
      exact hfound i key hi hin hkey
    · rw [List.getElem?_map, Option.map_eq_some_iff] at hhash
      obtain ⟨key, hkey, rfl⟩ := hhash
      exact hfirst key hkey

/-- A node with two full blocks of three tokens, and workers of two ranks. -/
theorem prefixHash_agrees_block :
    let m : Mem UInt64 := { (Mem.new 2 : Mem UInt64) with
      obj := fun p => { (BlockObj.new : BlockObj UInt64) with
        tokenIds := if p = 0 then [5, 9, 2] else [7, 4, 4]
        prevBlock := if p = 0 then none else some 0
        blockSize := 3
        tokenIds_le := by split <;> exact le_rfl } }
    let hashes := hashBlocks invalidHashValue (fullBlocks 3 [5, 9, 2, 7, 4, 4, 1])
    ∃ keys : List UInt64, List.Forall₂ (HashOf m) [0, 1] keys ∧ keys.map UInt64.toNat = hashes ∧
      (∀ w : Worker, keys.map (fun key => remoteKey key.toNat w.rank w.size w.modelName) =
        hashes.map w.getPrefixKeys) ∧
      ∀ puts, let n := numRemoteComputedBlocks (lookUp 3 puts) keys 0 2 "qwen"
        (∀ i hash, i < n → hashes[i]? = some hash →
          ∀ rank < 2, Stored 3 puts rank 2 "qwen" hash) ∧
        ∀ hash, hashes[n]? = some hash → ∃ rank < 2, ¬Stored 3 puts rank 2 "qwen" hash := by
  intro m hashes
  obtain ⟨keys, hhash, hkeys, hworkers, hpool⟩ := @prefixHash_agrees m [0, 1] 3
    [5, 9, 2, 7, 4, 4, 1]
    (.cons (by decide) rfl rfl (fun h => absurd rfl h)
      (.cons (by decide) rfl rfl (fun h => absurd rfl h) .nil)) (by decide) (by decide)
  refine ⟨keys, hhash, hkeys, hworkers, fun puts => ?_⟩
  obtain ⟨hfound, hfirst⟩ := hpool puts 2 0 "qwen" Nat.two_pos
  exact ⟨fun i hash hi => hfound i hash (Nat.zero_le i) hi, hfirst⟩

/-- The plugin leaves out the extra hash of an adapter, so the hashes differ for the first block
already. Without one they differ for a token that does not hash to itself, and where a seed wraps
to zero. -/
theorem not_prefixHash_agrees :
    ¬(∀ (extraHash : UInt64) (blockSize : ℕ) (tokens : List TokenId),
      (prefixHashes extraHash none (fullBlocks blockSize tokens)).map UInt64.toNat =
        hashBlocks invalidHashValue (fullBlocks blockSize tokens)) ∧
    (prefixHashes 0 none [[2 ^ 61 - 1]]).map UInt64.toNat ≠
      hashBlocks invalidHashValue [[2 ^ 61 - 1]] ∧
    (prefixHashes 0 none [[48506054970966016, 2305827829952961467]]).map UInt64.toNat ≠
      hashBlocks invalidHashValue [[48506054970966016, 2305827829952961467]] := by
  refine ⟨fun h => ?_, by decide, by decide⟩
  exact absurd (h 1 1 [1]) (by decide)

end PrefixCachePlugin

end MindieLLM
