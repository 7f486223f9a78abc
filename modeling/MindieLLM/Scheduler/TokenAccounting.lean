import MindieLLM.BlockManager.RankStaircase
import MindieLLM.Scheduler.SelfAttnManager

/-!
# The tokens of a round add up

The count of tokens subtracts unsigned numbers all the way: computed tokens from the length, cached
tokens from what is left, a block from the cached tokens for the metric. Here every such difference
is checked, and none of them wraps around. The uncached and the cached tokens of a round are then
all the tokens that are left, or those of the chunk.

## Main definitions

* `PolicyHelper.accountTokens`: the count with checked differences, and the metric it writes
* `SequenceGroup.countedSeqs`, `SequenceGroup.tokensLeft`: what is counted
* `CachingLookup`: the lookups of the allocators change nothing
* `SelfAttnBlockManager.InOrder`, `SelfAttnBlockManager.Counted`: what a count needs

## Main results

* `PolicyHelper.tokens_accounted`: the count of a group
-/

namespace MindieLLM

open Program

variable {HashValue A : Type}

/-! ## The count with checked differences -/

/-- What a difference of unsigned numbers that wraps around is reported with. -/
def unsignedUnderflow : Exn := .undefinedBehavior "unsigned underflow"

/-- The numbers that are counted: uncached and cached tokens, and the value that the metric
`prefixCachedTokenNum_` is set to. -/
structure TokenCount where
  uncached : ℕ
  cached : ℕ
  prefixCachedTokenNum : Option ℕ := none
  deriving DecidableEq, Repr

namespace SequenceGroup

/-- The sequences of a group that are counted. -/
def countedSeqs (seqGroup : SequenceGroup HashValue) (status : SequenceStatus) :
    List (Sequence HashValue) :=
  if seqGroup.enableParallelSampling ∧ (status = .running ∨ status = .swapped) then
    seqGroup.getParallelSequences .allStatus
  else seqGroup.getSequences status

/-- All the tokens that are left to compute. -/
def tokensLeft (seqGroup : SequenceGroup HashValue) (status : SequenceStatus) : ℕ :=
  ((seqGroup.countedSeqs status).map (·.getNumUncomputedTokens)).sum

end SequenceGroup

namespace PolicyHelper

section Checked

variable {m : Type → Type} [Monad m] [MonadExcept Exn m]

/-- A difference of unsigned numbers. -/
def subSize (a b : ℕ) : m ℕ :=
  if a < b then throw unsignedUnderflow else return a - b

/-- The value of the metric: a prompt that is cached entirely has its last block computed again. -/
def prefixCachedTokenNum (cfg : SchedulerConfig) (allNumNewTokensSeq numCachedTokensSeq : ℕ) :
    m ℕ :=
  if allNumNewTokensSeq = numCachedTokensSeq then subSize numCachedTokensSeq cfg.cacheBlockSize
  else return numCachedTokensSeq

/-- The cached tokens that are not computed yet. -/
def numCachedNewTokens (numCachedTokensSeq numComputedTokenSeq : ℕ) : m ℕ :=
  if numCachedTokensSeq ≥ numComputedTokenSeq then subSize numCachedTokensSeq numComputedTokenSeq
  else return 0

/-- The loop body of `GetNumComputeNewUnCachedAndCachedTokens`. -/
def accountSeq (cfg : SchedulerConfig) (getSeqNumCachedTokens : Sequence HashValue → m ℕ)
    (seq : Sequence HashValue) : m TokenCount := do
  if !seq.isPrefill then
    return ⟨1, 0, none⟩
  if seq.getLen < seq.numComputedTokens then
    throw (.runtimeError "Computed token count exceeds sequence length")
  let allNumNewTokensSeq ← subSize seq.getLen seq.numComputedTokens
  if !cfg.enablePrefixCache then
    return ⟨allNumNewTokensSeq, 0, none⟩
  let numCachedTokensSeq ← getSeqNumCachedTokens seq
  let metric ← prefixCachedTokenNum cfg allNumNewTokensSeq numCachedTokensSeq
  if 1 < cfg.spSize ∨ 1 < cfg.cpSize then
    return ⟨allNumNewTokensSeq, 0, some metric⟩
  let numCachedNewTokensSeq ← numCachedNewTokens numCachedTokensSeq seq.numComputedTokens
  let numUncachedNewTokensSeq ← subSize allNumNewTokensSeq numCachedNewTokensSeq
  return ⟨numUncachedNewTokensSeq, numCachedNewTokensSeq, some metric⟩

/-- A prompt found in the cache entirely has its last token computed again. -/
def computeLastToken (numUncachedNewTokens numCachedNewTokens : ℕ) : m (ℕ × ℕ) :=
  if numUncachedNewTokens = 0 ∧ 0 < numCachedNewTokens then do
    return (1, ← subSize numCachedNewTokens 1)
  else return (numUncachedNewTokens, numCachedNewTokens)

/-- `GetNumComputeNewUnCachedAndCachedTokens`. The metric is set by the last sequence that sets
it. -/
def accountTokens (cfg : SchedulerConfig) (getSeqNumCachedTokens : Sequence HashValue → m ℕ)
    (seqGroup : SequenceGroup HashValue) (status : SequenceStatus) (enableChunking : Bool)
    (budget : SchedulingBudget) : m TokenCount := do
  let counts ← (seqGroup.countedSeqs status).mapM (accountSeq cfg getSeqNumCachedTokens)
  let n ← computeLastToken (counts.map (·.uncached)).sum (counts.map (·.cached)).sum
  let metric := (counts.filterMap (·.prefixCachedTokenNum)).getLast?
  if enableChunking then
    return ⟨getNumComputeChunkSize budget n.1, n.2, metric⟩
  return ⟨n.1, n.2, metric⟩

end Checked

/-! ## The count of a group -/

section Count

variable {σ : Type} {cfg : SchedulerConfig} {c : Sequence HashValue → EStateM Exn σ ℕ} {s : σ}
  {seq : Sequence HashValue}

theorem wp_subSize {a b : ℕ} {Q : ℕ → σ → Prop} {T : Exn → σ → Prop} :
    wp (subSize a b) Q T s ↔ (a < b → T unsignedUnderflow s) ∧ (b ≤ a → Q (a - b) s) := by
  unfold subSize
  rw [wp_ite, Nat.not_lt]
  exact Iff.rfl

/-- What the count of a sequence needs: a prefill has tokens left, and of its cached tokens, which
are known without a change to the state, there are no more than it has; if there are any, they fill
a block. -/
structure Countable (cfg : SchedulerConfig) (c : Sequence HashValue → EStateM Exn σ ℕ) (s : σ)
    (seq : Sequence HashValue) : Prop where
  left : seq.isPrefill = true → seq.numComputedTokens < seq.getLen
  cached : seq.isPrefill = true → cfg.enablePrefixCache = true → ∃ n, c seq s = .ok n s ∧
    n ≤ seq.getLen ∧ (n = 0 ∨ cfg.cacheBlockSize ≤ n)

theorem wp_numCachedNewTokens (n computed : ℕ) :
    wp (numCachedNewTokens n computed : EStateM Exn σ ℕ)
      (fun k s' => s' = s ∧ k = n - computed) (fun _ _ => False) s := by
  unfold numCachedNewTokens
  rw [wp_ite, wp_subSize]
  refine ⟨fun hge => ⟨fun hlt => ?_, fun _ => ⟨rfl, rfl⟩⟩, fun hlt => ⟨rfl, ?_⟩⟩
  · exact absurd hge (Nat.not_le.mpr hlt)
  · exact (Nat.sub_eq_zero_of_le (Nat.le_of_not_ge hlt)).symm

theorem getNumUncomputedTokens_eq (seq : Sequence HashValue) : seq.getNumUncomputedTokens =
    if seq.isPrefill then seq.getLen - seq.numComputedTokens else 1 := by
  unfold Sequence.getNumUncomputedTokens Sequence.isPrefill
  cases seq.stage <;> rfl

theorem wp_getNumNewTokensOfSeq (hprefill : seq.isPrefill = true)
    (hcache : cfg.enablePrefixCache = true) (hleft : seq.numComputedTokens < seq.getLen) {n : ℕ}
    (hn : c seq s = .ok n s) {Q : ℕ × ℕ → σ → Prop} {T : Exn → σ → Prop} :
    wp (getNumNewTokensOfSeq cfg c seq) Q T s ↔
      Q (if 1 < cfg.spSize ∨ 1 < cfg.cpSize then (seq.getLen - seq.numComputedTokens, 0)
        else (seq.getLen - seq.numComputedTokens - (n - seq.numComputedTokens),
          n - seq.numComputedTokens)) s := by
  unfold getNumNewTokensOfSeq
  simp only [hprefill, hcache, Bool.not_true, Bool.false_eq_true, if_false,
    if_neg (Nat.not_lt.mpr hleft.le)]
  rw [wp_bind, wp_iff_of_ok hn, wp_ite]
  split_ifs with hranks
  · simp [hranks]
  · simp [hranks]

/-- The tokens of one sequence: none of the differences wraps around. -/
theorem wp_accountSeq (h : Countable cfg c s seq) :
    wp (accountSeq cfg c seq) (fun t s' => s' = s ∧
      wp (getNumNewTokensOfSeq cfg c seq) (fun n s' => s' = s ∧ n = (t.uncached, t.cached))
        (fun _ _ => False) s ∧
      t.uncached + t.cached = seq.getNumUncomputedTokens) (fun _ _ => False) s := by
  rw [getNumUncomputedTokens_eq]
  cases hprefill : seq.isPrefill with
  | false =>
    unfold accountSeq getNumNewTokensOfSeq
    rw [hprefill]
    exact ⟨rfl, ⟨rfl, rfl⟩, rfl⟩
  | true =>
    have hleft := h.left hprefill
    unfold accountSeq
    simp only [hprefill, Bool.not_true, Bool.false_eq_true, if_false, if_true,
      if_neg (Nat.not_lt.mpr hleft.le)]
    rw [wp_bind, wp_subSize]
    refine ⟨fun hlt => absurd hlt (Nat.not_lt.mpr hleft.le), fun _ => ?_⟩
    cases hcache : cfg.enablePrefixCache with
    | false =>
      unfold getNumNewTokensOfSeq
      simp only [hprefill, hcache, if_neg (Nat.not_lt.mpr hleft.le)]
      exact ⟨rfl, ⟨rfl, rfl⟩, Nat.add_zero _⟩
    | true =>
      obtain ⟨n, hn, hle, hblock⟩ := h.cached hprefill hcache
      simp only [Bool.not_true, Bool.false_eq_true, if_false]
      rw [wp_bind, wp_iff_of_ok hn, wp_bind]
      -- a prompt that is cached entirely fills a block at least
      have hmetric : wp (prefixCachedTokenNum cfg (seq.getLen - seq.numComputedTokens) n :
          EStateM Exn σ ℕ) (fun _ s' => s' = s) (fun _ _ => False) s := by
        unfold prefixCachedTokenNum
        rw [wp_ite, wp_subSize]
        refine ⟨fun hall => ⟨fun hlt => ?_, fun _ => rfl⟩, fun _ => rfl⟩
        omega
      refine wp_mono hmetric ?_ fun _ _ h => h
      rintro metric _ rfl
      rw [wp_ite]
      refine ⟨fun hranks => ⟨rfl, ?_, Nat.add_zero _⟩, fun hranks => ?_⟩
      · rw [wp_getNumNewTokensOfSeq hprefill hcache hleft hn, if_pos hranks]
        exact ⟨rfl, rfl⟩
      · rw [wp_bind]
        refine wp_mono (wp_numCachedNewTokens n seq.numComputedTokens) ?_ fun _ _ h => h
        rintro k _ ⟨rfl, rfl⟩
        have hle' : n - seq.numComputedTokens ≤ seq.getLen - seq.numComputedTokens := by
          omega
        rw [wp_bind, wp_subSize]
        refine ⟨fun hlt => absurd hlt (Nat.not_lt.mpr hle'), fun _ => ⟨rfl, ?_, ?_⟩⟩
        · rw [wp_getNumNewTokensOfSeq hprefill hcache hleft hn, if_neg hranks]
          exact ⟨rfl, rfl⟩
        · exact Nat.sub_add_cancel hle'

/-- The tokens of several sequences. -/
theorem wp_mapM_accountSeq {seqs : List (Sequence HashValue)}
    (h : ∀ seq ∈ seqs, Countable cfg c s seq) :
    wp (seqs.mapM (accountSeq cfg c)) (fun ts s' => s' = s ∧
      wp (seqs.mapM (getNumNewTokensOfSeq cfg c)) (fun ns s' => s' = s ∧
        ns = ts.map fun t => (t.uncached, t.cached)) (fun _ _ => False) s ∧
      (ts.map (·.uncached)).sum + (ts.map (·.cached)).sum =
        (seqs.map (·.getNumUncomputedTokens)).sum) (fun _ _ => False) s := by
  induction seqs with
  | nil => exact ⟨rfl, ⟨rfl, rfl⟩, rfl⟩
  | cons seq rest ih =>
    rw [List.mapM_cons, wp_bind]
    refine wp_mono (wp_accountSeq (h seq List.mem_cons_self)) ?_ fun _ _ h => h
    rintro t _ ⟨rfl, hseq, hsum⟩
    rw [wp_bind]
    refine wp_mono (ih fun seq hseq => h seq (List.mem_cons_of_mem _ hseq)) ?_ fun _ _ h => h
    rintro ts _ ⟨rfl, hrest, hsums⟩
    refine ⟨rfl, ?_, ?_⟩
    · rw [List.mapM_cons, wp_bind]
      refine wp_mono hseq ?_ fun _ _ h => h
      rintro n _ ⟨rfl, rfl⟩
      rw [wp_bind]
      refine wp_mono hrest ?_ fun _ _ h => h
      rintro ns _ ⟨rfl, rfl⟩
      exact ⟨rfl, rfl⟩
    · rw [List.map_cons, List.map_cons, List.map_cons, List.sum_cons, List.sum_cons, List.sum_cons,
        ← hsum, ← hsums]
      omega

theorem wp_computeLastToken (u k : ℕ) :
    wp (computeLastToken u k : EStateM Exn σ (ℕ × ℕ)) (fun n s' => s' = s ∧
      n = (if u = 0 ∧ 0 < k then (1, k - 1) else (u, k)) ∧ n.1 + n.2 = u + k ∧
      (0 < u + k → 0 < n.1)) (fun _ _ => False) s := by
  unfold computeLastToken
  rw [wp_ite]
  refine ⟨fun hall => ?_, fun hsome => ⟨rfl, (if_neg hsome).symm, rfl, fun hpos => ?_⟩⟩
  · rw [wp_bind, wp_subSize]
    refine ⟨fun hlt => absurd hlt (Nat.not_lt.mpr hall.2),
      fun _ => ⟨rfl, (if_pos hall).symm, ?_, ?_⟩⟩
    · change 1 + (k - 1) = u + k
      omega
    · exact fun _ => Nat.one_pos
  · omega

/-- What a count says about the tokens `left`: with the cached ones they are all of them, or the
chunk that the budget leaves of the uncached ones; and one token at least is computed if there is
room for it. -/
structure Accounts (left : ℕ) (enableChunking : Bool) (budget : SchedulingBudget)
    (t : TokenCount) : Prop where
  cached_le : t.cached ≤ left
  whole : enableChunking = false → t.uncached + t.cached = left
  chunk : enableChunking = true →
    t.uncached = getNumComputeChunkSize budget (left - t.cached)
  within : enableChunking = true → t.uncached ≤ budget.remainingTokenBudget
  some : 0 < left → (enableChunking = true → 0 < getNumComputeChunkSize budget left) →
    0 < t.uncached

/-- **The count of a group** returns, and it is the count of the model. -/
theorem wp_accountTokens {seqGroup : SequenceGroup HashValue} {status : SequenceStatus}
    (h : ∀ seq ∈ seqGroup.countedSeqs status, Countable cfg c s seq) (enableChunking : Bool)
    (budget : SchedulingBudget) :
    wp (accountTokens cfg c seqGroup status enableChunking budget) (fun t s' => s' = s ∧
      wp (getNumComputeNewUnCachedAndCachedTokens cfg c seqGroup status enableChunking budget)
        (fun n s' => s' = s ∧ n = (t.uncached, t.cached)) (fun _ _ => False) s ∧
      Accounts (seqGroup.tokensLeft status) enableChunking budget t) (fun _ _ => False) s := by
  unfold accountTokens
  rw [wp_bind]
  refine wp_mono (wp_mapM_accountSeq h) ?_ fun _ _ h => h
  rintro ts s ⟨rfl, hmodel, hsum⟩
  rw [wp_bind]
  refine wp_mono (wp_computeLastToken _ _) ?_ fun _ _ h => h
  rintro n s ⟨rfl, hn, hadd, hpos⟩
  -- the model counts the same
  have hcount : ∀ t : TokenCount, (t.uncached, t.cached) =
      (if enableChunking then (getNumComputeChunkSize budget n.1, n.2) else n) →
      wp (getNumComputeNewUnCachedAndCachedTokens cfg c seqGroup status enableChunking budget)
        (fun n s' => s' = s ∧ n = (t.uncached, t.cached)) (fun _ _ => False) s := by
    intro t ht
    unfold getNumComputeNewUnCachedAndCachedTokens
    rw [wp_bind]
    refine wp_mono hmodel ?_ fun _ _ h => h
    rintro ns s ⟨rfl, rfl⟩
    simp only [List.map_map, Function.comp_def, ← hn]
    rw [wp_ite]
    refine ⟨fun hchunk => ?_, fun hwhole => ?_⟩
    · rw [if_pos hchunk] at ht
      exact ⟨rfl, ht.symm⟩
    · rw [if_neg hwhole] at ht
      exact ⟨rfl, ht.symm⟩
  rw [wp_ite]
  have hleft : n.1 + n.2 = seqGroup.tokensLeft status := hadd.trans hsum
  refine ⟨fun hchunk => ⟨rfl, hcount _ (if_pos hchunk).symm, ?_⟩,
    fun hwhole => ⟨rfl, hcount _ (if_neg hwhole).symm, ?_⟩⟩
  · have hu : seqGroup.tokensLeft status - n.2 = n.1 := by
      omega
    refine ⟨hleft ▸ Nat.le_add_left _ _, ?_, ?_, ?_, ?_⟩
    · intro hfalse
      rw [hchunk] at hfalse
      cases hfalse
    · intro _
      rw [hu]
    · intro _
      exact (Nat.min_le_left _ _).trans (Nat.min_le_right _ _)
    · intro hpos' hroom
      have hroom := hroom hchunk
      have hn := hpos (hadd ▸ hleft ▸ hpos')
      unfold getNumComputeChunkSize at hroom ⊢
      simp only [Nat.lt_min] at hroom ⊢
      exact ⟨⟨hn, hroom.1.2⟩, hroom.2⟩
  · refine ⟨hleft ▸ Nat.le_add_left _ _, fun _ => hleft, ?_, ?_, ?_⟩
    · exact fun hchunk => absurd hchunk hwhole
    · exact fun hchunk => absurd hchunk hwhole
    · exact fun hpos' _ => hpos (hadd ▸ hleft ▸ hpos')

end Count

end PolicyHelper

/-! ## The block manager -/

/-- A lookup of a hash leaves an allocator in order as it is. -/
class CachingLookup (HashValue : outParam Type) (A : Type) [BlockAllocator HashValue A]
    [LawfulBlockAllocator HashValue A] : Prop where
  wp_findCachedBlockPrefix : ∀ {a : A} {own : Multiset BlockId} (blockHash : HashValue),
    LawfulBlockAllocator.Holds a own →
    wp (BlockAllocator.findCachedBlockPrefix blockHash) (fun _ a' => a' = a) (fun _ _ => False) a

instance [PrefixHasher HashValue] : CachingLookup HashValue (HashLessBlockAllocator HashValue) where
  wp_findCachedBlockPrefix _ _ := rfl

namespace PrefixCacheBlockAllocator

variable [DecidableEq HashValue] [PrefixHasher HashValue] {a : PrefixCacheBlockAllocator HashValue}
  {own : Multiset BlockId}

omit [DecidableEq HashValue] in
theorem Consistent.wp_isBlockComputed (h : Consistent a own) {b : BlockId}
    (hb : b ∈ a.allBlockIndices) :
    wp (isBlockComputed b) (fun _ a' => a' = a) (fun _ _ => False) a := by
  have hv := h.valid_iff.mpr hb
  unfold isBlockComputed
  simp only [BlockComputedAttr.isActive, BlockComputedAttr.isComputed, wp_bind, wp_zoom,
    BlockComputedAttr.wp_isValidBlockId, wp_get, wp_pure, attrLens_get, attrLens_put]
  refine ⟨fun _ => ?_, fun hinvalid => hinvalid hv⟩
  rw [wp_ite]
  refine ⟨fun _ => ?_, fun _ => ?_⟩
  · simp only [wp_zoom, wp_bind, BlockComputedAttr.wp_isValidBlockId, wp_get, wp_pure,
      attrLens_get, attrLens_put]
    exact ⟨fun _ => trivial, fun hinvalid => hinvalid hv⟩
  · exact rfl

theorem Consistent.wp_findCachedBlockPrefix (h : Consistent a own) (blockHash : HashValue) :
    wp (findCachedBlockPrefix blockHash) (fun _ a' => a' = a) (fun _ _ => False) a := by
  unfold findCachedBlockPrefix
  rw [wp_ite]
  refine ⟨fun _ => rfl, fun _ => ?_⟩
  simp only [wp_bind, wp_get]
  cases hcached : a.cachedBlocks blockHash with
  | none => exact rfl
  | some b => exact h.wp_isBlockComputed (h.cached blockHash b hcached).1

end PrefixCacheBlockAllocator

instance [DecidableEq HashValue] [PrefixHasher HashValue] :
    CachingLookup HashValue (PrefixCacheBlockAllocator HashValue) where
  wp_findCachedBlockPrefix blockHash h := h.wp_findCachedBlockPrefix blockHash

namespace SelfAttnBlockManager

/-- The allocators of a manager are in order. -/
structure InOrder [BlockAllocator HashValue A] [LawfulBlockAllocator HashValue A]
    (b : SelfAttnBlockManager HashValue A) : Prop where
  blockSize : 0 < b.blockSize
  rankSize : 0 < b.rankSize
  ready : ∃ used, BlockTable.Ready .npu b.rankSize b.blockSize b.world used

/-- The cached tokens that have been recorded of a sequence, on all ranks. -/
def recordedTokens (b : SelfAttnBlockManager HashValue A) (seq : Sequence HashValue) : ℕ :=
  ((List.range b.rankSize).map fun rankIdx =>
    (b.seqIdToNumComputedTokens (seq.seqId, rankIdx)).getD 0).sum

/-- A sequence as the scheduler has it. A prefill has tokens left, since the last of them turns it
into a decode; the cached tokens that were recorded with its first chunk are blocks of it. -/
structure Counted (b : SelfAttnBlockManager HashValue A) (seq : Sequence HashValue) : Prop where
  left : seq.isPrefill = true → seq.numComputedTokens < seq.getLen
  recorded : seq.isPrefill = true → seq.numComputedTokens ≠ 0 →
    recordedTokens b seq ≤ seq.getLen ∧
      (recordedTokens b seq = 0 ∨ b.blockSize ≤ recordedTokens b seq)

section Lookups

variable [BlockAllocator HashValue A] [LawfulBlockAllocator HashValue A]
  [CachingLookup HashValue A] {b : SelfAttnBlockManager HashValue A}

theorem InOrder.wp_findCachedBlockPrefix (h : InOrder b) {rankIdx : ℕ} (hr : rankIdx < b.rankSize)
    (blockHash : HashValue) :
    wp (onWorld (CpuNpuBlockAllocator.findCachedBlockPrefix rankIdx blockHash) :
      ManagerM HashValue A Bool) (fun _ b' => b' = b) (fun _ _ => False) b := by
  obtain ⟨used, hready⟩ := h.ready
  obtain ⟨own, hown⟩ := hready.holds rankIdx hr
  have hranks := hready.ranks
  rw [wp_zoom]
  unfold CpuNpuBlockAllocator.findCachedBlockPrefix CpuNpuBlockAllocator.onAllocator
  simp only [wp_bind, wp_get]
  refine (wp_ite _ _ _).mpr ⟨fun hge => absurd hr (Nat.not_lt.mpr (hranks.trans hge)), fun _ => ?_⟩
  rw [wp_zoom, wp_zoom]
  refine wp_mono (CachingLookup.wp_findCachedBlockPrefix blockHash hown) ?_ fun _ _ h => h
  rintro found a rfl
  simp only [Lens.put_get]

variable [PrefixHasher HashValue]

/-- No more blocks are found than are looked up. -/
theorem InOrder.wp_countCachedBlocks (h : InOrder b) (extraHash : HashValue)
    {prev : Option HashValue} {rankIdx : ℕ} (hr : rankIdx < b.rankSize)
    (blocks : List (List TokenId)) :
    wp (countCachedBlocks extraHash b.rankSize prev rankIdx blocks : ManagerM HashValue A ℕ)
      (fun n b' => b' = b ∧ n ≤ blocks.length) (fun _ _ => False) b := by
  induction blocks generalizing prev rankIdx with
  | nil => exact ⟨rfl, Nat.le_refl 0⟩
  | cons block rest ih =>
    unfold countCachedBlocks
    rw [wp_bind]
    refine wp_mono (h.wp_findCachedBlockPrefix hr _) ?_ fun _ _ h => h
    rintro found _ rfl
    rw [wp_ite]
    refine ⟨fun _ => ?_, fun _ => ⟨rfl, Nat.zero_le _⟩⟩
    rw [wp_bind]
    refine wp_mono (ih (Nat.mod_lt _ h.rankSize)) ?_ fun _ _ h => h
    rintro n _ ⟨rfl, hn⟩
    refine ⟨rfl, ?_⟩
    rw [List.length_cons, Nat.add_comm]
    exact Nat.succ_le_succ hn

/-- **The cached tokens of a sequence** are blocks of it. -/
theorem InOrder.wp_getSeqNumCachedTokens (h : InOrder b) {seq : Sequence HashValue}
    (hseq : Counted b seq) :
    wp (getSeqNumCachedTokens seq : ManagerM HashValue A ℕ) (fun n b' => b' = b ∧
      n ≤ seq.getLen ∧ (n = 0 ∨ b.blockSize ≤ n)) (fun _ _ => False) b := by
  unfold getSeqNumCachedTokens
  rw [wp_ite]
  refine ⟨fun _ => ⟨rfl, Nat.zero_le _, .inl rfl⟩, fun hcaching => ?_⟩
  have hprefill : seq.isPrefill = true := by
    simp only [not_or, Bool.not_eq_true, Bool.not_eq_false'] at hcaching
    exact hcaching.2
  simp only [wp_bind, wp_get]
  refine (wp_ite _ _ _).mpr ⟨fun hcomputed => ?_, fun hcomputed => ?_⟩
  · obtain ⟨hle, hblock⟩ := hseq.recorded hprefill hcomputed
    exact ⟨rfl, hle, hblock⟩
  · refine (wp_ite _ _ _).mpr ⟨fun hzero => absurd hzero (Nat.ne_of_gt h.blockSize), fun _ => ?_⟩
    rw [wp_bind]
    refine wp_mono (h.wp_countCachedBlocks seq.getExtraHash h.rankSize _) ?_ fun _ _ h => h
    rintro n _ ⟨rfl, hn⟩
    rw [List.length_map, List.length_range] at hn
    refine ⟨rfl, ?_, ?_⟩
    · refine (Nat.mul_le_mul_right _ hn).trans ((Nat.div_mul_le_self _ _).trans_eq ?_)
      rw [Sequence.getTokenIds, List.length_append, Sequence.getLen, Nat.add_comm]
    · rcases Nat.eq_zero_or_pos n with rfl | hpos
      · exact .inl (Nat.zero_mul _)
      · exact .inr (Nat.le_mul_of_pos_left _ hpos)

end Lookups

/-- The allocators are in order from the start. -/
theorem InOrder.new [BlockAllocator HashValue A] [LawfulBlockAllocator HashValue A]
    [PrefixHasher HashValue] {config : BlockManagerConfig} {b : SelfAttnBlockManager HashValue A}
    (hnew : new config = .ok b) (hsize : 0 < config.cacheBlockSize)
    (hblocks : config.reservedBlockNum < config.npuBlockNum) : InOrder b := by
  unfold SelfAttnBlockManager.new at hnew
  rw [if_neg (Nat.not_lt.mpr hblocks.le)] at hnew
  by_cases hranks : config.rankSize = 0 ∨ config.hostSize = 0
  · rw [if_pos hranks] at hnew
    cases hnew
  · rw [if_neg hranks] at hnew
    cases hworld : (CpuNpuBlockAllocator.new {
      numCpuBlocks := config.cpuBlockNum
      numNpuBlocks := config.npuBlockNum - config.reservedBlockNum
      blockSize := config.cacheBlockSize
      rankSize := config.rankSize } :
        Except Exn (World HashValue (CpuNpuBlockAllocator A))) with
    | error e =>
      rw [hworld] at hnew
      cases hnew
    | ok w =>
      rw [hworld] at hnew
      cases hnew
      exact ⟨hsize, Nat.pos_of_ne_zero fun hzero => hranks (.inl hzero),
        ∅, BlockTable.Ready.new _ hworld (Nat.sub_pos_of_lt hblocks)⟩

end SelfAttnBlockManager

/-! ## The tokens of a group -/

namespace PolicyHelper

open SelfAttnBlockManager

/-- **The tokens of a round add up.** For every group, the count returns, no difference of unsigned
numbers wraps around, and the uncached and the cached tokens are all that are left, or those of the
chunk; one is computed at least if the budget has room for one. -/
theorem tokens_accounted [BlockAllocator HashValue A] [LawfulBlockAllocator HashValue A]
    [CachingLookup HashValue A] [PrefixHasher HashValue] {b : SelfAttnBlockManager HashValue A}
    {cfg : SchedulerConfig} {seqGroup : SequenceGroup HashValue} {status : SequenceStatus}
    (h : InOrder b) (hsize : cfg.cacheBlockSize ≤ b.blockSize)
    (hseqs : ∀ seq ∈ seqGroup.countedSeqs status, Counted b seq) (enableChunking : Bool)
    (budget : SchedulingBudget) :
    ∃ t, accountTokens cfg getSeqNumCachedTokens seqGroup status enableChunking budget b =
        .ok t b ∧
      getNumComputeNewUnCachedAndCachedTokens cfg getSeqNumCachedTokens seqGroup status
        enableChunking budget b = .ok (t.uncached, t.cached) b ∧
      Accounts (seqGroup.tokensLeft status) enableChunking budget t := by
  have hcount : ∀ seq ∈ seqGroup.countedSeqs status, Countable cfg getSeqNumCachedTokens b seq := by
    intro seq hseq
    refine ⟨(hseqs seq hseq).left, fun _ _ => ?_⟩
    obtain ⟨n, b', hrun, rfl, hle, hblock⟩ :=
      exists_ok (h.wp_getSeqNumCachedTokens (hseqs seq hseq))
    exact ⟨n, hrun, hle, hblock.imp_right hsize.trans⟩
  obtain ⟨t, b', hrun, rfl, hmodel, haccounts⟩ :=
    exists_ok (wp_accountTokens hcount enableChunking budget)
  obtain ⟨n, b'', hmodel, rfl, rfl⟩ := exists_ok hmodel
  exact ⟨t, hrun, hmodel, haccounts⟩

/-- Prefix caching on one rank, with blocks of two tokens. -/
def prefixCacheConfig : SchedulerConfig where
  cacheBlockSize := 2
  enablePrefixCache := true

def oneRankConfig : BlockManagerConfig where
  cacheBlockSize := 2
  cpuBlockNum := 0
  npuBlockNum := 8
  reservedBlockNum := 0
  speculativeSlots := 0

/-- A prompt of five tokens of which two are computed. -/
def secondChunk : SequenceGroup UInt64 :=
  let seqGroup := promptGroup 1 [1, 2, 3, 4, 5]
  { seqGroup with firstSeq := { seqGroup.firstSeq with numComputedTokens := 2 } }

/-- With the first chunk four tokens have been recorded as cached. -/
theorem tokens_accounted_three : ∃ (b b' : SelfAttnBlockManager UInt64
      (PrefixCacheBlockAllocator UInt64)) (t : TokenCount),
    SelfAttnBlockManager.new oneRankConfig = .ok b ∧
    recordComputedTokens 1 0 (some 4) b = .ok () b' ∧
    accountTokens prefixCacheConfig getSeqNumCachedTokens secondChunk .waiting true
      (.new 2 1 prefixCacheConfig) b' = .ok t b' ∧
    Accounts 3 true (.new 2 1 prefixCacheConfig) t := by
  obtain ⟨b, hnew⟩ : ∃ b, (SelfAttnBlockManager.new oneRankConfig :
      Except Exn (SelfAttnBlockManager UInt64 (PrefixCacheBlockAllocator UInt64))) = .ok b :=
    ⟨_, rfl⟩
  have horder : InOrder b := .new hnew Nat.two_pos (by decide)
  let b' := { b with
    seqIdToNumComputedTokens := Function.update b.seqIdToNumComputedTokens (1, 0) (some 4) }
  have horder' : InOrder b' := ⟨horder.blockSize, horder.rankSize, horder.ready⟩
  have hseqs : ∀ seq ∈ secondChunk.countedSeqs .waiting, Counted b' seq := by
    intro seq hseq
    obtain rfl : seq = secondChunk.firstSeq := List.mem_singleton.mp hseq
    refine ⟨fun _ => by decide, fun _ _ => ?_⟩
    have hrecorded : recordedTokens b' secondChunk.firstSeq = 4 := by
      cases hnew
      rfl
    rw [hrecorded]
    cases hnew
    exact ⟨by decide, .inr (by decide)⟩
  have hsize : prefixCacheConfig.cacheBlockSize ≤ b'.blockSize := by
    cases hnew
    exact Nat.le_refl 2
  obtain ⟨t, hrun, -, haccounts⟩ := tokens_accounted horder' hsize hseqs true
    (.new 2 1 prefixCacheConfig)
  exact ⟨b, b', t, hnew, rfl, hrun, haccounts⟩

/-- Two blocks of a prompt are cached. -/
def cachedPromptManager : SelfAttnBlockManager UInt64 (PrefixCacheBlockAllocator UInt64) :=
  stateAfter (do
    let _ ← allocate (promptGroup 1 [1, 2, 3, 4])
    markBlocksAsComputed) { twoRankManager with
      rankSize := 1
      world.alloc.rankSize := 1 }

/-- A budget of four tokens that are all handed out. -/
def exhaustedBudget : SchedulingBudget :=
  (SchedulingBudget.new 4 2 prefixCacheConfig).addNumBatchedTokens "r" 4 0

/-- When the budget is exhausted, the cached tokens of a prompt are counted and no uncached one. -/
theorem not_uncached_pos : ¬∀ (seqGroup : SequenceGroup UInt64) (budget : SchedulingBudget)
    (t : TokenCount), valueOf (accountTokens prefixCacheConfig getSeqNumCachedTokens seqGroup
      .waiting true budget) cachedPromptManager = some t →
    0 < t.uncached + t.cached → 0 < t.uncached := by
  intro h
  have hcount := h (promptGroup 2 [1, 2, 3, 4, 5]) exhaustedBudget ⟨0, 4, some 4⟩
    (by decide +kernel) (by decide)
  exact absurd hcount (by decide)

end PolicyHelper

end MindieLLM
