import MindieLLM.BlockManager.BlockObj

/-!
# Memoised prefix hashes

`PrefixHash` writes the hashes it computes into the block objects it visits. Whatever calls it
changes nothing else, so its effect is described by one relation between memories, `Memoised`:
hashes are filled in, each from the hash of the block before it.

## Main definitions

* `Memoised m m'`: `m'` is `m` with some prefix hashes filled in
* `ChainEnds m p n`: the chain of previous blocks of `p` has at most `n` blocks
* `SameButHash`: two block objects that differ in their memoised hash at most

## Main results

* `wp_prefixHash`: `PrefixHash` memoises, and returns the hash memoised at the block
* `wp_initBlockObj`, `wp_appendTokenIds`: what the other methods of a block object do
-/

namespace MindieLLM

open Program

variable {HashValue : Type}

/-- `o'` is `o` up to its memoised hash. -/
def SameButHash (o o' : BlockObj HashValue) : Prop :=
  o' = { o with cachedPrefixHash := o'.cachedPrefixHash }

namespace SameButHash

variable {o o' o'' : BlockObj HashValue}

theorem refl (o : BlockObj HashValue) : SameButHash o o := rfl

theorem trans (h : SameButHash o o') (h' : SameButHash o' o'') : SameButHash o o'' := by
  unfold SameButHash at *
  rw [h', h]

theorem of_hash (o : BlockObj HashValue) (x : HashValue) :
    SameButHash o { o with cachedPrefixHash := x } := rfl

theorem tokenIds (h : SameButHash o o') : o'.tokenIds = o.tokenIds := by rw [h]
theorem blockId (h : SameButHash o o') : o'.blockId = o.blockId := by rw [h]
theorem prevBlock (h : SameButHash o o') : o'.prevBlock = o.prevBlock := by rw [h]
theorem blockSize (h : SameButHash o o') : o'.blockSize = o.blockSize := by rw [h]
theorem rankIdx (h : SameButHash o o') : o'.rankIdx = o.rankIdx := by rw [h]
theorem extraHash (h : SameButHash o o') : o'.extraHash = o.extraHash := by rw [h]
theorem prefixBlockSize (h : SameButHash o o') : o'.prefixBlockSize = o.prefixBlockSize := by
  rw [h]
theorem isFull (h : SameButHash o o') : o'.isFull = o.isFull := by rw [h]; rfl
theorem getNumEmptySlots (h : SameButHash o o') :
    o'.getNumEmptySlots = o.getNumEmptySlots := by rw [h]; rfl
theorem isReadyToCalcPrefixHash (h : SameButHash o o') :
    o'.isReadyToCalcPrefixHash = o.isReadyToCalcPrefixHash := by rw [h]; rfl

end SameButHash

theorem BlockObj.isFull_of_ready {o : BlockObj HashValue} (h : o.isReadyToCalcPrefixHash) :
    o.isFull := by
  simp only [isReadyToCalcPrefixHash, Bool.and_eq_true] at h
  exact h.1

/-- The chain of previous blocks of `p`, `p` included, has at most `n` blocks. -/
def ChainEnds (m : Mem HashValue) : Ptr → Nat → Prop
  | _, 0 => False
  | p, n + 1 => ∀ q, (m.obj p).prevBlock = some q → ChainEnds m q n

theorem BlockObj.pushTokens_nil (o : BlockObj HashValue) (h : ([] : List TokenId).length ≤ _) :
    o.pushTokens [] h = o := by
  cases o
  simp [BlockObj.pushTokens]

theorem HashLessBlockObj.wp_appendTokenIdsNoCow {tokenIds : List TokenId}
    {Q : Unit → BlockObj HashValue → Prop} {T : Exn → BlockObj HashValue → Prop}
    {o : BlockObj HashValue} :
    wp (appendTokenIdsNoCow tokenIds) Q T o ↔
      (∀ h : tokenIds.length ≤ o.getNumEmptySlots, Q () (o.pushTokens tokenIds h)) ∧
      (¬tokenIds.length ≤ o.getNumEmptySlots →
        T (.runtimeError "space on block is not enough for appending given tokens") o) := by
  unfold appendTokenIdsNoCow
  cases tokenIds with
  | nil => simp [BlockObj.pushTokens_nil]
  | cons t ts =>
    simp only [List.isEmpty_cons, Bool.false_eq_true, if_false, wp_bind, wp_get]
    by_cases h : (t :: ts).length ≤ o.getNumEmptySlots
    · rw [dif_pos h]
      simp only [wp_set, h, not_true_eq_false, false_imp_iff, and_true, forall_true_left]
    · rw [dif_neg h]
      simp only [wp_throw, h, not_false_eq_true, forall_true_left, true_and,
        IsEmpty.forall_iff]

/-- `o'` is `o` with tokens appended. -/
structure Pushed (o : BlockObj HashValue) (tokens : List TokenId) (o' : BlockObj HashValue) :
    Prop where
  tokenIds : o'.tokenIds = o.tokenIds ++ tokens
  prevBlock : o'.prevBlock = o.prevBlock
  blockSize : o'.blockSize = o.blockSize
  blockId : o'.blockId = o.blockId
  rankIdx : o'.rankIdx = o.rankIdx
  prefixBlockSize : o'.prefixBlockSize = o.prefixBlockSize
  cachedPrefixHash : o'.cachedPrefixHash = o.cachedPrefixHash
  extraHash : o'.extraHash = o.extraHash

namespace Pushed

variable {o o' : BlockObj HashValue} {tokens : List TokenId}

theorem isFull_of_isFull (h : Pushed o tokens o') (hfull : o.isFull) : o'.isFull := by
  have := o'.tokenIds_le
  rw [BlockObj.isFull_iff] at *
  rw [h.tokenIds, h.blockSize, List.length_append] at *
  omega

theorem isReadyToCalcPrefixHash (h : Pushed o [] o') :
    o'.isReadyToCalcPrefixHash = o.isReadyToCalcPrefixHash := by
  have htok := h.tokenIds
  rw [List.append_nil] at htok
  simp only [BlockObj.isReadyToCalcPrefixHash, BlockObj.isFull, BlockObj.getNumEmptySlots,
    BlockObj.isLastTokenPlaceholder, htok, h.blockSize]

/-- A full block takes no more tokens. -/
theorem eq_nil_of_isFull (h : Pushed o tokens o') (hfull : o.isFull) : tokens = [] := by
  have := o'.tokenIds_le
  rw [BlockObj.isFull_iff] at hfull
  rw [h.tokenIds, h.blockSize, List.length_append] at this
  exact List.eq_nil_of_length_eq_zero (by omega)

end Pushed

theorem chainEnds_setObj {m : Mem HashValue} {p : Ptr} {o : BlockObj HashValue}
    (h : o.prevBlock = (m.obj p).prevBlock) {q : Ptr} {n : Nat} :
    ChainEnds (m.setObj p o) q n ↔ ChainEnds m q n := by
  induction n generalizing q with
  | zero => rfl
  | succ n ih =>
    simp only [ChainEnds, ih, Mem.setObj_obj]
    split
    · rename_i hq; rw [hq, h]
    · rfl

theorem PrefixCachingBlockObj.wp_updateNumTokensTotal {p : Ptr} {Q : Unit → Mem HashValue → Prop}
    {T : Exn → Mem HashValue → Prop} {m : Mem HashValue}
    (h : ∀ n, Q () (m.setObj p { m.obj p with numTokensTotal := n })) :
    wp (updateNumTokensTotal p) Q T m := by
  unfold updateNumTokensTotal
  simp only [wp_bind, wp_load]
  cases (m.obj p).prevBlock <;> simpa using h _

/-! ## Filling in hashes -/

/-- `q` is on the chain of previous blocks of `p`. -/
inductive OnChain (m : Mem HashValue) (p : Ptr) : Ptr → Prop
  | refl : OnChain m p p
  | prev {q r} (h : OnChain m p q) (hprev : (m.obj q).prevBlock = some r) : OnChain m p r

theorem OnChain.head {m : Mem HashValue} {p q r : Ptr} (hprev : (m.obj p).prevBlock = some q)
    (h : OnChain m q r) : OnChain m p r := by
  induction h with
  | refl => exact .prev .refl hprev
  | prev _ hr ih => exact .prev ih hr

theorem OnChain.eq_or_tail {m : Mem HashValue} {p r : Ptr} (h : OnChain m p r) :
    r = p ∨ ∃ q, (m.obj p).prevBlock = some q ∧ OnChain m q r := by
  induction h with
  | refl => exact .inl rfl
  | prev _ hr ih =>
    rcases ih with rfl | ⟨q, hq, hchain⟩
    · exact .inr ⟨_, hr, .refl⟩
    · exact .inr ⟨q, hq, .prev hchain hr⟩

variable [PrefixHasher HashValue]

/-- `PrefixHash` of `p` is valid: it is memoised, or the block is full, does not end in a
placeholder and the block before it, if any, has a valid hash in turn. -/
inductive Hashable (m : Mem HashValue) : Ptr → Prop
  | memo {p} (h : (m.obj p).cachedPrefixHash ≠ invalidHashValue) : Hashable m p
  | ready {p} (h : (m.obj p).isReadyToCalcPrefixHash)
    (hprev : ∀ q, (m.obj p).prevBlock = some q → Hashable m q) : Hashable m p

theorem Hashable.mono {m m' : Mem HashValue} {p : Ptr} (h : Hashable m p)
    (hmemo : ∀ q, (m.obj q).cachedPrefixHash ≠ invalidHashValue → Hashable m' q)
    (hready : ∀ q, (m.obj q).isReadyToCalcPrefixHash → (m'.obj q).isReadyToCalcPrefixHash)
    (hprev : ∀ q, (m'.obj q).prevBlock = (m.obj q).prevBlock) : Hashable m' p := by
  induction h with
  | memo h => exact hmemo _ h
  | ready h _ ih => exact .ready (hready _ h) fun q hq => ih q (by rwa [← hprev])

theorem Hashable.setObj {m : Mem HashValue} {p q : Ptr} (h : Hashable m q) (hno : ¬Hashable m p)
    (o : BlockObj HashValue) : Hashable (m.setObj p o) q := by
  induction h with
  | @memo q h =>
    have hq : q ≠ p := by
      rintro rfl
      exact hno (.memo h)
    exact .memo (by rwa [Mem.setObj_obj_ne _ _ hq])
  | @ready q h hprev ih =>
    have hq : q ≠ p := by
      rintro rfl
      exact hno (.ready h hprev)
    refine .ready ?_ ?_ <;> rw [Mem.setObj_obj_ne _ _ hq]
    exacts [h, ih]

/-- `m'` is `m` with some prefix hashes filled in. A hash is filled in where there was none, at a
block that is full and does not end in a placeholder, from the hash of the block before it. -/
structure Memoised (m m' : Mem HashValue) : Prop where
  pool : m'.pool = m.pool
  obj : ∀ q, SameButHash (m.obj q) (m'.obj q)
  hash : ∀ q, (m'.obj q).cachedPrefixHash = (m.obj q).cachedPrefixHash ∨
    ((m.obj q).cachedPrefixHash = invalidHashValue ∧ (m.obj q).isReadyToCalcPrefixHash ∧
      (∀ r, (m.obj q).prevBlock = some r → (m'.obj r).cachedPrefixHash ≠ invalidHashValue) ∧
      (m'.obj q).cachedPrefixHash =
        PrefixHasher.prefixHash ((m.obj q).prevBlock.map fun r => (m'.obj r).cachedPrefixHash)
          (m.obj q).tokenIds (m.obj q).extraHash)
  hashable : ∀ q, (m'.obj q).cachedPrefixHash ≠ invalidHashValue → Hashable m q

namespace Memoised

variable {m m' m'' : Mem HashValue}

theorem refl (m : Mem HashValue) : Memoised m m where
  pool := rfl
  obj _ := .refl _
  hash _ := .inl rfl
  hashable _ h := .memo h

/-- A hash that is filled in stays. -/
theorem hash_stable (h : Memoised m m') {q : Ptr}
    (hq : (m.obj q).cachedPrefixHash ≠ invalidHashValue) :
    (m'.obj q).cachedPrefixHash = (m.obj q).cachedPrefixHash :=
  (h.hash q).resolve_right fun hr => hq hr.1

theorem hash_ne_invalid (h : Memoised m m') {q : Ptr}
    (hq : (m.obj q).cachedPrefixHash ≠ invalidHashValue) :
    (m'.obj q).cachedPrefixHash ≠ invalidHashValue := by
  rwa [h.hash_stable hq]

theorem trans (h : Memoised m m') (h' : Memoised m' m'') : Memoised m m'' where
  pool := h'.pool.trans h.pool
  obj q := (h.obj q).trans (h'.obj q)
  hash q := by
    have hprev := (h.obj q).prevBlock
    rcases h'.hash q with hq | ⟨hinv, hready, hvalid, hq⟩
    · rcases h.hash q with hq₀ | ⟨hinv, hready, hvalid, hq₀⟩
      · exact .inl (hq.trans hq₀)
      · refine .inr ⟨hinv, hready, fun r hr => h'.hash_ne_invalid (hvalid r hr), ?_⟩
        rw [hq, hq₀]
        cases hr : (m.obj q).prevBlock with
        | none => rfl
        | some r => simp [h'.hash_stable (hvalid r hr)]
    · rw [hprev] at hvalid hq
      rw [(h.obj q).tokenIds, (h.obj q).extraHash] at hq
      rw [(h.obj q).isReadyToCalcPrefixHash] at hready
      refine .inr ⟨?_, hready, hvalid, hq⟩
      rcases h.hash q with hq₀ | ⟨hinv₀, -⟩
      · rwa [← hq₀]
      · exact hinv₀
  hashable q hq := (h'.hashable q hq).mono h.hashable
    (fun r hr => by rwa [(h.obj r).isReadyToCalcPrefixHash] at hr)
    fun r => (h.obj r).prevBlock.symm

theorem hashable_iff (h : Memoised m m') {p : Ptr} : Hashable m' p ↔ Hashable m p := by
  constructor
  · exact fun hp => hp.mono h.hashable
      (fun q hq => by rwa [(h.obj q).isReadyToCalcPrefixHash] at hq)
      fun q => (h.obj q).prevBlock.symm
  · exact fun hp => hp.mono (fun q hq => .memo (h.hash_ne_invalid hq))
      (fun q hq => by rwa [(h.obj q).isReadyToCalcPrefixHash])
      fun q => (h.obj q).prevBlock

/-- The pool plays no part. -/
theorem withPool (h : Memoised m m') (pool : ObjPool) :
    Memoised (⟨m.obj, pool⟩ : Mem HashValue) ⟨m'.obj, pool⟩ where
  pool := rfl
  obj := h.obj
  hash := h.hash
  hashable q hq :=
    (h.hashable q hq).mono (fun _ hr => .memo hr) (fun _ hr => hr) fun _ => rfl

theorem chainEnds (h : Memoised m m') {p : Ptr} {n : Nat} :
    ChainEnds m' p n ↔ ChainEnds m p n := by
  induction n generalizing p with
  | zero => rfl
  | succ n ih => simp only [ChainEnds, (h.obj p).prevBlock, ih]

/-- A block whose hash has been filled in is full. -/
theorem isFull (h : Memoised m m') {q : Ptr}
    (hfull : (m.obj q).cachedPrefixHash ≠ invalidHashValue → (m.obj q).isFull)
    (hq : (m'.obj q).cachedPrefixHash ≠ invalidHashValue) : (m'.obj q).isFull := by
  rw [(h.obj q).isFull]
  rcases h.hash q with h' | ⟨-, hready, -⟩
  · exact hfull (by rwa [← h'])
  · exact BlockObj.isFull_of_ready hready

/-- A block without a valid hash can be exchanged on both sides. -/
theorem setObj (h : Memoised m m') {p : Ptr} (hno : ¬Hashable m p) {o : BlockObj HashValue}
    (ho : o.cachedPrefixHash = invalidHashValue) :
    Memoised (m.setObj p o) (m'.setObj p o) where
  pool := h.pool
  obj q := by
    rw [Mem.setObj_obj, Mem.setObj_obj]
    split
    · exact .refl o
    · exact h.obj q
  hash q := by
    by_cases hq : q = p
    · subst hq; simp
    · rw [Mem.setObj_obj_ne _ _ hq, Mem.setObj_obj_ne _ _ hq]
      rcases h.hash q with hsame | ⟨hinv, hready, hvalid, heq⟩
      · exact .inl hsame
      · have hne : ∀ r, (m.obj q).prevBlock = some r → r ≠ p := by
          rintro r hr rfl
          exact hno (h.hashable r (hvalid r hr))
        refine .inr ⟨hinv, hready, fun r hr => ?_, ?_⟩
        · rw [Mem.setObj_obj_ne _ _ (hne r hr)]
          exact hvalid r hr
        · rw [heq]
          cases hr : (m.obj q).prevBlock with
          | none => rfl
          | some r => simp [Mem.setObj_obj_ne _ _ (hne r hr)]
  hashable q hq := by
    rw [Mem.setObj_obj] at hq
    split at hq
    · exact absurd ho hq
    · exact (h.hashable q hq).setObj hno o

/-- Filling in one more hash. -/
theorem setHash (h : Memoised m m') {p : Ptr} {prevHash : Option HashValue}
    (hinv : (m.obj p).cachedPrefixHash = invalidHashValue)
    (hready : (m.obj p).isReadyToCalcPrefixHash)
    (hprev : (m.obj p).prevBlock.map (fun r => (m'.obj r).cachedPrefixHash) = prevHash)
    (hvalid : prevHash ≠ some invalidHashValue) :
    Memoised m (m'.setObj p
      { m'.obj p with
        cachedPrefixHash :=
          PrefixHasher.prefixHash prevHash (m.obj p).tokenIds (m.obj p).extraHash }) := by
  have hvalid' : ∀ r, (m.obj p).prevBlock = some r →
      (m'.obj r).cachedPrefixHash ≠ invalidHashValue := by
    intro r hr hbad
    rw [hr, Option.map_some, hbad] at hprev
    exact hvalid hprev.symm
  have hhashable : Hashable m p := .ready hready fun r hr => h.hashable r (hvalid' r hr)
  by_cases hp : (m'.obj p).cachedPrefixHash = invalidHashValue
  · -- nothing that was filled in so far comes after `p`
    have hne : ∀ r, (m.obj p).prevBlock = some r → r ≠ p := by
      rintro r hr rfl
      exact hvalid' r hr hp
    refine ⟨h.pool, fun q => ?_, fun q => ?_, fun q => ?_⟩
    rotate_left 2
    · rw [Mem.setObj_obj]
      split
      · rename_i hq; subst hq
        exact fun _ => hhashable
      · exact h.hashable q
    · rw [Mem.setObj_obj]
      split
      · rename_i hq; subst hq
        exact (h.obj q).trans (.of_hash _ _)
      · exact h.obj q
    · by_cases hq : q = p
      · subst hq
        refine .inr ⟨hinv, hready, fun r hr => ?_, ?_⟩
        · rw [Mem.setObj_obj_ne _ _ (hne r hr)]
          exact hvalid' r hr
        · rw [Mem.setObj_obj_same, ← hprev]
          cases hr : (m.obj q).prevBlock with
          | none => rfl
          | some r => simp [Mem.setObj_obj_ne _ _ (hne r hr)]
      · rw [Mem.setObj_obj_ne _ _ hq]
        rcases h.hash q with hsame | ⟨hinv', hready', hvalid'', heq⟩
        · exact .inl hsame
        · have hne' : ∀ r, (m.obj q).prevBlock = some r → r ≠ p := by
            rintro r hr rfl
            exact hvalid'' r hr hp
          refine .inr ⟨hinv', hready', fun r hr => ?_, ?_⟩
          · rw [Mem.setObj_obj_ne _ _ (hne' r hr)]
            exact hvalid'' r hr
          · rw [heq]
            cases hr : (m.obj q).prevBlock with
            | none => rfl
            | some r => simp [Mem.setObj_obj_ne _ _ (hne' r hr)]
  · -- the hash has been filled in on the way, with this very value
    rcases h.hash p with hsame | ⟨-, -, -, heq⟩
    · exact absurd (hsame.trans hinv) hp
    · rw [← hprev, ← heq]
      have : m'.setObj p { m'.obj p with cachedPrefixHash := (m'.obj p).cachedPrefixHash } =
          m' := by
        simp [Mem.setObj]
      rwa [this]

end Memoised

namespace PrefixCachingBlockObj

variable [DecidableEq HashValue]

theorem wp_prefixHashAux (fuel : Nat) (p : Ptr) (m : Mem HashValue) :
    wp (prefixHashAux fuel p)
      (fun h m' => Memoised m m' ∧ h = (m'.obj p).cachedPrefixHash ∧
        (h = invalidHashValue → ¬Hashable m p))
      (fun _ _ => ¬ChainEnds m p fuel) m := by
  induction fuel generalizing p with
  | zero => simp [prefixHashAux, ChainEnds]
  | succ fuel ih =>
    unfold prefixHashAux
    simp only [wp_bind, wp_load]
    by_cases hmemo : (m.obj p).cachedPrefixHash = invalidHashValue
    swap
    · simpa [hmemo] using .refl m
    cases hready : (m.obj p).isReadyToCalcPrefixHash
    · have hno : ¬Hashable m p := by
        rintro (h | ⟨h, -⟩)
        · exact h hmemo
        · rw [hready] at h; cases h
      simpa [hmemo, hready, hno] using .refl m
    simp only [hmemo, ne_eq, not_true_eq_false, if_false, Bool.not_true, Bool.false_eq_true]
    cases hprev : (m.obj p).prevBlock with
    | none =>
      simp only [wp_pure, reduceCtorEq, if_false, wp_bind, wp_zoom, wp_modify]
      refine ⟨(Memoised.refl m).setHash hmemo hready (by rw [hprev]; rfl) (by simp), ?_,
        fun h => absurd h (PrefixHasher.prefixHash_ne_invalid _ _ _)⟩
      simp
    | some q =>
      simp only [wp_bind, wp_pure]
      refine wp_mono (ih q) ?_ fun _ _ hdiv hends => hdiv (hends q hprev)
      rintro h m' ⟨hm, rfl, hno⟩
      by_cases hq : (m'.obj q).cachedPrefixHash = invalidHashValue
      · simp only [hq, if_true, wp_pure]
        refine ⟨hm, ?_, fun _ => ?_⟩
        · -- the hash of `p` cannot have been filled in without that of `q`
          rcases hm.hash p with hsame | ⟨-, -, hvalid, -⟩
          · rw [hsame, hmemo]
          · exact absurd hq (hvalid q hprev)
        · rintro (h | ⟨-, h⟩)
          · exact h hmemo
          · exact hno hq (h q hprev)
      · simp only [Option.some.injEq, hq, if_false, wp_bind, wp_zoom, wp_modify, wp_pure]
        refine ⟨hm.setHash hmemo hready (by rw [hprev]; rfl) (by simpa using hq), ?_,
          fun h => absurd h (PrefixHasher.prefixHash_ne_invalid _ _ _)⟩
        simp

/-- `PrefixHash` fills in hashes and returns the one of the block it was called on. It returns
whenever the chain of previous blocks is finite. -/
theorem wp_prefixHash (p : Ptr) (m : Mem HashValue) :
    wp (prefixHash p)
      (fun h m' => Memoised m m' ∧ h = (m'.obj p).cachedPrefixHash ∧
        (h = invalidHashValue → ¬Hashable m p))
      (fun _ _ => ¬ChainEnds m p m.pool.poolSize) m := by
  unfold prefixHash
  rw [wp_bind, wp_get]
  exact wp_prefixHashAux _ p m

end PrefixCachingBlockObj

/-! ## The other methods -/

/-- `PrefixHash` touches the blocks of the chain only. -/
theorem PrefixCachingBlockObj.wp_prefixHash_chain [DecidableEq HashValue] (p : Ptr)
    (m : Mem HashValue) :
    wp (prefixHash p) (fun _ m' => ∀ q, ¬OnChain m p q → m'.obj q = m.obj q)
      (fun _ _ => True) m := by
  unfold prefixHash
  rw [wp_bind, wp_get]
  generalize m.pool.poolSize = fuel
  induction fuel generalizing p with
  | zero => simp [prefixHashAux]
  | succ fuel ih =>
    unfold prefixHashAux
    simp only [wp_bind, wp_load]
    have hrefl : ∀ q, ¬OnChain m p q → m.obj q = m.obj q := fun _ _ => rfl
    rw [wp_ite]
    refine ⟨fun _ => hrefl, fun _ => ?_⟩
    rw [wp_ite]
    refine ⟨fun _ => hrefl, fun _ => ?_⟩
    have hset {m' : Mem HashValue} (hm' : ∀ q, ¬OnChain m p q → m'.obj q = m.obj q)
        (o : BlockObj HashValue) : ∀ q, ¬OnChain m p q → (m'.setObj p o).obj q = m.obj q := by
      intro q hq
      have hne : q ≠ p := by
        rintro rfl
        exact hq .refl
      rw [Mem.setObj_obj_ne _ _ hne]
      exact hm' q hq
    cases hprev : (m.obj p).prevBlock with
    | none => simpa using hset hrefl _
    | some r =>
      simp only [wp_bind, wp_pure]
      refine wp_mono (ih r) ?_ fun _ _ h => h
      intro h m' hm'
      have hm' : ∀ q, ¬OnChain m p q → m'.obj q = m.obj q :=
        fun q hq => hm' q fun hr => hq (hr.head hprev)
      rw [wp_ite]
      exact ⟨fun _ => hm', fun _ => by simpa using hset hm' _⟩

/-- `o'` is an object initialised with the given values; only its rank is that of `o`. -/
structure Initialised (o : BlockObj HashValue) (prev : Option Ptr) (tokens : List TokenId)
    (size : Nat) (id : BlockId) (extra : HashValue) (o' : BlockObj HashValue) : Prop where
  prevBlock : o'.prevBlock = prev
  tokenIds : o'.tokenIds = tokens
  blockSize : o'.blockSize = size
  blockId : o'.blockId = id
  rankIdx : o'.rankIdx = o.rankIdx
  prefixBlockSize : o'.prefixBlockSize = size
  cachedPrefixHash : o'.cachedPrefixHash = invalidHashValue
  extraHash : o'.extraHash = extra

namespace PrefixCachingBlockObj

theorem wp_initBlockObj {p : Ptr} {prevBlock : Option Ptr} {tokenIds : List TokenId}
    {blockSize : Nat} {blockId : BlockId} {extraHash : HashValue} (m : Mem HashValue) :
    wp (initBlockObj p prevBlock tokenIds blockSize blockId extraHash)
      (fun _ m' => ∃ o, Initialised (m.obj p) prevBlock tokenIds blockSize blockId extraHash o ∧
        m' = m.setObj p o)
      (fun _ _ => blockSize < tokenIds.length) m := by
  unfold initBlockObj HashLessBlockObj.initBlockObjWith
  simp only [wp_bind, wp_zoom, wp_modify, HashLessBlockObj.wp_appendTokenIdsNoCow, Mem.objAt_get,
    Mem.objAt_put]
  constructor
  · intro hroom
    apply wp_updateNumTokensTotal
    intro n
    refine ⟨_, ?_, by simp [Mem.setObj]; rfl⟩
    constructor <;> simp [BlockObj.pushTokens, HashLessBlockObj.assign, resetBlockObj]
  · intro hroom
    simp only [BlockObj.getNumEmptySlots, HashLessBlockObj.assign, List.length_nil,
      Nat.sub_zero, not_le] at hroom
    exact hroom

/-- What `AppendTokenIds` asks of the block it is called on. -/
structure CanAppend (m : Mem HashValue) (p : Ptr) (tokenIds : List TokenId) : Prop where
  ends : ChainEnds m p m.pool.poolSize
  blockId : (m.obj p).blockId ≠ invalidBlockId
  sizes : (m.obj p).prefixBlockSize = (m.obj p).blockSize
  room : tokenIds.length ≤ (m.obj p).getNumEmptySlots
  not_hashable : ¬Hashable m p

variable [DecidableEq HashValue]

/-- `AppendTokenIds` pushes the tokens onto a block that has no valid hash, and then fills in what
hashes can be computed. -/
theorem wp_appendTokenIds (p : Ptr) (tokenIds : List TokenId) (m : Mem HashValue) :
    wp (appendTokenIds p tokenIds)
      (fun _ m' => ∃ o, Pushed (m.obj p) tokenIds o ∧ (m.obj p).blockId ≠ invalidBlockId ∧
        ¬Hashable m p ∧ Memoised (m.setObj p o) m')
      (fun _ _ => ¬CanAppend m p tokenIds) m := by
  unfold appendTokenIds HashLessBlockObj.appendTokenIds
  simp only [wp_bind]
  refine wp_mono (wp_prefixHash p m) ?_ fun _ _ hdiv h => hdiv h.ends
  rintro _ m₁ ⟨hm₁, rfl, hno⟩
  rw [wp_ite]
  refine ⟨fun hhash h => h.not_hashable (hm₁.hashable p hhash), fun hhash => ?_⟩
  have hhash : (m₁.obj p).cachedPrefixHash = invalidHashValue := not_not.mp hhash
  specialize hno hhash
  simp only [wp_bind, wp_load]
  rw [wp_ite]
  refine ⟨fun hsize h => ?_, fun hsize => ?_⟩
  · have := h.room
    have hsz := h.sizes
    rw [(hm₁.obj p).prefixBlockSize, (hm₁.obj p).tokenIds, hsz] at hsize
    simp only [BlockObj.getNumEmptySlots] at this
    omega
  simp only [wp_bind, wp_zoom, wp_get, Mem.objAt_get]
  rw [wp_ite]
  refine ⟨fun hid h => h.blockId ?_, fun hid => ?_⟩
  · rw [← (hm₁.obj p).blockId]; exact hid
  rw [HashLessBlockObj.wp_appendTokenIdsNoCow]
  refine ⟨fun hroom => ?_, fun hroom h => hroom ?_⟩
  swap
  · rw [(hm₁.obj p).getNumEmptySlots]; exact h.room
  apply wp_updateNumTokensTotal
  intro n
  simp only [Mem.objAt_put, Mem.setObj_obj_same]
  have hset (o o' : BlockObj HashValue) : (m₁.setObj p o).setObj p o' = m₁.setObj p o' := by
    simp [Mem.setObj]
  rw [hset]
  have hends : ¬ChainEnds m p m.pool.poolSize → ¬CanAppend m p tokenIds := fun h h' => h h'.ends
  refine wp_mono (wp_prefixHash p _) ?_ fun _ _ hdiv => hends ?_
  · rintro _ m' ⟨hm', -⟩
    have hmemo : (m.obj p).cachedPrefixHash = invalidHashValue := by
      by_contra hne
      exact hno (.memo hne)
    have hpushed : Pushed (m.obj p) tokenIds
        { (m₁.obj p).pushTokens tokenIds hroom with numTokensTotal := n } := by
      have h := hm₁.obj p
      refine ⟨?_, h.prevBlock, h.blockSize, h.blockId, h.rankIdx, h.prefixBlockSize,
        ?_, h.extraHash⟩
      · simp [BlockObj.pushTokens, h.tokenIds]
      · exact hhash.trans hmemo.symm
    refine ⟨_, hpushed, ?_, hno, ?_⟩
    · rwa [(hm₁.obj p).blockId] at hid
    · exact (hm₁.setObj hno (hpushed.cachedPrefixHash.trans hmemo)).trans hm'
  · rw [chainEnds_setObj (by rfl), hm₁.chainEnds] at hdiv
    simpa [hm₁.pool] using hdiv

end PrefixCachingBlockObj

end MindieLLM
