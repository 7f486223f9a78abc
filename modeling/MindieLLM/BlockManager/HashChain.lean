import MindieLLM.BlockManager.ObjPool

/-!
# The hash a chain of blocks has

`PrefixHash` reads a memoised hash where there is one and computes the others from the chain of
previous blocks. `HashOf m p key` says that `key` is the outcome, without running it, and so does
not depend on which hashes have been memoised in the meantime.

## Main definitions

* `HashOf m p key`: the prefix hash of `p` is `key`
* `HashedFrom m p key`: `key` is computed from the tokens of `p` and the hash before it

## Main results

* `HashOf.unique`: a block has one hash
* `wp_prefixHash_hashOf`: `HashOf` is what `PrefixHash` returns
-/

namespace MindieLLM

open Program

variable {HashValue : Type} [PrefixHasher HashValue]

/-- The prefix hash of `p` is `key`. -/
inductive HashOf (m : Mem HashValue) : Ptr → HashValue → Prop
  | memo {p} (h : (m.obj p).cachedPrefixHash ≠ invalidHashValue) :
    HashOf m p (m.obj p).cachedPrefixHash
  | first {p} (hinv : (m.obj p).cachedPrefixHash = invalidHashValue)
    (hready : (m.obj p).isReadyToCalcPrefixHash) (hprev : (m.obj p).prevBlock = none) :
    HashOf m p (PrefixHasher.prefixHash none (m.obj p).tokenIds (m.obj p).extraHash)
  | next {p q key} (hinv : (m.obj p).cachedPrefixHash = invalidHashValue)
    (hready : (m.obj p).isReadyToCalcPrefixHash) (hprev : (m.obj p).prevBlock = some q)
    (hq : HashOf m q key) :
    HashOf m p (PrefixHasher.prefixHash (some key) (m.obj p).tokenIds (m.obj p).extraHash)

/-- The block `p` is full, does not end in a placeholder, and its contents hash to `key`. -/
inductive HashedFrom (m : Mem HashValue) (p : Ptr) : HashValue → Prop
  | first (hready : (m.obj p).isReadyToCalcPrefixHash) (hprev : (m.obj p).prevBlock = none) :
    HashedFrom m p (PrefixHasher.prefixHash none (m.obj p).tokenIds (m.obj p).extraHash)
  | next {q key} (hready : (m.obj p).isReadyToCalcPrefixHash) (hprev : (m.obj p).prevBlock = some q)
    (hq : HashOf m q key) :
    HashedFrom m p (PrefixHasher.prefixHash (some key) (m.obj p).tokenIds (m.obj p).extraHash)

section

variable {m m' : Mem HashValue} {p q : Ptr} {key key' : HashValue}

theorem HashedFrom.hashOf (h : HashedFrom m p key)
    (hinv : (m.obj p).cachedPrefixHash = invalidHashValue) : HashOf m p key := by
  cases h with
  | first hready hprev => exact .first hinv hready hprev
  | next hready hprev hq => exact .next hinv hready hprev hq

namespace HashOf

theorem unique (h : HashOf m p key) (h' : HashOf m p key') : key = key' := by
  induction h generalizing key' with
  | memo h =>
    cases h' with
    | memo => rfl
    | first hinv => exact absurd hinv h
    | next hinv => exact absurd hinv h
  | first hinv _ hprev =>
    cases h' with
    | memo h => exact absurd hinv h
    | first => rfl
    | next _ _ hprev' => simp [hprev] at hprev'
  | next hinv _ hprev _ ih =>
    cases h' with
    | memo h => exact absurd hinv h
    | first _ _ hprev' => simp [hprev] at hprev'
    | next _ _ hprev' hq' =>
      rw [hprev, Option.some.injEq] at hprev'
      subst hprev'
      rw [ih hq']

end HashOf

namespace PrefixCachingBlockObj

theorem wp_prefixHashAux_hashOf [DecidableEq HashValue] (fuel : Nat) (p : Ptr)
    (m : Mem HashValue) :
    wp (prefixHashAux fuel p)
      (fun h _ => if h = invalidHashValue then ∀ key, ¬HashOf m p key else HashOf m p h)
      (fun _ _ => True) m := by
  induction fuel generalizing p with
  | zero => simp [prefixHashAux]
  | succ fuel ih =>
    unfold prefixHashAux
    simp only [wp_bind, wp_load]
    by_cases hinv : (m.obj p).cachedPrefixHash = invalidHashValue
    swap
    · simpa [hinv] using HashOf.memo hinv
    cases hready : (m.obj p).isReadyToCalcPrefixHash
    · have hno : ∀ key, ¬HashOf m p key := by
        intro key h
        cases h with
        | memo h => exact h hinv
        | first _ hready' => simp [hready] at hready'
        | next _ hready' => simp [hready] at hready'
      simpa [hinv, hready] using hno
    simp only [hinv, ne_eq, not_true_eq_false, if_false, Bool.not_true, Bool.false_eq_true]
    cases hprev : (m.obj p).prevBlock with
    | none =>
      simpa [PrefixHasher.prefixHash_ne_invalid] using HashOf.first hinv hready hprev
    | some q =>
      simp only [wp_bind, wp_pure]
      refine wp_mono (ih q) (fun h m' hq => ?_) fun _ _ h => h
      split at hq
      · next hnone =>
        have hno : ∀ key, ¬HashOf m p key := by
          intro key h
          cases h with
          | memo h => exact h hinv
          | first _ _ hprev' => simp [hprev] at hprev'
          | next _ _ hprev' hq' =>
            obtain rfl := Option.some.inj (hprev.symm.trans hprev')
            exact hq _ hq'
        simpa [hnone] using hno
      · next hsome =>
        simpa [hsome, PrefixHasher.prefixHash_ne_invalid] using HashOf.next hinv hready hprev hq

/-- `HashOf` is the outcome of `PrefixHash`, which is invalid exactly if the block has no hash. -/
theorem wp_prefixHash_hashOf [DecidableEq HashValue] (p : Ptr) (m : Mem HashValue) :
    wp (prefixHash p)
      (fun h _ => if h = invalidHashValue then ∀ key, ¬HashOf m p key else HashOf m p h)
      (fun _ _ => True) m := by
  unfold prefixHash
  rw [wp_bind, wp_get]
  exact wp_prefixHashAux_hashOf _ p m

end PrefixCachingBlockObj

end

end MindieLLM
