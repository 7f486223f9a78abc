import MindieLLM.Speculative.DraftTrees
import MindieLLM.Speculative.KnowledgeBase

/-!
# Drafts of the knowledge base

The suffixes of the recent tokens are looked up one after the other, each in the tree of the token
before it, until a draft is long enough; the last one found is the draft. The ids, the size and the
mask come from different places, and are trusted to agree.

The knowledge base has trees of either implementation.

## Main definitions

* `DraftCache T`, `DraftCache.step`: the trees, with insertions, clean-ups and trims
* `DraftCache.getSingleDraft`: the ids of a draft, and its mask
* `DraftCache.WellFormed`: what is asked of a draft
* `DraftCache.Sound`: there is room for a token, and the look-up that decides is sound

## Main results

* `DraftCache.wellFormed_getSingleDraft_iff`: drafts of one implementation
* `DraftCache.wellFormed_iff`: drafts of both
-/

namespace MindieLLM

open Program

/-- `np.tril(np.ones((n, n)), 0)` -/
def tril (n : Nat) : List (List Int) :=
  (List.range n).map fun i => (List.range n).map fun j => if j ≤ i then 1 else 0

/-- The trees of a knowledge base, and those that have changed. -/
structure DraftCache (T : Type) where
  token2tree : Int → Option T := fun _ => none
  changedPrefixTrees : List Int := []
  changedInputPrefixTrees : List Int := []

namespace DraftCache

section Defs

variable {T V : Type} [DraftTree T V] (params : KnowledgeBaseParams)

/-! ## Trees that change -/

/-- `get_prefix_tree`, and the trees that have changed. -/
def putWindow (token : Int) (windowTokens : List Int) (pattern : Pattern) (useBatch : Nat)
    (kb : DraftCache T) : DraftCache T where
  token2tree := Function.update kb.token2tree token (some
    (DraftTree.put params.dynamicAlgo windowTokens pattern useBatch
      ((kb.token2tree token).getD (DraftTree.fresh token params.maxSize params.maxOutputSize))))
  changedPrefixTrees := kb.changedPrefixTrees.insert token
  changedInputPrefixTrees :=
    if pattern = .input then kb.changedInputPrefixTrees.insert token
    else kb.changedInputPrefixTrees

def clearInput (useBatch : Nat) (kb : DraftCache T) : DraftCache T :=
  { kb with
    token2tree := fun token =>
      if token ∈ kb.changedInputPrefixTrees then
        (kb.token2tree token).map (DraftTree.clear useBatch)
      else kb.token2tree token }

def trim (kb : DraftCache T) : DraftCache T :=
  if 1024 ≤ kb.changedPrefixTrees.length then
    { kb with
      token2tree := fun token =>
        if token ∈ kb.changedPrefixTrees then (kb.token2tree token).map DraftTree.trim
        else kb.token2tree token
      changedPrefixTrees := [] }
  else kb

inductive Op
  | put (token : Int) (windowTokens : List Int) (pattern : Pattern) (useBatch : Nat)
  | clearInput (useBatch : Nat)
  | trim
  /-- `changed_input_prefix_trees.clear()` -/
  | forget

def step (kb : DraftCache T) : Op → Option (DraftCache T)
  | .put token windowTokens pattern useBatch =>
    some (putWindow params token windowTokens pattern useBatch kb)
  | .clearInput useBatch => some (clearInput useBatch kb)
  | .trim => some (trim kb)
  | .forget => some { kb with changedInputPrefixTrees := [] }

/-! ## Drafts -/

/-- A look-up: the tree of a token, for the tokens behind it. -/
structure Found (T : Type) where
  token : Int
  tree : T
  suffix : List Int

variable (stopWords : List Int) (maxSize searchSize useBatch : Nat) (kb : DraftCache T)

/-- The loop over the recent tokens, and the look-up that it ends with. -/
def draftLoop : Option (Found T) → List Int → Option (Found T)
  | found, [] => found
  | found, token :: ids =>
    match kb.token2tree token with
    | none => draftLoop found ids
    | some tree =>
      if token ∈ stopWords ∧ ids = [] then draftLoop found ids
      else if searchSize / 2 ≤ (DraftTree.draft ids useBatch maxSize tree).ids.length then
        some ⟨token, tree, ids⟩
      else draftLoop (some ⟨token, tree, ids⟩) ids

/-- The ids and the mask. -/
def getSingleDraft (tokenIds : List Int) (decodingLength : Int) (searchSize useBatch : Nat)
    (kb : DraftCache T) : List Int × List (List Int) :=
  let last := tokenIds.drop (tokenIds.length - 1)
  if decodingLength ≤ 1 ∨ searchSize = 0 then (last, tril 1)
  else
    match draftLoop stopWords (decodingLength - 1).toNat searchSize useBatch kb none tokenIds with
    | none => (last, tril 1)
    | some found =>
      let draft := DraftTree.draft found.suffix useBatch (decodingLength - 1).toNat found.tree
      (draft.ids, tril (draft.size + 1))

/-! ## What is asked for -/

/-- The draft begins with the last token, and goes on along a path that counts, below the suffix
that has been looked up. It has at most the decoding length, and the mask has a row and a column for
each of its tokens. -/
structure WellFormed (tokenIds : List Int) (decodingLength : Int) (searchSize useBatch : Nat)
    (kb : DraftCache T) (draft : List Int × List (List Int)) : Prop where
  first : draft.1.head? = tokenIds.getLast?
  path : draft.1.tail ≠ [] → ∃ found before g,
    draftLoop stopWords (decodingLength - 1).toNat searchSize useBatch kb none tokenIds =
        some found ∧
      tokenIds = before ++ found.token :: found.suffix ∧
      kb.token2tree found.token = some found.tree ∧
      Forest.Leads (DraftTree.Counts T useBatch) (found.suffix ++ draft.1.tail)
        (DraftTree.nodes found.tree) g
  length : draft.1.length ≤ decodingLength
  mask : draft.2.length = draft.1.length ∧ ∀ row ∈ draft.2, row.length = draft.1.length

end Defs

section Runs

variable {T V : Type} [LawfulDraftTree T V]

/-- There is room for a token, and what is looked up last is sound. -/
structure Sound (stopWords tokenIds : List Int) (decodingLength : Int) (searchSize useBatch : Nat)
    (kb : DraftCache T) : Prop where
  room : 1 ≤ decodingLength
  fits : 1 < decodingLength → searchSize ≠ 0 → ∀ found,
    draftLoop stopWords (decodingLength - 1).toNat searchSize useBatch kb none tokenIds =
      some found → LawfulDraftTree.Fits found.suffix useBatch found.tree

variable {params : KnowledgeBaseParams} {kb kb' : DraftCache T} {stopWords tokenIds : List Int}
  {decodingLength : Int} {maxSize searchSize useBatch : Nat}

/-! ## The trees that are reached -/

/-- Each tree is that of its token. -/
def Invariant (kb : DraftCache T) : Prop := ∀ token tree, kb.token2tree token = some tree →
  LawfulDraftTree.Inv tree ∧ DraftTree.startTokenId tree = token

/-- A change of single trees. -/
theorem Invariant.map {f : Int → T → T} {p : Int → Prop} [DecidablePred p]
    {changed changedInput : List Int} (h : Invariant kb)
    (hf : ∀ token tree, LawfulDraftTree.Inv tree → LawfulDraftTree.Inv (f token tree) ∧
      DraftTree.startTokenId (f token tree) = DraftTree.startTokenId tree) :
    Invariant
      { token2tree := fun token =>
          if p token then (kb.token2tree token).map (f token) else kb.token2tree token
        changedPrefixTrees := changed
        changedInputPrefixTrees := changedInput } := by
  intro token tree' htree'
  dsimp only at htree'
  split at htree'
  · obtain ⟨tree, htree, rfl⟩ := Option.map_eq_some_iff.mp htree'
    obtain ⟨hinv, htoken⟩ := h token tree htree
    obtain ⟨hinv', htoken'⟩ := hf token tree hinv
    exact ⟨hinv', htoken'.trans htoken⟩
  · exact h token tree' htree'

theorem Invariant.putWindow (h : Invariant kb) (token : Int) (windowTokens : List Int)
    (pattern : Pattern) (useBatch : Nat) :
    Invariant (putWindow params token windowTokens pattern useBatch kb) := by
  intro l tree' htree'
  change Function.update kb.token2tree token _ l = some tree' at htree'
  by_cases hl : l = token
  · subst hl
    rw [Function.update_self] at htree'
    cases htree'
    have hbefore : ∀ tree, (kb.token2tree l).getD
        (DraftTree.fresh l params.maxSize params.maxOutputSize) = tree →
        LawfulDraftTree.Inv tree ∧ DraftTree.startTokenId tree = l := by
      rintro tree rfl
      cases hget : kb.token2tree l with
      | none => exact ⟨LawfulDraftTree.inv_fresh .., LawfulDraftTree.startTokenId_fresh ..⟩
      | some tree => exact h l tree hget
    obtain ⟨hinv, htoken⟩ := hbefore _ rfl
    exact ⟨LawfulDraftTree.inv_put _ _ _ _ _ hinv,
      (LawfulDraftTree.startTokenId_put ..).trans htoken⟩
  · rw [Function.update_of_ne hl] at htree'
    exact h l tree' htree'

theorem Invariant.step {op : Op} (h : Invariant kb) (hstep : step params kb op = some kb') :
    Invariant kb' := by
  cases op with
  | put token windowTokens pattern useBatch =>
    cases hstep
    exact h.putWindow token windowTokens pattern useBatch
  | clearInput useBatch =>
    cases hstep
    exact h.map fun _ tree hinv => ⟨LawfulDraftTree.inv_clear useBatch tree hinv,
      LawfulDraftTree.startTokenId_clear useBatch tree⟩
  | trim =>
    cases hstep
    unfold trim
    split
    · exact h.map fun _ tree hinv => ⟨LawfulDraftTree.inv_trim tree hinv,
        LawfulDraftTree.startTokenId_trim tree⟩
    · exact h
  | forget =>
    cases hstep
    exact h

theorem invariant_of_reaches (h : Reaches (step params) (fun _ _ => True) {} kb) :
    Invariant kb :=
  h.invariant (fun _ _ hnone => by cases hnone) fun _ _ _ hs _ hstep => hs.step hstep

/-! ## The loop -/

/-- What the loop ends with has been looked up for a suffix, or before. -/
theorem draftLoop_spec {found? : Option (Found T)} {found : Found T} (ids : List Int)
    (h : draftLoop stopWords maxSize searchSize useBatch kb found? ids = some found) :
    found? = some found ∨ ∃ before, ids = before ++ found.token :: found.suffix ∧
      kb.token2tree found.token = some found.tree := by
  induction ids generalizing found? with
  | nil => exact .inl h
  | cons token ids ih =>
    have hlater : (∃ before, ids = before ++ found.token :: found.suffix ∧
        kb.token2tree found.token = some found.tree) → ∃ before,
          token :: ids = before ++ found.token :: found.suffix ∧
            kb.token2tree found.token = some found.tree := by
      rintro ⟨before, rfl, htree⟩
      exact ⟨token :: before, rfl, htree⟩
    unfold draftLoop at h
    cases hget : kb.token2tree token with
    | none =>
      rw [hget] at h
      exact (ih h).imp_right hlater
    | some tree =>
      rw [hget] at h
      dsimp only at h
      split at h
      · exact (ih h).imp_right hlater
      · have hhere : Found.mk token tree ids = found → ∃ before,
            token :: ids = before ++ found.token :: found.suffix ∧
              kb.token2tree found.token = some found.tree := by
          rintro rfl
          exact ⟨[], rfl, hget⟩
        split at h
        · exact .inr (hhere (Option.some.inj h))
        · rcases ih h with heq | hrest
          · exact .inr (hhere (Option.some.inj heq))
          · exact .inr (hlater hrest)

/-- The loop ends with the first draft that is long enough. -/
theorem draftLoop_long {token : Int} {tree : T} {ids : List Int} (found? : Option (Found T))
    (h : kb.token2tree token = some tree) (hids : ids ≠ [])
    (hlong : searchSize / 2 ≤ (DraftTree.draft ids useBatch maxSize tree).ids.length) :
    draftLoop stopWords maxSize searchSize useBatch kb found? (token :: ids) =
      some ⟨token, tree, ids⟩ := by
  unfold draftLoop
  rw [h]
  dsimp only
  rw [if_neg fun hlast => hids hlast.2, if_pos hlong]

theorem length_tril (n : Nat) : (tril n).length = n := by
  unfold tril
  rw [List.length_map, List.length_range]

theorem length_of_mem_tril {n : Nat} {row : List Int} (h : row ∈ tril n) : row.length = n := by
  obtain ⟨i, -, rfl⟩ := List.mem_map.mp h
  rw [List.length_map, List.length_range]

theorem drop_last_eq (hne : tokenIds ≠ []) :
    tokenIds.drop (tokenIds.length - 1) = [tokenIds.getLast hne] :=
  List.drop_length_sub_one hne

/-- The last token alone is a draft, if there is room for it. -/
theorem wellFormed_last_iff (hne : tokenIds ≠ []) :
    WellFormed stopWords tokenIds decodingLength searchSize useBatch kb
      (tokenIds.drop (tokenIds.length - 1), tril 1) ↔ 1 ≤ decodingLength := by
  rw [drop_last_eq hne]
  constructor
  · exact fun h => h.length
  · intro hroom
    exact ⟨(List.getLast?_eq_some_getLast hne).symm, fun h => absurd rfl h, hroom, length_tril 1,
      fun row hrow => length_of_mem_tril hrow⟩

/-- A draft is well-formed if and only if the look-up that it comes from is. -/
theorem wellFormed_found_iff {found : Found T} (h : Invariant kb) (hlong : 1 < decodingLength)
    (hfound : draftLoop stopWords (decodingLength - 1).toNat searchSize useBatch kb none tokenIds =
      some found) (d : Draft) :
    WellFormed stopWords tokenIds decodingLength searchSize useBatch kb
        (d.ids, tril (d.size + 1)) ↔
      DraftTree.WellFormed found.tree found.suffix useBatch (decodingLength - 1).toNat d := by
  rcases draftLoop_spec tokenIds hfound with hnone | ⟨before, hids, htree⟩
  · cases hnone
  have hlast : tokenIds.getLast? =
      some (found.suffix.getLast?.getD (DraftTree.startTokenId found.tree)) := by
    rw [hids, List.getLast?_append, List.getLast?_cons, (h _ _ htree).2, Option.some_or]
  constructor
  · intro hwell
    refine ⟨hwell.first.trans hlast, fun hne => ?_, ?_, ?_⟩
    · obtain ⟨found', -, g, hfound', -, -, hg⟩ := hwell.path hne
      cases hfound.symm.trans hfound'
      exact ⟨g, hg⟩
    · have hlength := hwell.length
      dsimp only at hlength
      omega
    · exact (length_tril _).symm.trans hwell.mask.1
  · intro hwell
    refine ⟨hwell.first.trans hlast.symm, fun hne => ?_, ?_, ?_⟩
    · obtain ⟨g, hg⟩ := hwell.path hne
      exact ⟨found, before, g, hfound, hids, htree, hg⟩
    · have hlength := hwell.length
      dsimp only
      omega
    · dsimp only
      rw [← hwell.size]
      exact ⟨length_tril _, fun row hrow => length_of_mem_tril hrow⟩

/-- **A draft is well-formed if and only if there is room for a token and the look-up that decides
is sound**, in all knowledge bases that are reached. -/
theorem wellFormed_getSingleDraft_iff (h : Reaches (step params) (fun _ _ => True) {} kb)
    (hne : tokenIds ≠ []) :
    WellFormed stopWords tokenIds decodingLength searchSize useBatch kb
        (getSingleDraft stopWords tokenIds decodingLength searchSize useBatch kb) ↔
      Sound stopWords tokenIds decodingLength searchSize useBatch kb := by
  have hinv := invariant_of_reaches h
  unfold getSingleDraft
  dsimp only
  split
  · next hshort =>
    rw [wellFormed_last_iff hne]
    constructor
    · intro hroom
      refine ⟨hroom, fun hlong hsize => ?_⟩
      rcases hshort with hle | hzero
      · exact absurd hlong (not_lt.mpr hle)
      · exact absurd hzero hsize
    · exact Sound.room
  · next hnot =>
    rw [not_or, not_le] at hnot
    obtain ⟨hlong, hsize⟩ := hnot
    have hmax : 0 < (decodingLength - 1).toNat := by omega
    cases hfound : draftLoop stopWords (decodingLength - 1).toNat searchSize useBatch kb none
        tokenIds with
    | none =>
      rw [wellFormed_last_iff hne]
      refine iff_of_true hlong.le ⟨hlong.le, fun _ _ found hsome => ?_⟩
      rw [hfound] at hsome
      cases hsome
    | some found =>
      dsimp only
      rcases draftLoop_spec tokenIds hfound with hnone | ⟨before, hids, htree⟩
      · cases hnone
      rw [wellFormed_found_iff hinv hlong hfound,
        LawfulDraftTree.wellFormed_iff _ _ _ _ (hinv _ _ htree).1 hmax]
      constructor
      · intro hfits
        refine ⟨hlong.le, fun _ _ found' hfound' => ?_⟩
        cases hfound.symm.trans hfound'
        exact hfits
      · exact fun hsound => hsound.fits hlong hsize found hfound

end Runs

/-! ## Both implementations -/

/-- **A draft of either implementation is well-formed if and only if there is room for a token and
the look-up that decides is sound.** -/
theorem wellFormed_iff (params : KnowledgeBaseParams) (stopWords tokenIds : List Int)
    (hne : tokenIds ≠ []) (decodingLength : Int) (searchSize useBatch : Nat) :
    (∀ kb : DraftCache Tree, Reaches (step params) (fun _ _ => True) {} kb →
      (WellFormed stopWords tokenIds decodingLength searchSize useBatch kb
          (getSingleDraft stopWords tokenIds decodingLength searchSize useBatch kb) ↔
        Sound stopWords tokenIds decodingLength searchSize useBatch kb)) ∧
    (∀ kb : DraftCache PrefixTree, Reaches (step params) (fun _ _ => True) {} kb →
      (WellFormed stopWords tokenIds decodingLength searchSize useBatch kb
          (getSingleDraft stopWords tokenIds decodingLength searchSize useBatch kb) ↔
        Sound stopWords tokenIds decodingLength searchSize useBatch kb)) :=
  ⟨fun _ h => wellFormed_getSingleDraft_iff h hne, fun _ h => wellFormed_getSingleDraft_iff h hne⟩

section Example

/-- What has followed the token 5 is put in, and looked up after it and the first of that. -/
theorem wellFormed_one :
    let kb : DraftCache Tree := putWindow { eos := [2] } 5 [6, 7, 8] .output 0 {}
    let native : DraftCache PrefixTree := putWindow { eos := [2] } 5 [6, 7, 8] .output 0 {}
    (WellFormed [] [5, 6] 4 4 0 kb (getSingleDraft [] [5, 6] 4 4 0 kb) ∧
      (getSingleDraft [] [5, 6] 4 4 0 kb).1 = [6, 7, 8]) ∧
    WellFormed [] [5, 6] 4 4 0 native (getSingleDraft [] [5, 6] 4 4 0 native) ∧
      (getSingleDraft [] [5, 6] 4 4 0 native).1 = [6, 7, 8] := by
  obtain ⟨hpython, hnative⟩ := wellFormed_iff { eos := [2] } [] [5, 6] (by decide) 4 4 0
  refine ⟨⟨?_, by decide +kernel⟩, ?_, by decide +kernel⟩
  · refine (hpython _ (.one (a := .put 5 [6, 7, 8] .output 0) trivial rfl)).mpr ⟨by decide, ?_⟩
    intro _ _ found hfound
    cases hfound.symm.trans (draftLoop_long none rfl (by decide) (by decide +kernel))
    exact nofun
  · refine (hnative _ (.one (a := .put 5 [6, 7, 8] .output 0) trivial rfl)).mpr ⟨by decide, ?_⟩
    intro _ _ found hfound
    cases hfound.symm.trans (draftLoop_long none rfl (by decide) (by decide +kernel))
    exact ⟨nofun, nofun, .inl ⟨_, _, _, rfl, .inr (by decide), rfl⟩⟩

/-- The last token 0 is not taken; and the mask of a token that is not found has two rows. -/
theorem not_wellFormed :
    let kb : DraftCache Tree := putWindow { eos := [2] } 5 [0, 6] .output 0 {}
    let native : DraftCache PrefixTree := putWindow { eos := [2] } 5 [0, 6] .output 0 {}
    ¬WellFormed [] [5, 0] 4 4 0 kb (getSingleDraft [] [5, 0] 4 4 0 kb) ∧
      ¬WellFormed [] [5, 7] 4 4 0 native (getSingleDraft [] [5, 7] 4 4 0 native) := by
  constructor
  · intro h
    have hfirst := h.first
    revert hfirst
    decide +kernel
  · intro h
    have hmask := h.mask.1
    revert hmask
    decide +kernel

end Example

end DraftCache

end MindieLLM
