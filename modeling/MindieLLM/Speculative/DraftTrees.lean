import MindieLLM.Speculative.PrefixTree

/-!
# Look-ups in the tree of a token

A look-up follows the tokens that precede a draft, and then the greatest frequencies. It has a first
token, which is the last of those that precede, and a size, from which the mask is made. Both
implementations are asked for the same.

The one takes a last token 0 for none, and has the token of the tree in its place. The other counts
a token too many where it finds nothing, takes a last token -1 for none, and passes over nodes that
do not match.

## Main definitions

* `DraftTree`: an implementation, with its operations
* `DraftTree.WellFormed`: what is asked of a look-up
* `LawfulDraftTree`: what holds of all trees that are reached, and where a look-up is well-formed
* `Tree.LastTaken`, `PrefixTree.LookUpSound`: where it is, for each implementation

## Main results

* `Tree.wellFormed_searchOneDraft_iff`, `PrefixTree.wellFormed_getOneDraft_iff`: one look-up
-/

namespace MindieLLM

open Program

/-- An implementation of the tree of a token, whose nodes have values of type `V`. -/
class DraftTree (T : Type) (V : outParam Type) where
  startTokenId : T → Int
  nodes : T → Forest Int V
  /-- A frequency for a cache id, or for the answers, is positive. -/
  Counts : Nat → V → Prop
  fresh : Int → Nat → Nat → T
  put : Bool → List Int → Pattern → Nat → T → T
  clear : Nat → T → T
  trim : T → T
  draft : List Int → Nat → Nat → T → Draft

namespace DraftTree

variable {T V : Type} [DraftTree T V]

/-- The draft begins with the last token that precedes it and follows a path that counts; its size
is that of its tokens, of which there are not too many. -/
structure WellFormed (t : T) (preTokenIds : List Int) (useBatch maxSize : Nat) (d : Draft) :
    Prop where
  first : d.ids.head? = some (preTokenIds.getLast?.getD (startTokenId t))
  path : d.ids.tail ≠ [] →
    ∃ g, Forest.Leads (Counts T useBatch) (preTokenIds ++ d.ids.tail) (nodes t) g
  length : d.ids.length ≤ maxSize + 1
  size : d.size + 1 = d.ids.length

end DraftTree

/-- What holds of the trees that are reached, and the look-ups of which these are well-formed. -/
class LawfulDraftTree (T : Type) (V : outParam Type) extends DraftTree T V where
  Inv : T → Prop
  Fits : List Int → Nat → T → Prop
  inv_fresh : ∀ startTokenId maxSize maxOutputSize, Inv (fresh startTokenId maxSize maxOutputSize)
  inv_put : ∀ dynamicAlgo window pattern useBatch t, Inv t →
    Inv (put dynamicAlgo window pattern useBatch t)
  inv_clear : ∀ useBatch t, Inv t → Inv (clear useBatch t)
  inv_trim : ∀ t, Inv t → Inv (trim t)
  startTokenId_fresh : ∀ token maxSize maxOutputSize,
    startTokenId (fresh token maxSize maxOutputSize) = token
  startTokenId_put : ∀ dynamicAlgo window pattern useBatch t,
    startTokenId (put dynamicAlgo window pattern useBatch t) = startTokenId t
  startTokenId_clear : ∀ useBatch t, startTokenId (clear useBatch t) = startTokenId t
  startTokenId_trim : ∀ t, startTokenId (trim t) = startTokenId t
  wellFormed_iff : ∀ preTokenIds useBatch maxSize t, Inv t → 0 < maxSize →
    (DraftTree.WellFormed t preTokenIds useBatch maxSize (draft preTokenIds useBatch maxSize t) ↔
      Fits preTokenIds useBatch t)

/-! ## The tree -/

namespace Tree

variable {b : Int} {nodes behind : TreeNodes} {tokens : List Int} {t : Tree}
  {useBatch maxSize : Nat}

/-- A frequency for the cache id, or for the answers, is positive. -/
def Counts (useBatch : Nat) (freqs : Freqs) : Prop := 0 < freqs useBatch ∨ 0 < freqs (-1)

instance : DraftTree Tree Freqs where
  startTokenId := Tree.startTokenId
  nodes := Tree.treeNodes
  Counts := Counts
  fresh startTokenId maxSize maxOutputSize :=
    { startTokenId := startTokenId
      maxSize := maxSize
      maxOutputSize := maxOutputSize }
  put := Tree.addNode
  clear := Tree.clearInput
  trim := Tree.trim
  draft preTokenIds useBatch maxSize t := t.searchOneDraft preTokenIds maxSize useBatch

/-- Where something follows a last token 0, the tree is that of the token 0. -/
def LastTaken (preTokenIds : List Int) (useBatch : Nat) (t : Tree) : Prop :=
  preTokenIds.getLast? = some 0 →
    (∃ g, Forest.Leads (Counts useBatch) preTokenIds t.treeNodes g ∧ g ≠ .nil) → t.startTokenId = 0

theorem matchTokens_nil_left (matched : Option Int) : ∃ matched',
    matchTokens b tokens matched .nil = (.nil, matched') := by
  induction tokens generalizing matched with
  | nil => exact ⟨matched, rfl⟩
  | cons token rest ih => exact ⟨some token, rfl⟩

/-- The walk of the source leads where the tokens lead, or nowhere. -/
theorem matchTokens_cases (tokens : List Int) (nodes : TreeNodes) (matched : Option Int) :
    (∃ g, Forest.Leads (Counts useBatch) tokens nodes g ∧
        matchTokens useBatch tokens matched nodes = (g, tokens.getLast?.or matched)) ∨
      (¬∃ g, Forest.Leads (Counts useBatch) tokens nodes g) ∧
        ∃ matched', matchTokens useBatch tokens matched nodes = (.nil, matched') := by
  induction tokens generalizing nodes matched with
  | nil => exact .inl ⟨nodes, rfl, rfl⟩
  | cons token rest ih =>
    unfold matchTokens
    cases hget : nodes.get token with
    | none =>
      refine .inr ⟨?_, some token, rfl⟩
      rintro ⟨g, v, c, hget', -⟩
      rw [hget] at hget'
      cases hget'
    | some node =>
      obtain ⟨freqs, next⟩ := node
      dsimp only
      by_cases hcounts : 0 < freqs useBatch ∨ 0 < freqs (-1)
      · rw [if_pos hcounts]
        have hstep (g : TreeNodes) : Forest.Leads (Counts useBatch) (token :: rest) nodes g ↔
            Forest.Leads (Counts useBatch) rest next g := by
          constructor
          · rintro ⟨v, c, hget', -, hrest⟩
            rw [hget] at hget'
            cases hget'
            exact hrest
          · exact fun hrest => ⟨freqs, next, hget, hcounts, hrest⟩
        simp only [hstep, List.getLast?_cons]
        rcases ih next (some token) with ⟨g, hg, heq⟩ | hnot
        · refine .inl ⟨g, hg, heq.trans ?_⟩
          cases rest.getLast? <;> rfl
        · exact .inr hnot
      · rw [if_neg hcounts]
        refine .inr ⟨?_, matchTokens_nil_left _⟩
        rintro ⟨g, v, c, hget', hv, -⟩
        rw [hget] at hget'
        cases hget'
        exact hcounts hv

theorem searchNodes_eq_greedy (size : Nat) (nodes : TreeNodes) :
    searchNodes b size nodes = nodes.greedy (PrefixTree.total b) size := by
  induction size generalizing nodes with
  | zero => rfl
  | succ size ih =>
    unfold searchNodes Forest.greedy
    rw [PrefixTree.bestNode_eq_argmax le_rfl]
    cases nodes.argmax (PrefixTree.total b) none 0 with
    | none => rfl
    | some best => exact congrArg (best.1 :: ·) (ih best.2)

theorem holds_of_forall {P : Freqs → TreeNodes → Prop} (h : ∀ freqs next, P freqs next) :
    nodes.Holds P := by
  induction nodes with
  | nil => trivial
  | cons token freqs next rest ihn ihr => exact ⟨h freqs next, ihn, ihr⟩

theorem counts_of_total_pos {freqs : Freqs} (h : 0 < PrefixTree.total useBatch freqs) :
    Counts useBatch freqs := by
  unfold PrefixTree.total at h
  by_contra hnot
  unfold Counts at hnot
  rw [not_or, not_lt, not_lt] at hnot
  linarith

/-- A draft that follows nothing is the last token alone. -/
theorem searchOneDraft_of_nil {matched : Option Int}
    (h : matchTokens useBatch tokens none t.treeNodes = (.nil, matched)) :
    t.searchOneDraft tokens maxSize useBatch = ⟨[tokens.getLast?.getD t.startTokenId], 0⟩ := by
  unfold searchOneDraft
  rw [h]

theorem searchOneDraft_of_ne_nil {matched : Option Int} (hne : behind ≠ .nil)
    (h : matchTokens useBatch tokens none t.treeNodes = (behind, matched)) :
    t.searchOneDraft tokens maxSize useBatch =
      ⟨matchedOr t.startTokenId matched :: searchNodes useBatch maxSize behind,
        (searchNodes useBatch maxSize behind).length⟩ := by
  unfold searchOneDraft
  rw [h]
  cases behind with
  | nil => exact absurd rfl hne
  | cons token freqs next rest => rfl

/-- The last token is taken for what it is. -/
theorem matchedOr_eq_iff (startTokenId : Int) (last : Option Int) :
    matchedOr startTokenId (last.or none) = last.getD startTokenId ↔
      (last = some 0 → startTokenId = 0) := by
  cases last with
  | none => exact iff_of_true rfl nofun
  | some token =>
    unfold matchedOr
    by_cases hzero : token = 0
    · subst hzero
      exact ⟨fun h _ => h, fun h => h rfl⟩
    · exact iff_of_true (if_neg hzero) fun h => absurd (Option.some.inj h) hzero

theorem wellFormed_searchOneDraft_iff (hnodes : t.treeNodes.Distinct) :
    DraftTree.WellFormed t tokens useBatch maxSize (t.searchOneDraft tokens maxSize useBatch) ↔
      LastTaken tokens useBatch t := by
  have hnone : ∀ g, matchTokens useBatch tokens none t.treeNodes = (.nil, g) →
      DraftTree.WellFormed t tokens useBatch maxSize
        (t.searchOneDraft tokens maxSize useBatch) := by
    intro g hmatch
    rw [searchOneDraft_of_nil hmatch]
    exact ⟨rfl, fun h => absurd rfl h, Nat.le_add_left 1 maxSize, rfl⟩
  have hcases : (∃ g, Forest.Leads (Counts useBatch) tokens t.treeNodes g ∧ _) ∨ _ :=
    matchTokens_cases tokens t.treeNodes none
  rcases hcases with ⟨g, hg, hmatch⟩ | ⟨hnot, matched, hmatch⟩
  · by_cases hne : g = .nil
    · subst hne
      refine iff_of_true (hnone _ hmatch) fun _ ⟨g, hg', hne⟩ => ?_
      exact absurd (hg'.unique hg) hne
    · have hlast : LastTaken tokens useBatch t ↔
          (tokens.getLast? = some 0 → t.startTokenId = 0) :=
        ⟨fun h hzero => h hzero ⟨g, hg, hne⟩, fun h hzero _ => h hzero⟩
      rw [hlast, ← matchedOr_eq_iff, searchOneDraft_of_ne_nil hne hmatch, searchNodes_eq_greedy]
      constructor
      · exact fun h => Option.some.inj h.first
      · intro hfirst
        refine ⟨congrArg some hfirst, fun _ => ?_, ?_, rfl⟩
        · obtain ⟨g', hg'⟩ := Forest.greedy_leads (P := Counts useBatch) (hg.distinct hnodes)
            (holds_of_forall fun _ _ => counts_of_total_pos) maxSize
          exact ⟨g', Forest.leads_append_iff.mpr ⟨g, hg, hg'⟩⟩
        · exact Nat.succ_le_succ (Forest.length_greedy_le _ maxSize g)
  · refine iff_of_true (hnone matched hmatch) fun _ ⟨g, hg, _⟩ => ?_
    exact absurd ⟨g, hg⟩ hnot

instance : LawfulDraftTree Tree Freqs where
  Inv t := t.treeNodes.Distinct
  Fits := LastTaken
  inv_fresh _ _ _ := trivial
  inv_put _ _ _ _ _ := distinct_addTokens
  inv_clear _ _ := distinct_clearNodes
  inv_trim t h := by
    change (Tree.trim t).treeNodes.Distinct
    unfold Tree.trim
    split
    · exact distinct_trimRecursive h
    · exact h
  startTokenId_fresh _ _ _ := rfl
  startTokenId_put _ _ _ _ _ := rfl
  startTokenId_clear _ _ := rfl
  startTokenId_trim t := by
    change (Tree.trim t).startTokenId = t.startTokenId
    unfold Tree.trim
    split <;> rfl
  wellFormed_iff _ _ _ _ h _ := wellFormed_searchOneDraft_iff h

end Tree

/-! ## The native tree -/

namespace PrefixTree

variable {nodes behind : Nodes} {freqs : FreqMap} {tokens : List Int} {t : PrefixTree}
  {useBatch maxSize : Nat}

/-- A frequency for the cache id, or for the answers, is there and positive. -/
def Counts (useBatch : Nat) (freqs : FreqMap) : Prop :=
  0 < (freqs useBatch).getD 0 ∨ 0 < (freqs (-1)).getD 0

instance : DraftTree PrefixTree FreqMap where
  startTokenId := rootTokenId
  nodes := fullNodes
  Counts := Counts
  fresh startTokenId maxSize maxOutputSize :=
    { rootTokenId := startTokenId
      maxNode := maxSize
      maxOutputNode := maxOutputSize }
  put _ := put
  clear := resetInputFreq
  trim := trim
  draft preTokenIds useBatch maxSize t := t.getOneDraft preTokenIds useBatch maxSize

/-- Frequencies that are there are positive. -/
def Positive (freqs : FreqMap) : Prop := ∀ b freq, freqs b = some freq → 0 < freq

/-- Something follows the tokens, of which the last is not taken for none; and they match, or there
is nothing to go on to. -/
structure LookUpSound (preTokenIds : List Int) (useBatch : Nat) (t : PrefixTree) : Prop where
  found : (matchNodes useBatch preTokenIds (-1) t.fullNodes).1 ≠ .nil
  last : preTokenIds.getLast? = some (-1) → t.rootTokenId = -1
  matched : (∃ g, Forest.Leads (Counts useBatch) preTokenIds t.fullNodes g) ∨
    ∀ token freqs children, (matchNodes useBatch preTokenIds (-1) t.fullNodes).1.get token =
      some (freqs, children) → score useBatch freqs ≤ 0

/-! ### What is kept of the frequencies -/

theorem positive_defaultFreq (b : Int) : Positive (defaultFreq b) := by
  intro a freq h
  unfold defaultFreq at h
  split at h
  · cases h
    exact one_pos
  · cases h

theorem Positive.addNodeFreq (h : Positive freqs) (b : Int) : Positive (addNodeFreq freqs b) := by
  intro a freq hfreq
  unfold PrefixTree.addNodeFreq at hfreq
  split at hfreq
  · split at hfreq
    · cases hfreq
      exact one_pos
    · next x hx =>
      have hpos := h a x hx
      cases hfreq
      split
      · exact roundDigits_pos (by decide) (by linarith)
      · exact hpos
  · exact h a freq hfreq

theorem Positive.eraseFreq (h : Positive freqs) (b : Int) : Positive (eraseFreq freqs b) := by
  intro a freq hfreq
  unfold PrefixTree.eraseFreq at hfreq
  split at hfreq
  · cases hfreq
  · exact h a freq hfreq

theorem Positive.halveFreq (h : Positive freqs) : Positive (halveFreq freqs) := by
  intro a freq hfreq
  unfold PrefixTree.halveFreq at hfreq
  split at hfreq
  · obtain ⟨x, hx, rfl⟩ := Option.map_eq_some_iff.mp hfreq
    have hpos := h a x hx
    linarith
  · exact h a freq hfreq

/-- All frequencies that are there are positive. -/
def AllPositive : Nodes → Prop := Forest.Holds fun freqs _ => Positive freqs

theorem allPositive_pack (b : Int) (h : AllPositive nodes) : AllPositive (pack b tokens nodes) := by
  induction tokens generalizing nodes with
  | nil => exact h
  | cons token rest ih =>
    have hnone : AllPositive (.nil : Nodes) := trivial
    exact Forest.Holds.insert h (positive_defaultFreq b) (ih hnone)

theorem allPositive_addNode (b : Int) (h : AllPositive nodes) :
    AllPositive (addNode b tokens nodes).1 := by
  induction tokens generalizing nodes with
  | nil => exact h
  | cons token rest ih =>
    unfold addNode
    split
    · exact allPositive_pack b h
    · next node hget =>
      obtain ⟨hpositive, hbelow⟩ := Forest.Holds.get h hget
      exact Forest.Holds.set h (hpositive.addNodeFreq b) (ih hbelow)

theorem allPositive_clearInput (b : Int) (h : AllPositive nodes) :
    AllPositive (clearInput b nodes) := by
  induction nodes with
  | nil => trivial
  | cons token freqs children rest ihc ihr =>
    unfold clearInput
    split
    · exact ⟨h.1, h.2.1, ihr h.2.2⟩
    · exact ⟨h.1.eraseFreq b, ihc h.2.1, ihr h.2.2⟩

theorem allPositive_trimNode (h : AllPositive nodes) : AllPositive (trimNode nodes) := by
  induction nodes with
  | nil => trivial
  | cons token freqs children rest ihc ihr =>
    unfold trimNode
    dsimp only
    split
    · exact ⟨h.1.halveFreq, ihc h.2.1, ihr h.2.2⟩
    · exact ihr h.2.2

/-! ### One look-up -/

theorem Positive.counts_of_score_pos (h : Positive freqs) (hscore : 0 < score useBatch freqs) :
    Counts useBatch freqs := by
  by_contra hnot
  unfold Counts at hnot
  rw [not_or] at hnot
  have hmissing (b : Int) (hb : ¬0 < (freqs b).getD 0) : freqs b = none := by
    cases hfreq : freqs b with
    | none => rfl
    | some freq =>
      rw [hfreq] at hb
      exact absurd (h b freq hfreq) hb
  unfold score at hscore
  rw [hmissing _ hnot.1, hmissing _ hnot.2] at hscore
  exact lt_irrefl _ hscore

theorem Counts.present (h : Counts useBatch freqs) :
    freqs useBatch ≠ none ∨ freqs (-1) ≠ none := by
  refine h.imp (fun hpos hnone => ?_) fun hpos hnone => ?_
  all_goals
    rw [hnone] at hpos
    exact lt_irrefl _ hpos

/-- The last token is remembered where something is found. -/
theorem matchNodes_snd (b m : Int) (h : (matchNodes b tokens m nodes).1 ≠ .nil) :
    (matchNodes b tokens m nodes).2 = tokens.getLast?.getD m := by
  induction tokens generalizing nodes m with
  | nil => rfl
  | cons token rest ih =>
    unfold matchNodes at h ⊢
    cases hget : nodes.get token with
    | none =>
      rw [hget] at h
      exact absurd rfl h
    | some node =>
      rw [hget] at h
      rw [List.getLast?_cons, Option.getD_some]
      exact ih token h

/-- Tokens that match are followed. -/
theorem matchNodes_fst_of_leads (m : Int)
    (h : Forest.Leads (Counts useBatch) tokens nodes behind) :
    (matchNodes useBatch tokens m nodes).1 = behind := by
  induction tokens generalizing nodes m with
  | nil => exact h
  | cons token rest ih =>
    obtain ⟨freqs, children, hget, hcounts, hrest⟩ := h
    unfold matchNodes
    rw [hget]
    dsimp only
    rw [if_pos hcounts.present]
    exact ih token hrest

/-- Nodes that are passed over or followed are nodes of the tree. -/
theorem matchNodes_fst_of_nodes (b m : Int) (hnodes : nodes.Distinct) (h : AllPositive nodes) :
    (matchNodes b tokens m nodes).1.Distinct ∧ AllPositive (matchNodes b tokens m nodes).1 := by
  induction tokens generalizing nodes m with
  | nil => exact ⟨hnodes, h⟩
  | cons token rest ih =>
    unfold matchNodes
    cases hget : nodes.get token with
    | none => exact ⟨trivial, trivial⟩
    | some node =>
      dsimp only
      split
      · exact ih token (hnodes.get hget) (Forest.Holds.get h hget).2
      · exact ih token hnodes h

theorem searchBestDraft_eq_greedy (b : Int) (size : Nat) (nodes : Nodes) :
    searchBestDraft b size nodes = nodes.greedy (score b) size := by
  induction size generalizing nodes with
  | zero => rfl
  | succ size ih =>
    unfold searchBestDraft Forest.greedy
    cases nodes.argmax (score b) none 0 with
    | none => rfl
    | some best => exact congrArg (best.1 :: ·) (ih best.2)

theorem getOneDraft_of_nil (h : (matchNodes useBatch tokens (-1) t.fullNodes).1 = .nil) :
    t.getOneDraft tokens useBatch maxSize = ⟨[tokens.getLast?.getD t.rootTokenId], 1⟩ := by
  unfold getOneDraft
  cases hmatch : matchNodes useBatch tokens (-1) t.fullNodes with
  | mk behind m =>
    rw [hmatch] at h
    cases h
    rfl

theorem getOneDraft_of_ne_nil (h : (matchNodes useBatch tokens (-1) t.fullNodes).1 ≠ .nil) :
    t.getOneDraft tokens useBatch maxSize =
      ⟨(if tokens.getLast?.getD (-1) = -1 then t.rootTokenId else tokens.getLast?.getD (-1)) ::
          (matchNodes useBatch tokens (-1) t.fullNodes).1.greedy (score useBatch) maxSize,
        ((matchNodes useBatch tokens (-1) t.fullNodes).1.greedy (score useBatch)
          maxSize).length⟩ := by
  have hlast := matchNodes_snd useBatch (-1) h
  rw [← searchBestDraft_eq_greedy, ← hlast]
  unfold getOneDraft
  cases hmatch : matchNodes useBatch tokens (-1) t.fullNodes with
  | mk behind m =>
    rw [hmatch] at h
    cases behind with
    | nil => exact absurd rfl h
    | cons token freqs children rest => rfl

theorem first_iff (root : Int) (last : Option Int) :
    (if last.getD (-1) = -1 then root else last.getD (-1)) = last.getD root ↔
      (last = some (-1) → root = -1) := by
  cases last with
  | none => exact iff_of_true rfl nofun
  | some token =>
    by_cases hnone : token = -1
    · subst hnone
      exact ⟨fun h _ => h, fun h => h rfl⟩
    · exact iff_of_true (if_neg hnone) fun h => absurd (Option.some.inj h) hnone

theorem wellFormed_getOneDraft_iff (hnodes : t.fullNodes.Distinct) (h : AllPositive t.fullNodes)
    (hmax : 0 < maxSize) :
    DraftTree.WellFormed t tokens useBatch maxSize (t.getOneDraft tokens useBatch maxSize) ↔
      LookUpSound tokens useBatch t := by
  by_cases hfound : (matchNodes useBatch tokens (-1) t.fullNodes).1 = .nil
  · -- the only token is counted as one beyond the first
    rw [getOneDraft_of_nil hfound]
    refine iff_of_false (fun hwell => ?_) fun hsound => hsound.found hfound
    have hsize := hwell.size
    cases hsize
  · have hbehind : (matchNodes useBatch tokens (-1) t.fullNodes).1.Distinct ∧
        AllPositive (matchNodes useBatch tokens (-1) t.fullNodes).1 :=
      matchNodes_fst_of_nodes useBatch (-1) hnodes h
    obtain ⟨hdistinct, hpositive⟩ := hbehind
    have hempty : (matchNodes useBatch tokens (-1) t.fullNodes).1.greedy (score useBatch) maxSize =
        [] ↔ maxSize = 0 ∨ _ := Forest.greedy_eq_nil_iff hdistinct
    rw [getOneDraft_of_ne_nil hfound]
    constructor
    · intro hwell
      refine ⟨hfound, (first_iff _ _).mp (Option.some.inj hwell.first), ?_⟩
      by_cases hnone :
          (matchNodes useBatch tokens (-1) t.fullNodes).1.greedy (score useBatch) maxSize = []
      · exact .inr ((hempty.mp hnone).resolve_left hmax.ne')
      · obtain ⟨g, hg⟩ := hwell.path hnone
        obtain ⟨behind, hbehind, -⟩ := Forest.leads_append_iff.mp hg
        exact .inl ⟨behind, hbehind⟩
    · intro hsound
      refine ⟨congrArg some ((first_iff _ _).mpr hsound.last), fun hne => ?_,
        Nat.succ_le_succ (Forest.length_greedy_le _ _ _), rfl⟩
      rcases hsound.matched with ⟨g, hg⟩ | hnone
      · have hscores : (matchNodes useBatch tokens (-1) t.fullNodes).1.Holds fun freqs _ =>
            0 < score useBatch freqs → Counts useBatch freqs :=
          Forest.Holds.imp (fun _ _ hp => hp.counts_of_score_pos) hpositive
        obtain ⟨g', hg'⟩ := Forest.greedy_leads hdistinct hscores maxSize
        rw [matchNodes_fst_of_leads (-1) hg] at hg'
        refine ⟨g', Forest.leads_append_iff.mpr ⟨g, hg, ?_⟩⟩
        rw [matchNodes_fst_of_leads (-1) hg]
        exact hg'
      · exact absurd (hempty.mpr (.inr hnone)) hne

instance : LawfulDraftTree PrefixTree FreqMap where
  Inv t := t.fullNodes.Distinct ∧ AllPositive t.fullNodes
  Fits := LookUpSound
  inv_fresh _ _ _ := ⟨trivial, trivial⟩
  inv_put _ _ _ _ _ h := ⟨distinct_addNode h.1, allPositive_addNode _ h.2⟩
  inv_clear _ _ h := ⟨distinct_clearInput h.1, allPositive_clearInput _ h.2⟩
  inv_trim t h := by
    change (trim t).fullNodes.Distinct ∧ AllPositive (trim t).fullNodes
    unfold trim
    split
    · exact ⟨distinct_trimNode h.1, allPositive_trimNode h.2⟩
    · exact h
  startTokenId_fresh _ _ _ := rfl
  startTokenId_put _ _ _ _ _ := rfl
  startTokenId_clear _ _ := rfl
  startTokenId_trim t := by
    change (trim t).rootTokenId = t.rootTokenId
    unfold trim
    split <;> rfl
  wellFormed_iff _ _ _ _ h hmax := wellFormed_getOneDraft_iff h.1 h.2 hmax

end PrefixTree

end MindieLLM
