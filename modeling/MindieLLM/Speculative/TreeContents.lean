import MindieLLM.Program.Reaches
import MindieLLM.Speculative.Tree

/-!
# What is in the tree of a token

Windows are put into the tree under a key, and the windows of a prompt are cleared. The tree has a
path for each beginning of a window, and its frequency is the number of windows that begin so.

Without the dynamic algorithm, a window that leaves the tree in the middle is put in there from its
first token on.

## Main definitions

* `Tree.frequency key path nodes`: what a path counts for a key
* `Tree.Edit`, `Tree.edit`: windows are put in and cleared, and remembered beside the tree
* `Tree.Contents`: the paths are the beginnings of the windows
* `Tree.Branches`: a window that leaves the tree in the middle is put in by the dynamic algorithm

## Main results

* `Tree.frequency_addTokens`: a window counts for its beginnings
* `Tree.frequency_clearNodes_of_ne`, `Tree.untouched_clearNodes`: what is cleared counts nothing,
  and the rest as before
* `Tree.contents_of_reaches`: the contents in runs in which windows branch off so
* `Tree.not_contents`: the tail of a window is missing
-/

namespace MindieLLM

open Program

namespace Tree

/-- What a path counts for a key. -/
def frequency (key : Int) (path : List Int) (nodes : TreeNodes) : Rat :=
  ((nodes.valueAt path).map fun freqs => freqs key).getD 0

/-! ## Runs -/

inductive Edit
  | addNode (dynamicAlgo : Bool) (window : List Int) (pattern : Pattern) (useBatch : Nat)
  | clearInput (useBatch : Nat)

/-- A tree, and the windows that have been put in for each key since it was cleared. -/
structure Recorded where
  tree : Tree
  windows : Int → List (List Int) := fun _ => []

def edit (s : Recorded) : Edit → Option Recorded
  | .addNode dynamicAlgo window pattern useBatch =>
    some
      { tree := s.tree.addNode dynamicAlgo window pattern useBatch
        windows := Function.update s.windows (batchKey pattern useBatch)
          (s.windows (batchKey pattern useBatch) ++ [window]) }
  | .clearInput useBatch =>
    some
      { tree := s.tree.clearInput useBatch
        windows := Function.update s.windows useBatch [] }

/-- A tree without nodes. -/
def fresh (startTokenId : Int) (maxSize maxOutputSize : Nat) : Recorded where
  tree :=
    { startTokenId := startTokenId
      maxSize := maxSize
      maxOutputSize := maxOutputSize }

/-- The paths that count for a key are the beginnings of its windows, each as often as there are
windows that begin so, and `n` is the number of nodes. -/
structure Contents (s : Recorded) : Prop where
  paths : ∀ key path, 0 < frequency key path s.tree.treeNodes ↔
    path ≠ [] ∧ ∃ window ∈ s.windows key, path <+: window
  frequency : ∀ key path, path ≠ [] → frequency key path s.tree.treeNodes =
    ((s.windows key).countP fun window => path.isPrefixOf window : Nat)
  n : s.tree.n = s.tree.treeNodes.size

/-- How many tokens of a window the tree has. -/
def matched : List Int → TreeNodes → Nat
  | [], _ => 0
  | token :: rest, nodes =>
    match nodes.get token with
    | none => 0
    | some node => matched rest node.2 + 1

/-- Without the dynamic algorithm, the tree has all of a window or nothing. -/
def Branches (s : Recorded) : Edit → Prop
  | .addNode dynamicAlgo window _ _ =>
    dynamicAlgo = true ∨ matched window s.tree.treeNodes = 0 ∨
      matched window s.tree.treeNodes = window.length
  | .clearInput _ => True

instance (s : Recorded) (e : Edit) : Decidable (Branches s e) :=
  match e with
  | .addNode _ _ _ _ => inferInstanceAs (Decidable (_ ∨ _ ∨ _))
  | .clearInput _ => inferInstanceAs (Decidable True)

/-! ## Frequencies -/

variable {key b : Int} {path window tokens : List Int} {nodes next : TreeNodes} {freqs : Freqs}
  {token l : Int} {dynamicAlgo : Bool}

@[simp] theorem frequency_nil (key : Int) (nodes : TreeNodes) : frequency key [] nodes = 0 := rfl

theorem frequency_of_get_eq_none (h : nodes.get token = none) :
    frequency key (token :: path) nodes = 0 := by
  unfold frequency
  rw [Forest.valueAt_of_get_eq_none h]
  rfl

theorem frequency_singleton (h : nodes.get token = some (freqs, next)) :
    frequency key [token] nodes = freqs key := by
  unfold frequency
  rw [Forest.valueAt_singleton h]
  rfl

theorem frequency_cons_cons (h : nodes.get token = some (freqs, next)) :
    frequency key (token :: l :: path) nodes = frequency key (l :: path) next := by
  unfold frequency
  rw [Forest.valueAt_cons_cons h]

/-- Paths count the same where they begin with the same entry. -/
theorem frequency_congr {nodes' : TreeNodes} (h : nodes.get token = nodes'.get token) :
    frequency key (token :: path) nodes = frequency key (token :: path) nodes' := by
  unfold frequency Forest.valueAt
  rw [h]

/-- What a window adds to a path. -/
def share (key b : Int) (path window : List Int) : Rat :=
  if key = b ∧ path ≠ [] ∧ path <+: window then 1 else 0

theorem share_nil_left : share key b [] window = 0 := if_neg fun h => h.2.1 rfl

theorem share_nil_right : share key b path [] = 0 :=
  if_neg fun h => h.2.1 (List.prefix_nil.mp h.2.2)

theorem share_cons_of_ne (h : l ≠ token) : share key b (l :: path) (token :: window) = 0 :=
  if_neg fun hall => h (List.cons_prefix_cons.mp hall.2.2).1

theorem share_singleton : share key b [token] (token :: window) = if key = b then 1 else 0 := by
  unfold share
  have hbegins : [token] <+: token :: window := List.cons_prefix_cons.mpr ⟨rfl, List.nil_prefix⟩
  simp only [hbegins, ne_eq, List.cons_ne_self, not_false_eq_true, and_true]

theorem share_cons_cons : share key b (token :: l :: path) (token :: window) =
    share key b (l :: path) window := by
  unfold share
  simp only [List.cons_prefix_cons, ne_eq, reduceCtorEq, not_false_eq_true, true_and]

theorem once_eq : once b key = if key = b then 1 else 0 := rfl

theorem bump_eq : bump freqs b key = freqs key + if key = b then 1 else 0 := by
  unfold bump
  split
  · rfl
  · exact (add_zero _).symm

theorem frequency_chain (tokens path : List Int) :
    frequency key path (chain b tokens) = share key b path tokens := by
  induction tokens generalizing path with
  | nil =>
    rw [share_nil_right]
    cases path with
    | nil => rfl
    | cons l path => exact frequency_of_get_eq_none rfl
  | cons token rest ih =>
    have hget : (chain b (token :: rest)).get token = some (once b, chain b rest) :=
      Forest.get_cons_self
    cases path with
    | nil => rw [share_nil_left, frequency_nil]
    | cons l path =>
      by_cases hl : l = token
      · subst hl
        cases path with
        | nil => rw [frequency_singleton hget, share_singleton, once_eq]
        | cons l' path => rw [frequency_cons_cons hget, share_cons_cons, ih]
      · rw [share_cons_of_ne hl]
        exact frequency_of_get_eq_none (Forest.get_cons_of_ne (Ne.symm hl))

/-- A window that is put in where it branches off counts for its beginnings. -/
theorem frequency_addTokens (tokens path : List Int) (nodes : TreeNodes) :
    frequency key path (addTokens true b window tokens nodes).1 =
      frequency key path nodes + share key b path tokens := by
  induction tokens generalizing path nodes with
  | nil => rw [share_nil_right, add_zero, addTokens]
  | cons token rest ih =>
    cases path with
    | nil => rw [share_nil_left, frequency_nil, frequency_nil, add_zero]
    | cons l path =>
      unfold addTokens
      by_cases hl : l = token
      · subst hl
        cases hget : nodes.get l with
        | none =>
          -- what remains of the window is new
          have hnew : (insertChain b (l :: rest) nodes).get l =
              (chain b (l :: rest)).get l :=
            Forest.get_set_self.trans Forest.get_cons_self.symm
          dsimp only
          rw [if_pos rfl, frequency_congr hnew, frequency_chain, frequency_of_get_eq_none hget,
            zero_add]
        | some node =>
          obtain ⟨freqs, next⟩ := node
          dsimp only
          cases path with
          | nil =>
            rw [frequency_singleton Forest.get_set_self, frequency_singleton hget, bump_eq,
              share_singleton]
          | cons l' path =>
            rw [frequency_cons_cons Forest.get_set_self, frequency_cons_cons hget, ih,
              share_cons_cons]
      · have hsame (v : Freqs) (c : TreeNodes) : (nodes.set token v c).get l = nodes.get l :=
          Forest.get_set_of_ne (Ne.symm hl)
        rw [share_cons_of_ne hl, add_zero]
        split
        · exact frequency_congr (hsame _ _)
        · exact frequency_congr (hsame _ _)

theorem frequency_of_untouched (h : Untouched b nodes) (path : List Int) :
    frequency b path nodes = 0 := by
  induction path generalizing nodes with
  | nil => rfl
  | cons l path ih =>
    cases hget : nodes.get l with
    | none => exact frequency_of_get_eq_none hget
    | some node =>
      obtain ⟨hzero, hbelow⟩ := Forest.Holds.get h hget
      cases path with
      | nil => exact (frequency_singleton hget).trans hzero
      | cons l' path => exact (frequency_cons_cons hget).trans (ih hbelow)

/-- Clearing a key changes nothing for others. -/
theorem frequency_clearNodes_of_ne (h : key ≠ b) (path : List Int) (nodes : TreeNodes) :
    frequency key path (clearNodes b nodes) = frequency key path nodes := by
  induction path generalizing nodes with
  | nil => rfl
  | cons l path ih =>
    have hentry : (clearNodes b nodes).get l = (nodes.get l).map fun node =>
        if node.1 b = 0 then node else (reset node.1 b, clearNodes b node.2) := get_clearNodes
    cases hget : nodes.get l with
    | none =>
      rw [hget] at hentry
      rw [frequency_of_get_eq_none hget, frequency_of_get_eq_none hentry]
    | some node =>
      obtain ⟨freqs, next⟩ := node
      rw [hget, Option.map_some] at hentry
      split at hentry
      · exact frequency_congr (hentry.trans hget.symm)
      · cases path with
        | nil => rw [frequency_singleton hentry, frequency_singleton hget, reset_of_ne h]
        | cons l' path => rw [frequency_cons_cons hentry, frequency_cons_cons hget, ih]

/-! ## The number of nodes -/

theorem size_chain (b : Int) (tokens : List Int) : (chain b tokens).size = tokens.length := by
  induction tokens with
  | nil => rfl
  | cons token rest ih =>
    rw [chain, Forest.size, ih, Forest.size, List.length_cons]
    omega

/-- The new nodes are those that are counted. -/
theorem size_addTokens (tokens : List Int) (nodes : TreeNodes) :
    (addTokens true b window tokens nodes).1.size =
      nodes.size + (addTokens true b window tokens nodes).2 := by
  induction tokens generalizing nodes with
  | nil => rfl
  | cons token rest ih =>
    unfold addTokens
    cases hget : nodes.get token with
    | none =>
      change (nodes.set token (once b) (chain b rest)).size = nodes.size + (rest.length + 1)
      rw [Forest.size_set_of_get_eq_none hget, size_chain, Nat.add_comm 1]
    | some node =>
      have hset := Forest.size_set_of_get (v := bump node.1 b)
        (c := (addTokens true b window rest node.2).1) hget
      have hbelow := ih node.2
      dsimp only
      omega

theorem size_clearNodes (b : Int) (nodes : TreeNodes) : (clearNodes b nodes).size = nodes.size := by
  induction nodes with
  | nil => rfl
  | cons token freqs next rest ihn ihr =>
    unfold clearNodes
    split
    · rw [Forest.size, Forest.size, ihr]
    · rw [Forest.size, Forest.size, ihn, ihr]

/-! ## One step -/

/-- A window that the tree has puts in no nodes. -/
theorem addTokens_of_matched (h : matched tokens nodes = tokens.length) :
    addTokens dynamicAlgo b window tokens nodes = addTokens true b window tokens nodes := by
  induction tokens generalizing nodes with
  | nil => rfl
  | cons token rest ih =>
    unfold matched at h
    unfold addTokens
    cases hget : nodes.get token with
    | none =>
      rw [hget] at h
      cases h
    | some node =>
      rw [hget] at h
      dsimp only
      rw [ih (Nat.succ.inj h)]

/-- Where the tree has all of a window or nothing, both algorithms do the same. -/
theorem addTokens_of_branches
    (h : dynamicAlgo = true ∨ matched window nodes = 0 ∨ matched window nodes = window.length) :
    addTokens dynamicAlgo b window window nodes = addTokens true b window window nodes := by
  rcases h with rfl | hnothing | hall
  · rfl
  · cases window with
    | nil => rfl
    | cons token rest =>
      unfold matched at hnothing
      unfold addTokens
      cases hget : nodes.get token with
      | none =>
        dsimp only
        rw [ite_self, ite_self]
      | some node =>
        rw [hget] at hnothing
        cases hnothing
  · exact addTokens_of_matched hall

/-- What clearing relies on is kept beside the contents. -/
structure Invariant (s : Recorded) : Prop where
  frequency : ∀ key path, path ≠ [] → frequency key path s.tree.treeNodes =
    ((s.windows key).countP fun window => path.isPrefixOf window : Nat)
  n : s.tree.n = s.tree.treeNodes.size
  supported : ∀ key, Supported key s.tree.treeNodes

variable {s s' : Recorded} {e : Edit}

theorem Invariant.contents (h : Invariant s) : Contents s where
  paths key path := by
    constructor
    · intro hpos
      have hne : path ≠ [] := by
        rintro rfl
        exact lt_irrefl _ hpos
      rw [h.frequency key path hne] at hpos
      obtain ⟨window, hmem, hbegins⟩ := List.countP_pos_iff.mp (by exact_mod_cast hpos)
      exact ⟨hne, window, hmem, List.isPrefixOf_iff_prefix.mp hbegins⟩
    · rintro ⟨hne, window, hmem, hbegins⟩
      rw [h.frequency key path hne]
      exact_mod_cast List.countP_pos_iff.mpr
        ⟨window, hmem, List.isPrefixOf_iff_prefix.mpr hbegins⟩
  frequency := h.frequency
  n := h.n

theorem Invariant.fresh (startTokenId : Int) (maxSize maxOutputSize : Nat) :
    Invariant (fresh startTokenId maxSize maxOutputSize) where
  frequency key path _ := by
    have hnone : Untouched key .nil := trivial
    exact frequency_of_untouched hnone path
  n := rfl
  supported _ := trivial

theorem Invariant.addNode {pattern : Pattern} {useBatch : Nat} (h : Invariant s)
    (hbranches : Branches s (.addNode dynamicAlgo window pattern useBatch))
    (hedit : edit s (.addNode dynamicAlgo window pattern useBatch) = some s') : Invariant s' := by
  cases hedit
  have hnodes : (s.tree.addNode dynamicAlgo window pattern useBatch).treeNodes =
      (addTokens true (batchKey pattern useBatch) window window s.tree.treeNodes).1 :=
    congrArg Prod.fst (addTokens_of_branches hbranches)
  have hn : (s.tree.addNode dynamicAlgo window pattern useBatch).n =
      s.tree.n + (addTokens true (batchKey pattern useBatch) window window s.tree.treeNodes).2 :=
    congrArg (fun added : TreeNodes × Nat => s.tree.n + added.2) (addTokens_of_branches hbranches)
  refine ⟨fun key path hne => ?_, ?_, fun key => supported_addTokens (h.supported key)⟩
  · dsimp only
    rw [hnodes, frequency_addTokens, h.frequency key path hne]
    unfold share
    by_cases hkey : key = batchKey pattern useBatch
    · subst hkey
      rw [Function.update_self, List.countP_append, List.countP_singleton]
      by_cases hbegins : path <+: window
      · rw [if_pos ⟨rfl, hne, hbegins⟩, if_pos (List.isPrefixOf_iff_prefix.mpr hbegins)]
        push_cast
        rfl
      · rw [if_neg fun hall => hbegins hall.2.2,
          if_neg fun hpre => hbegins (List.isPrefixOf_iff_prefix.mp hpre), add_zero, Nat.add_zero]
    · rw [Function.update_of_ne hkey, if_neg fun hall => hkey hall.1, add_zero]
  · dsimp only
    rw [hnodes, hn, size_addTokens, h.n]

theorem Invariant.clearInput {useBatch : Nat} (h : Invariant s)
    (hedit : edit s (.clearInput useBatch) = some s') : Invariant s' := by
  cases hedit
  refine ⟨fun key path hne => ?_, ?_, fun key => supported_clearNodes (h.supported key)⟩
  · dsimp only
    by_cases hkey : key = useBatch
    · subst hkey
      rw [Function.update_self]
      exact frequency_of_untouched (untouched_clearNodes (h.supported _)) path
    · rw [Function.update_of_ne hkey, ← h.frequency key path hne]
      exact frequency_clearNodes_of_ne hkey path s.tree.treeNodes
  · exact h.n.trans (size_clearNodes _ _).symm

/-- **The paths that count are the beginnings of the windows**, as often as windows begin so, in
runs in which windows that leave the tree in the middle are put in by the dynamic algorithm. -/
theorem contents_of_reaches (startTokenId : Int) (maxSize maxOutputSize : Nat)
    (h : Reaches edit Branches (fresh startTokenId maxSize maxOutputSize) s) : Contents s := by
  refine (h.invariant (Invariant.fresh startTokenId maxSize maxOutputSize) ?_).contents
  intro s e s' hs hbranches hedit
  cases e with
  | addNode dynamicAlgo window pattern useBatch => exact hs.addNode hbranches hedit
  | clearInput useBatch => exact hs.clearInput hedit

/-- A window is put in and put in again, another branches off, and a prompt is cleared. -/
theorem contents_of_reaches_clear : ∃ s, Reaches edit Branches (fresh 7 64 64) s ∧ Contents s ∧
    s.windows (-1) = [[1, 2], [1, 2]] ∧ s.windows 0 = [] := by
  obtain ⟨s, hs, hwindows⟩ : ∃ s, Reaches edit Branches (fresh 7 64 64) s ∧
      (s.windows (-1) = [[1, 2], [1, 2]] ∧ s.windows 0 = []) :=
    exists_reaches
      [.addNode false [1, 2] .output 0, .addNode false [1, 2] .output 0,
        .addNode true [1, 3] .input 0, .clearInput 0]
      (by decide +kernel)
  exact ⟨s, hs, contents_of_reaches 7 64 64 hs, hwindows⟩

/-- Of the window `[1, 3]` all is put in below 1, and nothing of it is where it belongs. -/
theorem not_contents : ∃ s, Reaches edit (fun _ _ => True) (fresh 7 64 64) s ∧ ¬Contents s := by
  obtain ⟨s, hs, hwindows, hmissing⟩ : ∃ s,
      Reaches edit (fun _ _ => True) (fresh 7 64 64) s ∧
        ([1, 3] ∈ s.windows (-1) ∧ frequency (-1) [1, 3] s.tree.treeNodes = 0) :=
    exists_reaches [.addNode false [1, 2] .output 0, .addNode false [1, 3] .output 0]
      (by decide +kernel)
  refine ⟨s, hs, fun h => ?_⟩
  have hpos := (h.paths (-1) [1, 3]).mpr ⟨List.cons_ne_nil _ _, [1, 3], hwindows, List.prefix_rfl⟩
  exact hpos.ne' hmissing

end Tree

end MindieLLM
