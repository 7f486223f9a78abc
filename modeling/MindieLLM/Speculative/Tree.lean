import MindieLLM.Program.Forest
import Mathlib.Tactic.Linarith

/-!
# The tree of what follows a token

Memory decoding remembers what has followed a token, in prompts and in answers, as a tree of tokens
with frequencies: those of the answers under -1, and those of the prompts under the cache id of the
request that brought the prompt. A draft follows the greatest frequencies.

## Main definitions

* `Tree`: the tree of a token, with `addNode`, `trim`, `clearInput` and `searchOneDraft`
* `Tree.Untouched`: no node has a frequency under a cache id
* `Tree.Supported`: what is below a node without a frequency has none either

## Main results

* `Tree.untouched_clearNodes`: clearing a cache id leaves no frequency under it
* `Tree.supported_addTokens`, `Tree.supported_trimRecursive`: what clearing relies on
-/

namespace MindieLLM

open Program

/-- The frequencies of a node; `get(use_batch, 0.0)`. -/
abbrev Freqs := Int → Rat

/-- `tree_nodes` and `next_node` -/
abbrev TreeNodes := Forest Int Freqs

inductive Pattern
  | input
  | output
  deriving DecidableEq

structure Tree where
  startTokenId : Int
  treeNodes : TreeNodes := .nil
  n : Nat := 0
  nOutput : Nat := 0
  maxSize : Nat := 65536
  maxOutputSize : Nat := 1024

/-- What `search_one_draft` finds: the tokens, and how many there are beyond the first. -/
structure Draft where
  ids : List Int
  size : Nat
  deriving DecidableEq, Repr

namespace Tree

/-! ## Windows that are put in -/

/-- `{use_batch: 1.0}` -/
def once (useBatch : Int) : Freqs := fun b => if b = useBatch then 1 else 0

def bump (freqs : Freqs) (useBatch : Int) : Freqs :=
  fun b => if b = useBatch then freqs b + 1 else freqs b

/-- New nodes for tokens in a row. -/
def chain (useBatch : Int) : List Int → TreeNodes
  | [] => .nil
  | token :: rest => .cons token (once useBatch) (chain useBatch rest) .nil

/-- `temp_nodes.update(next_node)` -/
def insertChain (useBatch : Int) (tokens : List Int) (nodes : TreeNodes) : TreeNodes :=
  match tokens with
  | [] => nodes
  | token :: rest => nodes.set token (once useBatch) (chain useBatch rest)

/-- The walk along the tokens that remain of a window. At the first that is missing all of the
window is put in, and with `dynamic_algo` what remains of it. The second result is the number of
new nodes that is counted. -/
def addTokens (dynamicAlgo : Bool) (useBatch : Int) (window : List Int) :
    List Int → TreeNodes → TreeNodes × Nat
  | [], nodes => (nodes, 0)
  | token :: rest, nodes =>
    match nodes.get token with
    | none =>
      let tail := if dynamicAlgo then token :: rest else window
      (insertChain useBatch tail nodes, tail.length)
    | some node =>
      let below := addTokens dynamicAlgo useBatch window rest node.2
      (nodes.set token (bump node.1 useBatch) below.1, below.2)

/-- The key of the frequencies. -/
def batchKey (pattern : Pattern) (useBatch : Nat) : Int :=
  match pattern with
  | .output => -1
  | .input => useBatch

def addNode (dynamicAlgo : Bool) (nextTokenIds : List Int) (pattern : Pattern) (useBatch : Nat)
    (t : Tree) : Tree :=
  let added :=
    addTokens dynamicAlgo (batchKey pattern useBatch) nextTokenIds nextTokenIds t.treeNodes
  { t with
    treeNodes := added.1
    n := t.n + added.2
    nOutput := t.nOutput + if pattern = .output then added.2 else 0 }

/-! ## Trims -/

/-- `freqs_dict[-1] *= 0.5` -/
def halve (freqs : Freqs) : Freqs := fun b => if b = -1 then freqs b * (1 / 2) else freqs b

def trimRecursive : TreeNodes → TreeNodes
  | .nil => .nil
  | .cons token freqs next rest =>
    if 1 < freqs (-1) then
      .cons token (halve freqs) (trimRecursive next) (trimRecursive rest)
    else trimRecursive rest

/-- `estimate` -/
def estimate : TreeNodes → Nat
  | .nil => 0
  | .cons _ _ next rest => 1 + estimate next + estimate rest

def trim (t : Tree) : Tree :=
  if t.maxSize < t.n ∨ t.maxOutputSize < t.nOutput then
    { t with
      treeNodes := trimRecursive t.treeNodes
      n := estimate (trimRecursive t.treeNodes)
      nOutput := estimate (trimRecursive t.treeNodes) }
  else t

/-! ## The frequencies of a prompt -/

/-- `temp_freqs[use_batch] = 0.0` -/
def reset (freqs : Freqs) (useBatch : Int) : Freqs :=
  fun b => if b = useBatch then 0 else freqs b

/-- `_clear_input` -/
def clearNodes (useBatch : Int) : TreeNodes → TreeNodes
  | .nil => .nil
  | .cons token freqs next rest =>
    if freqs useBatch = 0 then .cons token freqs next (clearNodes useBatch rest)
    else
      .cons token (reset freqs useBatch) (clearNodes useBatch next) (clearNodes useBatch rest)

def clearInput (useBatch : Nat) (t : Tree) : Tree :=
  { t with treeNodes := clearNodes useBatch t.treeNodes }

/-! ## Drafts -/

/-- The walk along the tokens that precede the draft. A node whose frequencies do not match ends
it, and so does a token that is missing. -/
def matchTokens (useBatch : Int) : List Int → Option Int → TreeNodes → TreeNodes × Option Int
  | [], matched, nodes => (nodes, matched)
  | token :: rest, _, nodes =>
    match nodes.get token with
    | none => (.nil, some token)
    | some node =>
      matchTokens useBatch rest (some token)
        (if 0 < node.1 useBatch ∨ 0 < node.1 (-1) then node.2 else .nil)

/-- The first node of the greatest frequency, among those that are given and the best so far. -/
def bestNode (useBatch : Int) : TreeNodes → Option (Int × TreeNodes) → Rat →
    Option (Int × TreeNodes)
  | .nil, best, _ => best
  | .cons token freqs next rest, best, maxFreq =>
    if (0 < freqs useBatch ∨ 0 < freqs (-1)) ∧ maxFreq < freqs (-1) + freqs useBatch then
      bestNode useBatch rest (some (token, next)) (freqs (-1) + freqs useBatch)
    else bestNode useBatch rest best maxFreq

def searchNodes (useBatch : Int) : Nat → TreeNodes → List Int
  | 0, _ => []
  | size + 1, nodes =>
    match bestNode useBatch nodes none 0 with
    | none => []
    | some best => best.1 :: searchNodes useBatch size best.2

/-- `match_token_id or start_token_id` -/
def matchedOr (startTokenId : Int) : Option Int → Int
  | none => startTokenId
  | some token => if token = 0 then startTokenId else token

def searchOneDraft (preTokenIds : List Int) (maxSize useBatch : Nat) (t : Tree) : Draft :=
  match matchTokens useBatch preTokenIds none t.treeNodes with
  | (.nil, _) =>
    { ids := [preTokenIds.getLast?.getD t.startTokenId]
      size := 0 }
  | (nodes, matched) =>
    { ids := matchedOr t.startTokenId matched :: searchNodes useBatch maxSize nodes
      size := (searchNodes useBatch maxSize nodes).length }

/-! ## Traces of a cache id -/

variable {b useBatch : Int} {nodes next : TreeNodes} {freqs : Freqs} {dynamicAlgo : Bool}
  {window tokens : List Int} {token : Int} {v : Freqs}

/-- No node has a frequency under the cache id. -/
def Untouched (b : Int) : TreeNodes → Prop := Forest.Holds fun freqs _ => freqs b = 0

/-- What is below a node without a frequency under the cache id has none either. -/
def Supported (b : Int) : TreeNodes → Prop :=
  Forest.Holds fun freqs next => 0 ≤ freqs b ∧ (freqs b = 0 → Untouched b next)

theorem once_of_ne (h : b ≠ useBatch) : once useBatch b = 0 := if_neg h

theorem bump_of_ne (h : b ≠ useBatch) : bump freqs useBatch b = freqs b := if_neg h

theorem halve_of_ne (h : b ≠ -1) : halve freqs b = freqs b := if_neg h

theorem reset_self : reset freqs b b = 0 := if_pos rfl

theorem reset_of_ne (h : b ≠ useBatch) : reset freqs useBatch b = freqs b := if_neg h

theorem reset_eq_zero (h : freqs b = 0) : reset freqs useBatch b = 0 := by
  unfold reset
  split
  · rfl
  · exact h

theorem once_nonneg : 0 ≤ once useBatch b := by
  unfold once
  split <;> norm_num

theorem bump_nonneg (h : 0 ≤ freqs b) : 0 ≤ bump freqs useBatch b := by
  unfold bump
  split <;> linarith

theorem untouched_chain (h : b ≠ useBatch) : Untouched b (chain useBatch tokens) := by
  induction tokens with
  | nil => trivial
  | cons token rest ih => exact ⟨once_of_ne h, ih, trivial⟩

theorem untouched_insertChain (h : b ≠ useBatch) (hnodes : Untouched b nodes) :
    Untouched b (insertChain useBatch tokens nodes) := by
  cases tokens with
  | nil => exact hnodes
  | cons token rest => exact Forest.Holds.set hnodes (once_of_ne h) (untouched_chain h)

/-- Windows that are put in for one cache id leave no trace of another. -/
theorem untouched_addTokens (h : b ≠ useBatch) (hnodes : Untouched b nodes) :
    Untouched b (addTokens dynamicAlgo useBatch window tokens nodes).1 := by
  induction tokens generalizing nodes with
  | nil => exact hnodes
  | cons token rest ih =>
    unfold addTokens
    split
    · exact untouched_insertChain h hnodes
    · next node hget =>
      have hnode := Forest.Holds.get hnodes hget
      exact Forest.Holds.set hnodes ((bump_of_ne h).trans hnode.1) (ih hnode.2)

theorem supported_chain : Supported b (chain useBatch tokens) := by
  induction tokens with
  | nil => trivial
  | cons token rest ih =>
    refine ⟨⟨once_nonneg, fun hzero => untouched_chain fun heq => ?_⟩, ih, trivial⟩
    rw [heq, once, if_pos rfl] at hzero
    norm_num at hzero

theorem supported_insertChain (hnodes : Supported b nodes) :
    Supported b (insertChain useBatch tokens nodes) := by
  cases tokens with
  | nil => exact hnodes
  | cons token rest =>
    have hchain : Supported b (chain useBatch (token :: rest)) := supported_chain
    exact Forest.Holds.set hnodes hchain.1 hchain.2.1

theorem supported_addTokens (hnodes : Supported b nodes) :
    Supported b (addTokens dynamicAlgo useBatch window tokens nodes).1 := by
  induction tokens generalizing nodes with
  | nil => exact hnodes
  | cons token rest ih =>
    unfold addTokens
    split
    · exact supported_insertChain hnodes
    · next node hget =>
      obtain ⟨⟨hnonneg, hbelow⟩, hnode⟩ := Forest.Holds.get hnodes hget
      refine Forest.Holds.set hnodes ⟨bump_nonneg hnonneg, fun hzero => ?_⟩ (ih hnode)
      -- a node that the window has passed has a frequency
      by_cases hb : b = useBatch
      · rw [hb] at hnonneg hzero
        rw [bump, if_pos rfl] at hzero
        linarith
      · rw [bump_of_ne hb] at hzero
        exact untouched_addTokens hb (hbelow hzero)

theorem untouched_clearNodes_of_untouched (hnodes : Untouched b nodes) :
    Untouched b (clearNodes useBatch nodes) := by
  induction nodes with
  | nil => trivial
  | cons token freqs next rest ihn ihr =>
    unfold clearNodes
    split
    · exact ⟨hnodes.1, hnodes.2.1, ihr hnodes.2.2⟩
    · exact ⟨reset_eq_zero hnodes.1, ihn hnodes.2.1, ihr hnodes.2.2⟩

/-- The walk need not go below a node that has no frequency. -/
theorem untouched_clearNodes (hnodes : Supported b nodes) : Untouched b (clearNodes b nodes) := by
  induction nodes with
  | nil => trivial
  | cons token freqs next rest ihn ihr =>
    obtain ⟨⟨-, hbelow⟩, hnext, hrest⟩ := hnodes
    unfold clearNodes
    split
    · next hzero => exact ⟨hzero, hbelow hzero, ihr hrest⟩
    · exact ⟨reset_self, ihn hnext, ihr hrest⟩

theorem supported_clearNodes (hnodes : Supported b nodes) :
    Supported b (clearNodes useBatch nodes) := by
  induction nodes with
  | nil => trivial
  | cons token freqs next rest ihn ihr =>
    obtain ⟨⟨hnonneg, hbelow⟩, hnext, hrest⟩ := hnodes
    unfold clearNodes
    split
    · exact ⟨⟨hnonneg, hbelow⟩, hnext, ihr hrest⟩
    · by_cases hb : b = useBatch
      · subst hb
        exact ⟨⟨reset_self.ge, fun _ => untouched_clearNodes hnext⟩, ihn hnext, ihr hrest⟩
      · refine ⟨⟨hnonneg.trans_eq (reset_of_ne hb).symm, fun hzero => ?_⟩, ihn hnext, ihr hrest⟩
        exact untouched_clearNodes_of_untouched (hbelow ((reset_of_ne hb).symm.trans hzero))

/-! ## Nodes -/

theorem distinct_chain (b : Int) (tokens : List Int) : (chain b tokens).Distinct := by
  induction tokens with
  | nil => trivial
  | cons token rest ih => exact ⟨rfl, ih, trivial⟩

theorem distinct_insertChain (h : nodes.Distinct) : (insertChain b tokens nodes).Distinct := by
  cases tokens with
  | nil => exact h
  | cons token rest => exact h.set (distinct_chain b rest)

theorem distinct_addTokens (h : nodes.Distinct) :
    (addTokens dynamicAlgo b window tokens nodes).1.Distinct := by
  induction tokens generalizing nodes with
  | nil => exact h
  | cons token rest ih =>
    unfold addTokens
    split
    · exact distinct_insertChain h
    · next node hget => exact h.set (ih (h.get hget))

theorem get_clearNodes : (clearNodes b nodes).get token = (nodes.get token).map fun node =>
    if node.1 b = 0 then node else (reset node.1 b, clearNodes b node.2) := by
  induction nodes with
  | nil => rfl
  | cons key freqs next rest _ ih =>
    rw [clearNodes]
    by_cases hkey : key = token
    · subst hkey
      rw [Forest.get_cons_self, Option.map_some]
      split <;> exact Forest.get_cons_self
    · rw [Forest.get_cons_of_ne hkey, ← ih]
      split <;> exact Forest.get_cons_of_ne hkey

theorem distinct_clearNodes (h : nodes.Distinct) : (clearNodes b nodes).Distinct := by
  induction nodes with
  | nil => trivial
  | cons token freqs next rest ihn ihr =>
    have hnone : (clearNodes b rest).get token = none := by
      rw [get_clearNodes, h.1, Option.map_none]
    unfold clearNodes
    split
    · exact ⟨hnone, h.2.1, ihr h.2.2⟩
    · exact ⟨hnone, ihn h.2.1, ihr h.2.2⟩

theorem get_trimRecursive (h : nodes.Distinct) :
    (trimRecursive nodes).get token = (nodes.get token).bind fun node =>
      if 1 < node.1 (-1) then some (halve node.1, trimRecursive node.2) else none := by
  induction nodes with
  | nil => rfl
  | cons key freqs next rest _ ih =>
    rw [trimRecursive]
    by_cases hkey : key = token
    · subst hkey
      rw [Forest.get_cons_self, Option.bind_some]
      split
      · exact Forest.get_cons_self
      · rw [ih h.2.2, h.1, Option.bind_none]
    · rw [Forest.get_cons_of_ne hkey, ← ih h.2.2]
      split
      · exact Forest.get_cons_of_ne hkey
      · rfl

theorem distinct_trimRecursive (h : nodes.Distinct) : (trimRecursive nodes).Distinct := by
  induction nodes with
  | nil => trivial
  | cons token freqs next rest ihn ihr =>
    unfold trimRecursive
    split
    · refine ⟨?_, ihn h.2.1, ihr h.2.2⟩
      rw [get_trimRecursive h.2.2, h.1, Option.bind_none]
    · exact ihr h.2.2

theorem estimate_eq_size : estimate nodes = nodes.size := by
  induction nodes with
  | nil => rfl
  | cons token freqs next rest ihn ihr => rw [estimate, Forest.size, ihn, ihr]

end Tree

end MindieLLM
