import MindieLLM.Program.Reaches
import MindieLLM.Program.Rounding
import MindieLLM.Speculative.Tree

/-!
# The prefix tree of the native library

The tree of a token has a second implementation, which an environment switch selects. It keeps the
nodes in the order of their tokens, erases frequencies that are cleared, and adds them up as numbers
without a fraction.

## Main definitions

* `PrefixTree`: the tree, with `put`, `resetInputFreq`, `trim` and `getOneDraft`
* `PrefixTree.step`: an operation on both trees
* `PrefixTree.Interchangeable`: both have answered the same, and count as many nodes
* `PrefixTree.Fits`: an operation that the two carry out alike

## Main results

* `PrefixTree.interchangeable_of_reaches`: the trees are interchangeable in runs of such operations
* `PrefixTree.not_interchangeable`: an answer about a tree without nodes
-/

namespace MindieLLM

open Program MindieLLM.Tree

/-- `freqs` -/
abbrev FreqMap := Int → Option Rat

/-- `children` -/
abbrev Nodes := Forest Int FreqMap

structure PrefixTree where
  rootTokenId : Int
  maxNode : Nat := 65536
  maxOutputNode : Nat := 512
  nNode : Nat := 0
  nOutputNode : Nat := 0
  fullNodes : Nodes := .nil

namespace PrefixTree

/-! ## Numbers -/

/-- The value of type `float`. -/
def toFloat (x : Rat) : Rat := roundDigits 24 x

/-- The conversion to `int` cuts off the fraction. -/
def toInt (x : Rat) : Int := x.num.tdiv x.den

def maxFreq : Rat := 10 ^ 9

/-! ## Windows that are put in -/

/-- `AddNodeFreq` -/
def addNodeFreq (freqs : FreqMap) (batchId : Int) : FreqMap :=
  fun b =>
    if b = batchId then
      match freqs b with
      | none => some 1
      | some freq => some (if freq < maxFreq then toFloat (freq + 1) else freq)
    else freqs b

/-- `freqs[batchId] = DEFAULT_FREQ` -/
def defaultFreq (batchId : Int) : FreqMap := fun b => if b = batchId then some 1 else none

/-- `Pack`, into a map that does not have the first of the tokens. -/
def pack (batchId : Int) : List Int → Nodes → Nodes
  | [], nodes => nodes
  | currentToken :: rest, nodes =>
    nodes.insert currentToken (defaultFreq batchId) (pack batchId rest .nil)

/-- `AddNode`, and the number of new nodes. -/
def addNode (batchId : Int) : List Int → Nodes → Nodes × Nat
  | [], nodes => (nodes, 0)
  | currentToken :: rest, nodes =>
    match nodes.get currentToken with
    | none => (pack batchId (currentToken :: rest) nodes, rest.length + 1)
    | some node =>
      let below := addNode batchId rest node.2
      (nodes.set currentToken (addNodeFreq node.1 batchId) below.1, below.2)

def put (tokenIds : List Int) (mode : Pattern) (batchId : Nat) (t : PrefixTree) : PrefixTree :=
  let added := addNode (batchKey mode batchId) tokenIds t.fullNodes
  { t with
    fullNodes := added.1
    nNode := t.nNode + added.2
    nOutputNode := t.nOutputNode + if mode = .output then added.2 else 0 }

/-! ## Clears and trims -/

def eraseFreq (freqs : FreqMap) (batchId : Int) : FreqMap :=
  fun b => if b = batchId then none else freqs b

/-- `ClearInput` -/
def clearInput (batchId : Int) : Nodes → Nodes
  | .nil => .nil
  | .cons token freqs children rest =>
    if freqs batchId = none then .cons token freqs children (clearInput batchId rest)
    else
      .cons token (eraseFreq freqs batchId) (clearInput batchId children) (clearInput batchId rest)

def resetInputFreq (batchId : Nat) (t : PrefixTree) : PrefixTree :=
  { t with fullNodes := clearInput batchId t.fullNodes }

/-- `freqs[-1] *= FREQ_HALF` -/
def halveFreq (freqs : FreqMap) : FreqMap :=
  fun b => if b = -1 then (freqs b).map fun freq => freq * (1 / 2) else freqs b

/-- `TrimNode` -/
def trimNode : Nodes → Nodes
  | .nil => .nil
  | .cons token freqs children rest =>
    let outputFreq := (freqs (-1)).getD 0
    if 1 < outputFreq then .cons token (halveFreq freqs) (trimNode children) (trimNode rest)
    else trimNode rest

/-- `CountNode` -/
def countNode (nodes : Nodes) : Nat := nodes.size

def trim (t : PrefixTree) : PrefixTree :=
  if t.maxNode < t.nNode ∨ t.maxOutputNode < t.nOutputNode then
    { t with
      fullNodes := trimNode t.fullNodes
      nNode := countNode (trimNode t.fullNodes)
      nOutputNode := countNode (trimNode t.fullNodes) }
  else t

/-! ## Drafts -/

/-- The walk along the suffix. A node whose frequencies do not match is passed over. -/
def matchNodes (batchId : Int) : List Int → Int → Nodes → Nodes × Int
  | [], matchTokenId, nodes => (nodes, matchTokenId)
  | tokenId :: rest, matchTokenId, nodes =>
    match nodes.get tokenId with
    | none => (.nil, matchTokenId)
    | some node =>
      matchNodes batchId rest tokenId
        (if node.1 batchId ≠ none ∨ node.1 (-1) ≠ none then node.2 else nodes)

/-- `tempFreq += freqs[batchId]`, if it is there. -/
def addFreq (tempFreq : Int) : Option Rat → Int
  | none => tempFreq
  | some freq => toInt (toFloat (tempFreq + freq))

/-- `tempFreq` of a node. -/
def score (batchId : Int) (freqs : FreqMap) : Int :=
  addFreq (addFreq 0 (freqs batchId)) (freqs (-1))

/-- `SearchBestDraft` -/
def searchBestDraft (batchId : Int) : Nat → Nodes → List Int
  | 0, _ => []
  | decodingLength + 1, nodes =>
    match nodes.argmax (score batchId) none 0 with
    | none => []
    | some best => best.1 :: searchBestDraft batchId decodingLength best.2

def getOneDraft (tokenIds : List Int) (batchId decodingLength : Nat) (t : PrefixTree) : Draft :=
  match matchNodes batchId tokenIds (-1) t.fullNodes with
  | (.nil, _) =>
    { ids := [tokenIds.getLast?.getD t.rootTokenId]
      size := 1 }
  | (nodes, matchTokenId) =>
    { ids :=
        (if matchTokenId = -1 then t.rootTokenId else matchTokenId) ::
          searchBestDraft batchId decodingLength nodes
      size := (searchBestDraft batchId decodingLength nodes).length }

/-! ## Both trees -/

inductive Op
  | put (tokenIds : List Int) (pattern : Pattern) (useBatch : Nat)
  | clearInput (useBatch : Nat)
  | trim
  | lookUp (tokenIds : List Int) (useBatch maxSize : Nat)
  deriving DecidableEq

/-- The two trees, and what they have answered. -/
structure Pair where
  tree : Tree
  prefixTree : PrefixTree
  answers : List (Draft × Draft) := []

/-- Trees of one token, and of the same capacities. -/
def init (startTokenId : Int) (maxSize maxOutputSize : Nat) : Pair where
  tree :=
    { startTokenId := startTokenId
      maxSize := maxSize
      maxOutputSize := maxOutputSize }
  prefixTree :=
    { rootTokenId := startTokenId
      maxNode := maxSize
      maxOutputNode := maxOutputSize }

def step (dynamicAlgo : Bool) (s : Pair) : Op → Option Pair
  | .put tokenIds pattern useBatch =>
    some
      { s with
        tree := s.tree.addNode dynamicAlgo tokenIds pattern useBatch
        prefixTree := s.prefixTree.put tokenIds pattern useBatch }
  | .clearInput useBatch =>
    some
      { s with
        tree := s.tree.clearInput useBatch
        prefixTree := s.prefixTree.resetInputFreq useBatch }
  | .trim =>
    some
      { s with
        tree := s.tree.trim
        prefixTree := s.prefixTree.trim }
  | .lookUp tokenIds useBatch maxSize =>
    some
      { s with
        answers := s.answers ++
          [(s.tree.searchOneDraft tokenIds maxSize useBatch,
            s.prefixTree.getOneDraft tokenIds useBatch maxSize)] }

/-- The answers are the same, and so are the numbers of nodes. -/
structure Interchangeable (s : Pair) : Prop where
  answers : ∀ a ∈ s.answers, a.1 = a.2
  n : s.tree.n = s.prefixTree.nNode
  nOutput : s.tree.nOutput = s.prefixTree.nOutputNode

/-! ## What the two carry out alike -/

/-- A window is put in at once where it is not there at all; frequencies on its way are below the
greatest one, and one more is a number of type `float`. -/
def PutFits (dynamicAlgo : Bool) (useBatch : Int) (window : List Int) :
    List Int → TreeNodes → Prop
  | [], _ => True
  | token :: rest, nodes =>
    match nodes.get token with
    | none => dynamicAlgo = true ∨ window = token :: rest
    | some node =>
      node.1 useBatch < maxFreq ∧ toFloat (node.1 useBatch + 1) = node.1 useBatch + 1 ∧
        PutFits dynamicAlgo useBatch window rest node.2

/-- The nodes behind a suffix, each node of which is there and matches. -/
def follow (useBatch : Int) : List Int → TreeNodes → Option TreeNodes
  | [], nodes => some nodes
  | token :: rest, nodes =>
    match nodes.get token with
    | none => none
    | some node =>
      if 0 < node.1 useBatch ∨ 0 < node.1 (-1) then follow useBatch rest node.2 else none

/-- The frequencies of a node are whole numbers, of which the sum is exact. -/
def Whole (useBatch : Int) (freqs : Freqs) : Prop :=
  ∃ inFreq outFreq : Nat, freqs useBatch = inFreq ∧ freqs (-1) = outFreq ∧
    inFreq + outFreq < 2 ^ 24

def total (useBatch : Int) (freqs : Freqs) : Rat := freqs (-1) + freqs useBatch

/-- The search finds at each level whole frequencies, and no two nodes of the greatest. -/
def Unambiguous (useBatch : Int) : Nat → TreeNodes → Prop
  | 0, _ => True
  | size + 1, nodes =>
    (∀ token freqs next, nodes.get token = some (freqs, next) → Whole useBatch freqs) ∧
      ((∀ token freqs next, nodes.get token = some (freqs, next) → total useBatch freqs ≤ 0) ∨
        ∃ best freqs next, nodes.get best = some (freqs, next) ∧ 0 < total useBatch freqs ∧
          (∀ token freqs' next', best ≠ token → nodes.get token = some (freqs', next') →
            total useBatch freqs' < total useBatch freqs) ∧
          Unambiguous useBatch size next)

/-- There are nodes behind the suffix, of which the last token is not taken for none. -/
structure LookUpFits (tokenIds : List Int) (useBatch : Int) (maxSize : Nat) (t : Tree) : Prop where
  matched : ∃ nodes, follow useBatch tokenIds t.treeNodes = some nodes ∧ nodes ≠ .nil ∧
    Unambiguous useBatch maxSize nodes
  last : ∀ token ∈ tokenIds.getLast?, token = 0 ∨ token = -1 → token = t.startTokenId

def Fits (dynamicAlgo : Bool) (s : Pair) : Op → Prop
  | .put tokenIds pattern useBatch =>
    PutFits dynamicAlgo (batchKey pattern useBatch) tokenIds tokenIds s.tree.treeNodes
  | .lookUp tokenIds useBatch maxSize => LookUpFits tokenIds useBatch maxSize s.tree
  | _ => True

variable {dynamicAlgo : Bool} {b useBatch : Int} {window tokens : List Int} {nodes : TreeNodes}
  {nodes' : Nodes} {freqs : Freqs} {freqs' : FreqMap} {token : Int}

/-! ## Frequencies -/

/-- A frequency that is not there is 0, and all others are positive. -/
structure Same (freqs : Freqs) (freqs' : FreqMap) : Prop where
  getD : ∀ b, freqs b = (freqs' b).getD 0
  pos : ∀ b freq, freqs' b = some freq → 0 < freq

namespace Same

theorem eq_zero_iff (h : Same freqs freqs') : freqs b = 0 ↔ freqs' b = none := by
  rw [h.getD]
  cases hfreq : freqs' b with
  | none => exact iff_of_true rfl rfl
  | some freq => exact iff_of_false (h.pos b freq hfreq).ne' nofun

theorem pos_iff (h : Same freqs freqs') : 0 < freqs b ↔ freqs' b ≠ none := by
  rw [h.getD]
  cases hfreq : freqs' b with
  | none => exact iff_of_false (lt_irrefl 0) (fun hne => hne rfl)
  | some freq => exact iff_of_true (h.pos b freq hfreq) nofun

/-- A change of one frequency. -/
theorem update (h : Same freqs freqs') {v : Freqs} {w : FreqMap} (hv : ∀ a, a ≠ b → v a = freqs a)
    (hw : ∀ a, a ≠ b → w a = freqs' a) (hb : v b = (w b).getD 0)
    (hpos : ∀ freq, w b = some freq → 0 < freq) : Same v w where
  getD a := by
    by_cases ha : a = b
    · rw [ha, hb]
    · rw [hv a ha, hw a ha, h.getD]
  pos a freq hfreq := by
    by_cases ha : a = b
    · exact hpos freq (ha ▸ hfreq)
    · exact h.pos a freq ((hw a ha).symm.trans hfreq)

theorem once (b : Int) : Same (Tree.once b) (defaultFreq b) where
  getD a := by
    unfold Tree.once defaultFreq
    split <;> rfl
  pos a freq hfreq := by
    unfold defaultFreq at hfreq
    split at hfreq
    · cases hfreq
      exact one_pos
    · cases hfreq

theorem bump (h : Same freqs freqs') (hmax : freqs b < maxFreq)
    (hexact : toFloat (freqs b + 1) = freqs b + 1) :
    Same (Tree.bump freqs b) (addNodeFreq freqs' b) := by
  have hnonneg : 0 ≤ freqs b := by
    rw [h.getD]
    cases hfreq : freqs' b with
    | none => exact le_rfl
    | some freq => exact (h.pos b freq hfreq).le
  have hone : addNodeFreq freqs' b b = some (freqs b + 1) := by
    rw [addNodeFreq, if_pos rfl]
    cases hfreq : freqs' b with
    | none => rw [h.eq_zero_iff.mpr hfreq, zero_add]
    | some freq =>
      have heq : freqs b = freq := by rw [h.getD, hfreq, Option.getD_some]
      rw [heq] at hmax hexact ⊢
      simp only
      rw [if_pos hmax, hexact]
  refine h.update (b := b) (fun a ha => bump_of_ne ha) (fun a ha => if_neg ha) ?_
    fun freq hfreq => ?_
  · rw [hone, Option.getD_some, Tree.bump, if_pos rfl]
  · rw [hone] at hfreq
    cases hfreq
    linarith

theorem reset (h : Same freqs freqs') (b : Int) :
    Same (Tree.reset freqs b) (eraseFreq freqs' b) := by
  have hnone : eraseFreq freqs' b b = none := if_pos rfl
  refine h.update (b := b) (fun a ha => reset_of_ne ha) (fun a ha => if_neg ha) ?_
    fun freq hfreq => ?_
  · rw [hnone, reset_self, Option.getD_none]
  · rw [hnone] at hfreq
    cases hfreq

theorem halve (h : Same freqs freqs') : Same (Tree.halve freqs) (halveFreq freqs') := by
  have hone : halveFreq freqs' (-1) = (freqs' (-1)).map fun freq => freq * (1 / 2) := if_pos rfl
  refine h.update (b := -1) (fun a ha => halve_of_ne ha) (fun a ha => if_neg ha) ?_
    fun freq hfreq => ?_
  · rw [hone, Tree.halve, if_pos rfl, h.getD]
    cases freqs' (-1) with
    | none => exact zero_mul _
    | some freq => rfl
  · rw [hone] at hfreq
    obtain ⟨freq', hfreq', rfl⟩ := Option.map_eq_some_iff.mp hfreq
    have hpos := h.pos _ _ hfreq'
    linarith

end Same

/-! ## Windows -/

theorem alike_pack (b : Int) (tokens : List Int) :
    Forest.Alike Same (chain b tokens) (pack b tokens .nil) := by
  induction tokens with
  | nil => exact .nil
  | cons token rest ih =>
    exact Forest.Alike.nil.put (Same.once b) ih Forest.get_cons_self (Forest.get_insert_self rfl)
      (fun l hl => Forest.get_cons_of_ne hl) (fun l hl => Forest.get_insert_of_ne hl)

/-- A window is put into both. -/
theorem alike_addNode (h : Forest.Alike Same nodes nodes')
    (hfits : PutFits dynamicAlgo b window tokens nodes) :
    Forest.Alike Same (addTokens dynamicAlgo b window tokens nodes).1 (addNode b tokens nodes').1 ∧
      (addTokens dynamicAlgo b window tokens nodes).2 = (addNode b tokens nodes').2 := by
  induction tokens generalizing nodes nodes' with
  | nil => exact ⟨h, rfl⟩
  | cons token rest ih =>
    unfold PutFits at hfits
    unfold addTokens addNode
    rcases h.entries token with ⟨hget, hget'⟩ | ⟨v, c, u, d, hget, hget', hvu, hcd⟩
    · rw [hget] at hfits
      rw [hget, hget']
      -- what remains of the window is all of it, if all of it is put in
      have htail : (if dynamicAlgo then token :: rest else window) = token :: rest := by
        split
        · rfl
        · next hnot => exact hfits.resolve_left hnot
      simp only [htail]
      exact ⟨h.put (Same.once b) (alike_pack b rest) Forest.get_set_self
        (Forest.get_insert_self hget') (fun l hl => Forest.get_set_of_ne hl)
        (fun l hl => Forest.get_insert_of_ne hl), rfl⟩
    · rw [hget] at hfits
      rw [hget, hget']
      obtain ⟨hmax, hexact, hrest⟩ := hfits
      obtain ⟨hbelow, hcount⟩ := ih hcd hrest
      exact ⟨h.put (hvu.bump hmax hexact) hbelow Forest.get_set_self Forest.get_set_self
        (fun l hl => Forest.get_set_of_ne hl) (fun l hl => Forest.get_set_of_ne hl), hcount⟩

theorem distinct_pack (b : Int) (h : nodes'.Distinct)
    (hnew : ∀ token ∈ tokens.head?, nodes'.get token = none) : (pack b tokens nodes').Distinct := by
  induction tokens generalizing nodes' with
  | nil => exact h
  | cons token rest ih =>
    have hrest : (pack b rest .nil).Distinct := ih trivial fun _ _ => rfl
    exact h.insert (hnew token rfl) hrest

theorem distinct_addNode (h : nodes'.Distinct) : (addNode b tokens nodes').1.Distinct := by
  induction tokens generalizing nodes' with
  | nil => exact h
  | cons token rest ih =>
    unfold addNode
    split
    · next hget =>
      refine distinct_pack b h fun t ht => ?_
      cases ht
      exact hget
    · next node hget => exact h.set (ih (h.get hget))

/-! ## Clears -/

theorem get_clearInput : (clearInput b nodes').get token = (nodes'.get token).map fun node =>
    if node.1 b = none then node else (eraseFreq node.1 b, clearInput b node.2) := by
  induction nodes' with
  | nil => rfl
  | cons key freqs children rest _ ih =>
    rw [clearInput]
    by_cases hkey : key = token
    · subst hkey
      rw [Forest.get_cons_self, Option.map_some]
      split <;> exact Forest.get_cons_self
    · rw [Forest.get_cons_of_ne hkey, ← ih]
      split <;> exact Forest.get_cons_of_ne hkey

/-- A frequency is cleared in both. -/
theorem alike_clear (h : Forest.Alike Same nodes nodes') (b : Int) :
    Forest.Alike Same (clearNodes b nodes) (clearInput b nodes') := by
  refine .of_bisim (S := fun f g => Forest.Alike Same f g ∨ ∃ nodes nodes',
    Forest.Alike Same nodes nodes' ∧ f = clearNodes b nodes ∧ g = clearInput b nodes') ?_
    (.inr ⟨nodes, nodes', h, rfl, rfl⟩)
  rintro f g (halike | ⟨nodes, nodes', halike, rfl, rfl⟩) token
  · rcases halike.entries token with hnone | ⟨v, c, u, d, hf, hg, hvu, hcd⟩
    · exact .inl hnone
    · exact .inr ⟨v, c, u, d, hf, hg, hvu, .inl hcd⟩
  · rw [get_clearNodes, get_clearInput]
    rcases halike.entries token with ⟨hf, hg⟩ | ⟨v, c, u, d, hf, hg, hvu, hcd⟩
    · rw [hf, hg]
      exact .inl ⟨rfl, rfl⟩
    · rw [hf, hg, Option.map_some, Option.map_some]
      by_cases hzero : v b = 0
      · rw [if_pos hzero, if_pos (hvu.eq_zero_iff.mp hzero)]
        exact .inr ⟨v, c, u, d, rfl, rfl, hvu, .inl hcd⟩
      · rw [if_neg hzero, if_neg fun hnone => hzero (hvu.eq_zero_iff.mpr hnone)]
        exact .inr ⟨_, _, _, _, rfl, rfl, hvu.reset b, .inr ⟨c, d, hcd, rfl, rfl⟩⟩

theorem distinct_clearInput (h : nodes'.Distinct) : (clearInput b nodes').Distinct := by
  induction nodes' with
  | nil => trivial
  | cons token freqs children rest ihn ihr =>
    have hnone : (clearInput b rest).get token = none := by
      rw [get_clearInput, h.1, Option.map_none]
    unfold clearInput
    split
    · exact ⟨hnone, h.2.1, ihr h.2.2⟩
    · exact ⟨hnone, ihn h.2.1, ihr h.2.2⟩

/-! ## Trims -/

theorem get_trimNode (h : nodes'.Distinct) :
    (trimNode nodes').get token = (nodes'.get token).bind fun node =>
      if 1 < (node.1 (-1)).getD 0 then some (halveFreq node.1, trimNode node.2) else none := by
  induction nodes' with
  | nil => rfl
  | cons key freqs children rest _ ih =>
    rw [trimNode]
    by_cases hkey : key = token
    · subst hkey
      rw [Forest.get_cons_self, Option.bind_some]
      split
      · exact Forest.get_cons_self
      · rw [ih h.2.2, h.1, Option.bind_none]
    · rw [Forest.get_cons_of_ne hkey, ← ih h.2.2]
      split
      · exact Forest.get_cons_of_ne hkey
      · rfl

/-- Both lose the same nodes. -/
theorem alike_trim (h : Forest.Alike Same nodes nodes') (hnodes : nodes.Distinct)
    (hnodes' : nodes'.Distinct) : Forest.Alike Same (trimRecursive nodes) (trimNode nodes') := by
  refine .of_bisim (S := fun f g => ∃ nodes nodes', Forest.Alike Same nodes nodes' ∧
    nodes.Distinct ∧ nodes'.Distinct ∧ f = trimRecursive nodes ∧ g = trimNode nodes') ?_
    ⟨nodes, nodes', h, hnodes, hnodes', rfl, rfl⟩
  rintro f g ⟨nodes, nodes', halike, hdistinct, hdistinct', rfl, rfl⟩ token
  rw [get_trimRecursive hdistinct, get_trimNode hdistinct']
  rcases halike.entries token with ⟨hf, hg⟩ | ⟨v, c, u, d, hf, hg, hvu, hcd⟩
  · rw [hf, hg]
    exact .inl ⟨rfl, rfl⟩
  · rw [hf, hg, Option.bind_some, Option.bind_some, ← hvu.getD]
    by_cases hone : 1 < v (-1)
    · rw [if_pos hone, if_pos hone]
      exact .inr ⟨_, _, _, _, rfl, rfl, hvu.halve, c, d, hcd, hdistinct.get hf, hdistinct'.get hg,
        rfl, rfl⟩
    · rw [if_neg hone, if_neg hone]
      exact .inl ⟨rfl, rfl⟩

theorem distinct_trimNode (h : nodes'.Distinct) : (trimNode nodes').Distinct := by
  induction nodes' with
  | nil => trivial
  | cons token freqs children rest ihn ihr =>
    rw [trimNode]
    split
    · refine ⟨?_, ihn h.2.1, ihr h.2.2⟩
      rw [get_trimNode h.2.2, h.1, Option.bind_none]
    · exact ihr h.2.2

/-! ## Drafts -/

/-- Both follow a suffix that matches. -/
theorem matchTokens_of_follow {behind : TreeNodes} (h : follow useBatch tokens nodes = some behind)
    (matched : Option Int) : matchTokens useBatch tokens matched nodes =
      (behind, tokens.getLast?.or matched) := by
  induction tokens generalizing nodes matched with
  | nil =>
    cases h
    rfl
  | cons token rest ih =>
    unfold follow at h
    unfold matchTokens
    cases hget : nodes.get token with
    | none =>
      rw [hget] at h
      cases h
    | some node =>
      rw [hget] at h
      simp only at h ⊢
      split at h
      · next hmatch =>
        rw [if_pos hmatch, ih h, List.getLast?_cons]
        cases rest.getLast? <;> rfl
      · cases h

theorem matchNodes_of_follow {behind : TreeNodes} (h : follow useBatch tokens nodes = some behind)
    (halike : Forest.Alike Same nodes nodes') (hnodes : nodes.Distinct) (hnodes' : nodes'.Distinct)
    (matched : Int) : ∃ behind',
      matchNodes useBatch tokens matched nodes' = (behind', tokens.getLast?.getD matched) ∧
        Forest.Alike Same behind behind' ∧ behind.Distinct ∧ behind'.Distinct := by
  induction tokens generalizing nodes nodes' matched with
  | nil =>
    cases h
    exact ⟨nodes', rfl, halike, hnodes, hnodes'⟩
  | cons token rest ih =>
    unfold follow at h
    unfold matchNodes
    rcases halike.entries token with ⟨hget, -⟩ | ⟨v, c, u, d, hget, hget', hvu, hcd⟩
    · rw [hget] at h
      cases h
    · rw [hget] at h
      rw [hget']
      simp only at h ⊢
      split at h
      · next hmatch =>
        rw [hvu.pos_iff, hvu.pos_iff] at hmatch
        obtain ⟨behind', hbehind, hrel⟩ := ih h hcd (hnodes.get hget) (hnodes'.get hget') token
        refine ⟨behind', ?_, hrel⟩
        rw [if_pos hmatch, hbehind, List.getLast?_cons, Option.getD_some]
      · cases h

/-- The search for the greatest frequency. -/
theorem bestNode_eq_argmax {best : Option (Int × TreeNodes)} {greatest : Rat}
    (h : 0 ≤ greatest) : bestNode useBatch nodes best greatest =
      nodes.argmax (total useBatch) best greatest := by
  induction nodes generalizing best greatest with
  | nil => rfl
  | cons token freqs next rest _ ih =>
    rw [bestNode, Forest.argmax]
    by_cases hlt : greatest < total useBatch freqs
    · have hpos : 0 < freqs useBatch ∨ 0 < freqs (-1) := by
        by_contra hnot
        rw [not_or, not_lt, not_lt] at hnot
        unfold total at hlt
        linarith
      rw [if_pos ⟨hpos, hlt⟩, if_pos hlt]
      exact ih (h.trans hlt.le)
    · rw [if_neg fun hcond => hlt hcond.2, if_neg hlt]
      exact ih h

theorem toInt_natCast (n : Nat) : toInt n = n := by
  rw [toInt, Rat.num_natCast, Rat.den_natCast]
  exact Int.tdiv_one _

theorem addFreq_eq {t k : Nat} {freq : Option Rat} (hfreq : freq.getD 0 = k)
    (h : t + k < 2 ^ 24) : addFreq t freq = (t + k : Nat) := by
  cases freq with
  | none =>
    have hzero : (0 : Rat) = k := hfreq
    obtain rfl : k = 0 := by exact_mod_cast hzero.symm
    rfl
  | some x =>
    obtain rfl : x = k := hfreq
    have hsum : ((t : Int) : Rat) + (k : Rat) = ((t + k : Nat) : Rat) := by push_cast; rfl
    rw [addFreq, hsum, toFloat, roundDigits_natCast h, toInt_natCast]

/-- Whole frequencies are added up as they are. -/
theorem score_eq (h : Same freqs freqs') (hwhole : Whole useBatch freqs) :
    ((score useBatch freqs' : Int) : Rat) = total useBatch freqs := by
  obtain ⟨inFreq, outFreq, hin, hout, hlt⟩ := hwhole
  have hinFreq : addFreq 0 (freqs' useBatch) = (inFreq : Nat) := by
    have hadd := addFreq_eq (t := 0) ((h.getD useBatch).symm.trans hin) (by omega)
    rwa [Nat.zero_add] at hadd
  rw [score, hinFreq, addFreq_eq ((h.getD (-1)).symm.trans hout) hlt, total, hin, hout]
  push_cast
  ring

/-- Both find the same tokens. -/
theorem searchNodes_eq {size : Nat} (h : Forest.Alike Same nodes nodes') (hnodes : nodes.Distinct)
    (hnodes' : nodes'.Distinct) (hclear : Unambiguous useBatch size nodes) :
    searchNodes useBatch size nodes = searchBestDraft useBatch size nodes' := by
  induction size generalizing nodes nodes' with
  | zero => rfl
  | succ size ih =>
    obtain ⟨hwhole, hbest⟩ := hclear
    -- the entries of the one are those of the other, with the same scores
    have hscore : ∀ token freqs' children, nodes'.get token = some (freqs', children) →
        ∃ freqs next, nodes.get token = some (freqs, next) ∧
          ((score useBatch freqs' : Int) : Rat) = total useBatch freqs := by
      intro token u d hget'
      rcases h.entries token with ⟨-, hnone⟩ | ⟨v, c, u', d', hget, hsome, hvu, -⟩
      · rw [hnone] at hget'
        cases hget'
      · rw [hsome] at hget'
        cases hget'
        exact ⟨v, c, hget, score_eq hvu (hwhole token v c hget)⟩
    unfold searchNodes searchBestDraft
    rw [bestNode_eq_argmax le_rfl]
    rcases hbest with hnone | ⟨best, freqs, next, hget, hpos, hothers, hnext⟩
    · have hnone' : ∀ token freqs' children, nodes'.get token = some (freqs', children) →
          score useBatch freqs' ≤ 0 := by
        intro token u d hget'
        obtain ⟨v, c, hget, heq⟩ := hscore token u d hget'
        have hle := hnone token v c hget
        rw [← heq] at hle
        exact_mod_cast hle
      rw [Forest.argmax_eq_best hnodes hnone, Forest.argmax_eq_best hnodes' hnone']
    · obtain ⟨u, d, hget', hvu, hcd⟩ := h.get hget
      have heq := score_eq hvu (hwhole best freqs next hget)
      have hpos' : 0 < score useBatch u := by
        rw [← heq] at hpos
        exact_mod_cast hpos
      have hothers' : ∀ token freqs' children, best ≠ token →
          nodes'.get token = some (freqs', children) →
            score useBatch freqs' < score useBatch u := by
        intro token u' d' hne hget'
        obtain ⟨v, c, hget, heq'⟩ := hscore token u' d' hget'
        have hlt := hothers token v c hne hget
        rw [← heq, ← heq'] at hlt
        exact_mod_cast hlt
      rw [Forest.argmax_eq_some hnodes hget hpos hothers,
        Forest.argmax_eq_some hnodes' hget' hpos' hothers']
      exact congrArg (best :: ·) (ih hcd (hnodes.get hget) (hnodes'.get hget') hnext)

/-! ## Runs -/

/-- The trees are alike, of the same token and capacities, and have answered the same. -/
structure Invariant (s : Pair) : Prop extends Interchangeable s where
  alike : Forest.Alike Same s.tree.treeNodes s.prefixTree.fullNodes
  distinct : s.tree.treeNodes.Distinct
  distinct' : s.prefixTree.fullNodes.Distinct
  startTokenId : s.tree.startTokenId = s.prefixTree.rootTokenId
  maxSize : s.tree.maxSize = s.prefixTree.maxNode
  maxOutputSize : s.tree.maxOutputSize = s.prefixTree.maxOutputNode

variable {s s' : Pair} {op : Op}

theorem Invariant.init (startTokenId : Int) (maxSize maxOutputSize : Nat) :
    Invariant (init startTokenId maxSize maxOutputSize) where
  answers _ h := by cases h
  n := rfl
  nOutput := rfl
  alike := .nil
  distinct := trivial
  distinct' := trivial
  startTokenId := rfl
  maxSize := rfl
  maxOutputSize := rfl

/-- A look-up that both answer alike. -/
theorem Invariant.lookUp (h : Invariant s) {useBatch maxSize : Nat}
    (hfits : LookUpFits tokens useBatch maxSize s.tree) :
    s.tree.searchOneDraft tokens maxSize useBatch =
      s.prefixTree.getOneDraft tokens useBatch maxSize := by
  obtain ⟨⟨behind, hfollow, hne, hclear⟩, hlast⟩ := hfits
  obtain ⟨behind', hmatch', halike, hdistinct, hdistinct'⟩ :=
    matchNodes_of_follow hfollow h.alike h.distinct h.distinct' (-1)
  have hne' : behind' ≠ .nil := fun hnil => hne (halike.eq_nil_iff.mpr hnil)
  have hsearch := searchNodes_eq halike hdistinct hdistinct' hclear
  have hhead : matchedOr s.tree.startTokenId (tokens.getLast?.or none) =
      if tokens.getLast?.getD (-1) = -1 then s.prefixTree.rootTokenId
      else tokens.getLast?.getD (-1) := by
    rw [← h.startTokenId]
    cases htoken : tokens.getLast? with
    | none => rfl
    | some token =>
      have htaken := hlast token htoken
      simp only [Option.some_or, matchedOr, Option.getD_some]
      split_ifs <;> first | rfl | omega
  unfold searchOneDraft getOneDraft
  rw [matchTokens_of_follow hfollow, hmatch']
  cases behind with
  | nil => exact absurd rfl hne
  | cons token freqs next rest =>
    cases behind' with
    | nil => exact absurd rfl hne'
    | cons token' freqs' children rest' =>
      change Draft.mk _ _ = Draft.mk _ _
      rw [hhead, hsearch]

theorem Invariant.put (h : Invariant s) {useBatch : Nat} {pattern : Pattern}
    (hfits : PutFits dynamicAlgo (batchKey pattern useBatch) tokens tokens s.tree.treeNodes) :
    Invariant
      { s with
        tree := s.tree.addNode dynamicAlgo tokens pattern useBatch
        prefixTree := s.prefixTree.put tokens pattern useBatch } := by
  obtain ⟨halike, hcount⟩ := alike_addNode h.alike hfits
  refine ⟨⟨h.answers, ?_, ?_⟩, halike, distinct_addTokens h.distinct, distinct_addNode h.distinct',
    h.startTokenId, h.maxSize, h.maxOutputSize⟩
  · exact congrArg₂ (· + ·) h.n hcount
  · refine congrArg₂ (· + ·) h.nOutput ?_
    rw [hcount]

theorem Invariant.trim (h : Invariant s) :
    Invariant
      { s with
        tree := s.tree.trim
        prefixTree := s.prefixTree.trim } := by
  have hguard : (s.tree.maxSize < s.tree.n ∨ s.tree.maxOutputSize < s.tree.nOutput) ↔
      (s.prefixTree.maxNode < s.prefixTree.nNode ∨
        s.prefixTree.maxOutputNode < s.prefixTree.nOutputNode) := by
    rw [h.maxSize, h.maxOutputSize, h.n, h.nOutput]
  unfold Tree.trim PrefixTree.trim
  by_cases hfull : s.tree.maxSize < s.tree.n ∨ s.tree.maxOutputSize < s.tree.nOutput
  · rw [if_pos hfull, if_pos (hguard.mp hfull)]
    have halike := alike_trim h.alike h.distinct h.distinct'
    have hdistinct := distinct_trimRecursive h.distinct
    have hdistinct' := distinct_trimNode h.distinct'
    have hcount : estimate (trimRecursive s.tree.treeNodes) =
        countNode (trimNode s.prefixTree.fullNodes) := by
      rw [estimate_eq_size, countNode]
      exact halike.size_eq hdistinct hdistinct'
    exact ⟨⟨h.answers, hcount, hcount⟩, halike, hdistinct, hdistinct', h.startTokenId, h.maxSize,
      h.maxOutputSize⟩
  · rw [if_neg hfull, if_neg fun hfull' => hfull (hguard.mpr hfull')]
    exact h

theorem Invariant.step (h : Invariant s) (hfits : Fits dynamicAlgo s op)
    (hstep : step dynamicAlgo s op = some s') : Invariant s' := by
  cases op with
  | put tokens pattern useBatch =>
    cases hstep
    exact h.put hfits
  | clearInput useBatch =>
    cases hstep
    exact ⟨⟨h.answers, h.n, h.nOutput⟩, alike_clear h.alike useBatch,
      distinct_clearNodes h.distinct, distinct_clearInput h.distinct', h.startTokenId, h.maxSize,
      h.maxOutputSize⟩
  | trim =>
    cases hstep
    exact h.trim
  | lookUp tokens useBatch maxSize =>
    cases hstep
    refine ⟨⟨fun a ha => ?_, h.n, h.nOutput⟩, h.alike, h.distinct, h.distinct', h.startTokenId,
      h.maxSize, h.maxOutputSize⟩
    rcases List.mem_append.mp ha with ha | ha
    · exact h.answers a ha
    · rw [List.mem_singleton.mp ha]
      exact h.lookUp hfits

/-- **The trees are interchangeable** in runs of operations that the two carry out alike. -/
theorem interchangeable_of_reaches {startTokenId : Int} {maxSize maxOutputSize : Nat}
    (h : Reaches (PrefixTree.step dynamicAlgo) (Fits dynamicAlgo)
      (PrefixTree.init startTokenId maxSize maxOutputSize) s) : Interchangeable s :=
  (h.invariant (Invariant.init startTokenId maxSize maxOutputSize) fun _ _ _ hs hfits hstep =>
    hs.step hfits hstep).toInterchangeable

section Example

/-- An answer is put in, and looked up. -/
theorem interchangeable_of_reaches_answer : ∃ s,
    Reaches (step false) (Fits false) (init 7 64 64) s ∧ Interchangeable s ∧
      s.answers.map Prod.fst = [⟨[7, 5], 1⟩] := by
  have hput : Fits false (init 7 64 64) (.put [5, 6] .output 0) := .inr rfl
  obtain ⟨s, hs⟩ : ∃ s, step false (init 7 64 64) (.put [5, 6] .output 0) = some s := ⟨_, rfl⟩
  have hnodes : s.tree.treeNodes = chain (-1) [5, 6] := by
    cases hs
    rfl
  have hentry : ∀ token freqs next, (chain (-1) [5, 6]).get token = some (freqs, next) →
      token = 5 ∧ freqs = once (-1) := by
    intro token freqs next hget
    by_cases htoken : token = 5
    · subst htoken
      cases hget
      exact ⟨rfl, rfl⟩
    · rw [chain, Forest.get_cons_of_ne (Ne.symm htoken)] at hget
      cases hget
  have hlookUp : Fits false s (.lookUp [] 0 1) := by
    refine ⟨⟨chain (-1) [5, 6], by rw [hnodes]; rfl, nofun, ?_⟩, nofun⟩
    refine ⟨fun token freqs next hget => ?_,
      .inr ⟨5, once (-1), chain (-1) [6], rfl, ?_, ?_, trivial⟩⟩
    · obtain ⟨-, rfl⟩ := hentry token freqs next hget
      exact ⟨0, 1, rfl, rfl, by norm_num⟩
    · norm_num [total, once]
    · intro token freqs' next' hne hget
      exact absurd (hentry token freqs' next' hget).1.symm hne
  have hreaches : Reaches (step false) (Fits false) (init 7 64 64) _ :=
    .step (.lookUp [] 0 1) (.one hput hs) hlookUp rfl
  refine ⟨_, hreaches, interchangeable_of_reaches hreaches, ?_⟩
  cases hs
  decide +kernel

/-- What is looked up is not there: there is no token beyond the first, or there is one. -/
theorem not_interchangeable : ∃ s,
    Reaches (step false) (fun _ _ => True) (init 7 64 64) s ∧ ¬Interchangeable s := by
  refine ⟨_, .step (.lookUp [8] 0 4) (.one (a := .put [5, 6] .output 0) trivial rfl) trivial rfl,
    fun h => ?_⟩
  have hanswers := h.answers
  revert hanswers
  decide +kernel

end Example

end PrefixTree

end MindieLLM
