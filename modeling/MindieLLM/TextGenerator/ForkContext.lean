import MindieLLM.TextGenerator.SlotContext

/-!
# Slots of children

With beam search a slot is forked from another one. The arrays are copied at once, so that a slot
which is overwritten by the same call is still a parent as it was; the dictionaries are copied one
child after the other. The answer so far and the generator are not copied at all, nor the ranks of
the blocks for speculative tokens.

## Main definitions

* `SlotContext.read`: what a later step reads of a slot
* `NdarrayContext.Forked`: each child is its parent as it was, and the other slots are unchanged
* `NdarrayContext.Inheritable`: nothing is lost

## Main results

* `NdarrayContext.forkSlots_apply`: a slot after the call
* `NdarrayContext.forked_forkSlots_iff`: the copy is simultaneous exactly if nothing is lost
-/

namespace MindieLLM

open Program

/-- The entries of the dictionaries of a slot, but for the generator. -/
structure DictEntries where
  outputTexts : Option String
  stoppingCriteria : Option (List StopTokenId)
  stringStoppingCriteria : Option (List String)
  loraAdapterId : Option String
  traceIds : Option String
  responseFormat : Option String
  deriving DecidableEq

namespace SlotContext

variable (cfg : BatchContextConfig)

def dictEntries (c : SlotContext) : DictEntries where
  outputTexts := c.outputTexts
  stoppingCriteria := c.stoppingCriteria
  stringStoppingCriteria := c.stringStoppingCriteria
  loraAdapterId := c.loraAdapterId
  traceIds := c.traceIds
  responseFormat := c.responseFormat

def withEntries (c : SlotContext) (d : DictEntries) : SlotContext :=
  { c with
    outputTexts := d.outputTexts
    stoppingCriteria := d.stoppingCriteria
    stringStoppingCriteria := d.stringStoppingCriteria
    loraAdapterId := d.loraAdapterId
    traceIds := d.traceIds
    responseFormat := d.responseFormat }

/-- What a later step reads of a slot. The last input is written first; the rows for speculative
tokens are read with speculative tokens only, and the ranks with context parallelism as well. -/
def read (c : SlotContext) : SlotContext :=
  let mtp := if cfg.contextParams.mtpEnable then c else blank cfg
  let ranks :=
    if cfg.contextParams.mtpEnable ∧ 1 < cfg.spcpParallelInfo.scpSize then c else blank cfg
  { c with
    lastInputIds := 0
    mtpLastSlots := mtp.mtpLastSlots
    mtpLastTokenNum := mtp.mtpLastTokenNum
    mtpHiddenStates := mtp.mtpHiddenStates
    mtpLastRank := ranks.mtpLastRank
    mtpSeqBlockRankId := ranks.mtpSeqBlockRankId }

/-- What is read, and not copied: the answer so far, the generator, and the ranks. -/
structure LeftBehind (child parent : SlotContext) : Prop where
  allOutputIds : child.allOutputIds = parent.allOutputIds
  randomNumberGenerators : child.randomNumberGenerators = parent.randomNumberGenerators
  ranks : cfg.contextParams.mtpEnable → 1 < cfg.spcpParallelInfo.scpSize →
    child.mtpLastRank = parent.mtpLastRank ∧ child.mtpSeqBlockRankId = parent.mtpSeqBlockRankId

variable {cfg}

theorem dictEntries_forkNdarray (child parent : SlotContext) :
    (forkNdarray cfg child parent).dictEntries = child.dictEntries := rfl

/-- A child with other entries reads as its parent exactly if the entries are those of the parent,
and what is not copied is equal already. -/
theorem read_withEntries_iff (child parent : SlotContext) (d : DictEntries) :
    ((forkNdarray cfg child parent).withEntries d).read cfg = parent.read cfg ↔
      d = parent.dictEntries ∧ LeftBehind cfg child parent := by
  constructor
  · intro h
    have hanswer := congrArg allOutputIds h
    have hgenerator := congrArg randomNumberGenerators h
    refine ⟨congrArg dictEntries h, hanswer, hgenerator, ?_⟩
    intro hmtp hscp
    have hrank := congrArg mtpLastRank h
    have hblocks := congrArg mtpSeqBlockRankId h
    simp only [read, withEntries, forkNdarray, hmtp, hscp, and_self, if_true] at hrank hblocks
    exact ⟨hrank, hblocks⟩
  · rintro ⟨rfl, hleft⟩
    unfold read withEntries forkNdarray dictEntries
    dsimp only
    rw [hleft.allOutputIds, hleft.randomNumberGenerators]
    by_cases hmtp : cfg.contextParams.mtpEnable
    · by_cases hscp : 1 < cfg.spcpParallelInfo.scpSize
      · obtain ⟨hrank, hblocks⟩ := hleft.ranks hmtp hscp
        simp only [hmtp, hscp, and_self, if_true, hrank, hblocks]
      · simp only [hmtp, hscp, and_false, if_true, if_false]
    · simp only [hmtp, false_and, if_false, Bool.false_eq_true]

end SlotContext

namespace NdarrayContext

variable (cfg : BatchContextConfig)

/-- The copy is simultaneous. -/
structure Forked (slots slots' : SlotIdx → SlotContext) (pairs : List (SlotIdx × SlotIdx)) :
    Prop where
  children : ∀ p ∈ pairs, (slots' p.1).read cfg = (slots p.2).read cfg
  others : ∀ h, (∀ p ∈ pairs, p.1 ≠ h) → slots' h = slots h

/-- What a child is not given, it has. Where a slot is a child first and a parent then, its entries
are those of its own parent. -/
structure Inheritable (slots : SlotIdx → SlotContext) (pairs : List (SlotIdx × SlotIdx)) :
    Prop where
  leftBehind : ∀ p ∈ pairs, SlotContext.LeftBehind cfg (slots p.1) (slots p.2)
  entries : pairs.Pairwise fun p q => q.2 = p.1 →
    (slots q.2).dictEntries = (slots p.2).dictEntries

variable {cfg}

/-- The dictionaries do not depend on the arrays. -/
theorem foldl_forkDict_apply (pairs : List (SlotIdx × SlotIdx)) (slots : SlotIdx → SlotContext)
    (h : SlotIdx) :
    pairs.foldl (fun s p => Function.update s p.1 ((s p.1).forkDict (s p.2))) slots h =
      (slots h).withEntries (copyEach pairs (fun i => (slots i).dictEntries) h) := by
  induction pairs generalizing slots with
  | nil => rfl
  | cons p pairs ih =>
    rw [List.foldl_cons, ih]
    have hentries : (fun i => (Function.update slots p.1
        ((slots p.1).forkDict (slots p.2)) i).dictEntries) =
        Function.update (fun i => (slots i).dictEntries) p.1 (slots p.2).dictEntries := by
      ext1 i
      by_cases hi : i = p.1
      · subst hi
        rw [Function.update_self, Function.update_self]
        rfl
      · rw [Function.update_of_ne hi, Function.update_of_ne hi]
    rw [hentries]
    by_cases hh : h = p.1
    · subst hh
      rw [Function.update_self]
      rfl
    · rw [Function.update_of_ne hh]
      rfl

/-- A slot after the call: its arrays are those of the parent as it was, and its entries those that
have come to it. -/
theorem forkSlots_apply (pairs : List (SlotIdx × SlotIdx)) (slots : SlotIdx → SlotContext)
    (h : SlotIdx) :
    forkSlots cfg pairs slots h =
      (scatter (SlotContext.forkNdarray cfg) (pairs.map Prod.fst)
        (pairs.map fun p => slots p.2) slots h).withEntries
          (copyEach pairs (fun i => (slots i).dictEntries) h) := by
  unfold forkSlots
  rw [foldl_forkDict_apply]
  have hentries : (fun i => (scatter (SlotContext.forkNdarray cfg) (pairs.map Prod.fst)
      (pairs.map fun p => slots p.2) slots i).dictEntries) = fun i => (slots i).dictEntries := by
    ext1 i
    unfold scatter
    rw [writeRows_apply]
    generalize (List.filter _ _).map Prod.snd = parents
    induction parents using List.reverseRecOn with
    | nil => rfl
    | append_singleton parents parent ih =>
      rw [List.foldl_append, List.foldl_cons, List.foldl_nil, SlotContext.dictEntries_forkNdarray]
      exact ih
  rw [hentries]

/-- The arrays of a child. -/
theorem scatter_forkNdarray_of_mem {pairs : List (SlotIdx × SlotIdx)}
    {slots : SlotIdx → SlotContext} {p : SlotIdx × SlotIdx} (hnodup : (pairs.map Prod.fst).Nodup)
    (hp : p ∈ pairs) :
    scatter (SlotContext.forkNdarray cfg) (pairs.map Prod.fst) (pairs.map fun p => slots p.2) slots
      p.1 = SlotContext.forkNdarray cfg (slots p.1) (slots p.2) := by
  have hzip : (pairs.map Prod.fst).zip (pairs.map fun p => slots p.2) =
      pairs.map fun p => (p.1, slots p.2) := List.zip_map'
  unfold scatter
  rw [hzip]
  refine writeRows_alone (.of_nodup ?_ (List.mem_map.mpr ⟨p, hp, rfl⟩))
  rw [List.map_map]
  exact hnodup

/-- The other slots are unchanged. -/
theorem forkSlots_of_notMem {pairs : List (SlotIdx × SlotIdx)} {slots : SlotIdx → SlotContext}
    {h : SlotIdx} (hh : ∀ p ∈ pairs, p.1 ≠ h) : forkSlots cfg pairs slots h = slots h := by
  have hzip : (pairs.map Prod.fst).zip (pairs.map fun p => slots p.2) =
      pairs.map fun p => (p.1, slots p.2) := List.zip_map'
  have hnone : ∀ q ∈ pairs.map fun p => (p.1, slots p.2), q.1 ≠ h := List.forall_mem_map.mpr hh
  rw [forkSlots_apply, copyEach_of_notMem hh]
  unfold scatter
  rw [hzip, writeRows_of_notMem hnone]
  rfl

/-- **The copy is simultaneous exactly if nothing is lost**: what is read and not copied is equal
before, and so are the entries where a slot is a child first and a parent then. -/
theorem forked_forkSlots_iff (cfg : BatchContextConfig) (slots : SlotIdx → SlotContext)
    (pairs : List (SlotIdx × SlotIdx)) (hnodup : (pairs.map Prod.fst).Nodup) :
    Forked cfg slots (forkSlots cfg pairs slots) pairs ↔ Inheritable cfg slots pairs := by
  have hchild : ∀ p ∈ pairs,
      (forkSlots cfg pairs slots p.1).read cfg = (slots p.2).read cfg ↔
        copyEach pairs (fun i => (slots i).dictEntries) p.1 = (slots p.2).dictEntries ∧
          SlotContext.LeftBehind cfg (slots p.1) (slots p.2) := by
    intro p hp
    rw [forkSlots_apply, scatter_forkNdarray_of_mem hnodup hp, SlotContext.read_withEntries_iff]
  have hentries := copyEach_iff (s := fun i => (slots i).dictEntries) hnodup
  constructor
  · intro h
    refine ⟨fun p hp => ((hchild p hp).mp (h.children p hp)).2, hentries.mp ?_⟩
    exact fun p hp => ((hchild p hp).mp (h.children p hp)).1
  · intro h
    refine ⟨fun p hp => (hchild p hp).mpr ⟨?_, h.leftBehind p hp⟩, fun _ => forkSlots_of_notMem⟩
    exact hentries.mpr h.entries p hp

section Example

/-- Two children of one parent, which has not answered yet. -/
theorem forked_forkSlots_twins :
    let slots : SlotIdx → SlotContext := fun h =>
      { SlotContext.blank {} with traceIds := if h = 1 then some "one" else none }
    Forked {} slots (forkSlots {} [(2, 1), (3, 1)] slots) [(2, 1), (3, 1)] := by
  intro slots
  refine (forked_forkSlots_iff {} slots [(2, 1), (3, 1)] (by decide)).mpr ⟨?_, ?_⟩
  · intro p _
    exact ⟨rfl, rfl, fun hmtp => absurd hmtp Bool.false_ne_true⟩
  · refine List.pairwise_pair.mpr fun h => ?_
    exact absurd h (by decide)

/-- The first slot has answered a token. -/
def answered (h : SlotIdx) : SlotContext :=
  { SlotContext.blank {} with allOutputIds := if h = 1 then [5] else [-1] }

/-- The first slot has an output text of its own. -/
def texted (h : SlotIdx) : SlotContext :=
  { SlotContext.blank {} with outputTexts := if h = 1 then some "one" else some "two" }

/-- The answer so far of the parent is not that of the child. And the third slot gets the entries of
the first one, as the second has them by then. -/
theorem not_forked_forkSlots :
    ¬Forked {} answered (forkSlots {} [(2, 1)] answered) [(2, 1)] ∧
      ¬Forked {} texted (forkSlots {} [(2, 1), (3, 2)] texted) [(2, 1), (3, 2)] := by
  constructor
  · intro h
    have hchild := congrArg SlotContext.allOutputIds (h.children (2, 1) List.mem_cons_self)
    revert hchild
    decide +kernel
  · intro h
    have hchild := congrArg SlotContext.outputTexts
      (h.children (3, 2) (List.mem_cons_of_mem _ List.mem_cons_self))
    revert hchild
    decide +kernel

end Example

end NdarrayContext

end MindieLLM
