import MindieLLM.TextGenerator.RowLocal

/-!
# What a batch does to one of its sequences

A sequence should not notice which other sequences are in its batch. The updates of the context are
vectorised, and most of them are local to the rows. Two are not. The first decode, where prefill and
decode are separated, adds the number of sequences in the batch to the output length of each of
them. And when rows are full, the tokens are written one row after the other: a sequence whose
tokens do not fit in its row keeps those of the rest of the batch from being counted.

## Main definitions

* `UpdateContext.sequenceState`: the tokens, lengths and position of a sequence
* `UpdateContext.Call`: a call that updates the context by a batch
* `UpdateContext.SameEffect`: what the call does to a sequence is what the call does to it alone
* `UpdateContext.Independent`: the condition under which it is
-/

namespace MindieLLM

open Program

namespace UpdateContext

/-- What is asked for of a sequence: its tokens, its lengths and its position. -/
structure SequenceState where
  lastInputId : Int
  allInputIds : List Int
  allOutputIds : List Int
  seqLen : Nat
  outputLenCount : Nat
  lastPositionId : Int
  deriving DecidableEq

def sequenceState (c : SlotContext) : SequenceState where
  lastInputId := c.lastInputIds
  allInputIds := c.allInputIds.take c.seqLens
  allOutputIds := c.allOutputIds.take c.outputLenCount
  seqLen := c.seqLens
  outputLenCount := c.outputLenCount
  lastPositionId := c.lastPositionIds

/-! ## Calls -/

inductive Call
  | updateContextFirst (m : PrefillMetadata)
  | updateContext (b : SamplingBatch)
  | joinContext (b : JoinBatch)

namespace Call

def run (cfg : BatchContextConfig) : Call → SlotsM PUnit
  | .updateContextFirst m => UpdateContext.updateContextFirst cfg m
  | .updateContext b => UpdateContext.updateContext cfg b
  | .joinContext b => do
    let _ ← UpdateContext.joinContext cfg b

/-- The same call, on a batch that holds only the sequence with the slot. -/
def only (h : SlotIdx) : Call → Call
  | .updateContextFirst m =>
    .updateContextFirst { m with batch := m.batch.filter fun p => p.1 = h }
  | .updateContext b =>
    .updateContext { b with entries := b.entries.filter fun p => p.1 = some h }
  | .joinContext b => .joinContext { b with entries := b.entries.filter fun p => p.1 = h }

/-- The slots of the batch. -/
def handles : Call → List SlotIdx
  | .updateContextFirst m => m.batch.map Prod.fst
  | .updateContext b => b.entries.filterMap Prod.fst
  | .joinContext b => b.entries.map Prod.fst

/-- The sequences have slots of their own, all but those that use slot 0, and the new tokens are
among the columns of the array. -/
structure WellFormed (call : Call) : Prop where
  distinct : (call.handles.filter fun h => h ≠ 0).Nodup
  columns : ∀ b, call = .updateContext b → 0 < b.width ∧
    ∀ p ∈ b.entries, p.2.tokenIds.length = b.width ∧ p.2.numNewTokens ≤ b.width

end Call

def SameEffect (cfg : BatchContextConfig) (call : Call) (slots : SlotIdx → SlotContext)
    (h : SlotIdx) : Prop :=
  sequenceState (after (call.run cfg) slots h) =
    sequenceState (after ((call.only h).run cfg) slots h)

/-- The first decode of the sequence alone raises. -/
def PdRaises (given : Given) (e : PrefillEntry) (c : SlotContext) : Prop :=
  given.bestOf = false ∨ 1 < e.bestOf.getD (if given.n then e.n.getD 1 else c.n) ∨
    (e.stopStrings ≠ [] ∧ given.skipSpecialTokens = false)

/-- Several new tokens do not fit in the row. -/
def Overflows (cfg : BatchContextConfig) (hasSampling : Bool) (e : SamplingEntry)
    (c : SlotContext) : Prop :=
  2 ≤ e.numNewTokens ∧ ((hasSampling ∧ cfg.allInputWidth < c.seqLens + e.numNewTokens) ∨
    cfg.allOutputWidth < c.outputLenCount + e.numNewTokens)

/-- The condition under which the batch does not matter. -/
def Independent (cfg : BatchContextConfig) (slots : SlotIdx → SlotContext) (h : SlotIdx) :
    Call → Prop
  | .updateContextFirst m =>
    m.isPdSeparate → m.batch.length = 1 ∨ ∀ e, (h, e) ∈ m.batch → PdRaises m.given e (slots h)
  | .updateContext b =>
    (∀ p ∈ b.updating, ¬Overflows cfg b.hasSampling p.2 (slots p.1)) ∨
      ∀ e, (h, e) ∈ b.updating → e.numNewTokens = 0 ∨ Overflows cfg b.hasSampling e (slots h)
  | .joinContext _ => True

end UpdateContext

end MindieLLM
