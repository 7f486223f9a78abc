import MindieLLM.Scheduler.LayerwiseFcfsPolicy

/-!
# The policies of disaggregated nodes

`PDDSPolicy` schedules the batches of a node that does one of the stages only.

## Main definitions

* `Role`: what a node does
* `PDDSPolicy.apply`: the policy of prefill and of decode nodes
* `Policy.apply`: the policy that the factory makes for a role
-/

namespace MindieLLM

open Program

variable {HashValue B : Type}

inductive Role
  | pnD
  | p
  | d
  | flexP
  | flexPnD
  | flexD
  deriving DecidableEq, Repr

variable [BlockSpaceManager HashValue B] (ctx : PolicyContext)

namespace PDDSPolicy

open FcfsPolicy

/-- `PDDSPolicy::ScheduleChunkedPrefill` makes no pass over the swapped queue. -/
def scheduleChunkedPrefill (now : Nat) (collection : SeqGroupCollection)
    (budget : SchedulingBudget) : PolicyM HashValue B PolicyOutput := do
  let statistics ← statisticsOf ctx collection
  let (runningOut, running, budget) ← applyToRunningQueue ctx true collection.running budget
  let (prefillOut, waiting, budget) ←
    applyToWaitingQueue ctx now true collection.waiting budget (some statistics)
  return buildPolicyOutput prefillOut runningOut {}
    { collection with waiting := waiting, running := running } budget

def apply (role : Role) (now : Nat) (collection : SeqGroupCollection) (budget : SchedulingBudget) :
    PolicyM HashValue B PolicyOutput :=
  match role with
  | .p =>
    if ctx.enableChunkedPrefill then scheduleChunkedPrefill ctx now collection budget
    else schedulePrefill (FcfsPolicy.passes ctx now) collection budget
  | .d => scheduleDecode ctx (FcfsPolicy.passes ctx now) collection budget
  | _ => throw (.runtimeError "the role is not support.")

end PDDSPolicy

/-- The policy that `PolicyFactory::CreatePolicy` makes for a role. -/
def Policy.apply (role : Role) (now : Nat) (collection : SeqGroupCollection)
    (budget : SchedulingBudget) : PolicyM HashValue B PolicyOutput :=
  match role with
  | .p | .d => PDDSPolicy.apply ctx role now collection budget
  | .pnD | .flexP | .flexPnD | .flexD =>
    if ctx.layerwiseDisaggregated then
      FcfsPolicy.apply ctx (LayerwiseFcfsPolicy.passes ctx now) collection budget
    else FcfsPolicy.apply ctx (FcfsPolicy.passes ctx now) collection budget

end MindieLLM
