/-!
The phases of the cross-path estimator: it learns which flow is fastest, then how far the other
flows lag behind, and then runs its two timers. `next` says which occasion moves which phase where;
an occasion that does not apply moves nothing.
-/

namespace LossWatch

inductive CrossPhase
  /-- Collecting arrivals on every flow to rank them. -/
  | learnFlowOrder
  /-- Waiting for a reference on the fastest flow. -/
  | learnPathDifference
  /-- Waiting for the number after the reference on another flow. -/
  | learnAwaitingAlternate
  /-- Waiting for the fastest flow while both predictors get ready. -/
  | estAwaitingFastest
  /-- Running; the last arrival refined the delta model. -/
  | estRunningA
  /-- Running; the last arrival refined the cross model. -/
  | estRunningB
deriving DecidableEq

inductive CrossTrigger
  | flowOrderLearned
  | referenceAnchored
  | alternateArrived
  | predictorsReady
  | deltaSample
  | crossSample
  | referenceLost
deriving DecidableEq

namespace CrossPhase

def name : CrossPhase → String
  | learnFlowOrder => "LEARN_FLOW_ORDER"
  | learnPathDifference => "LEARN_PATH_DIFFERENCE"
  | learnAwaitingAlternate => "LEARN_AWAITING_ALTERNATE"
  | estAwaitingFastest => "EST_AWAITING_FASTEST"
  | estRunningA => "EST_RUNNING_A"
  | estRunningB => "EST_RUNNING_B"

def isRunning : CrossPhase → Bool
  | estRunningA | estRunningB => true
  | _ => false

def hasFlowOrder (p : CrossPhase) : Bool := p ≠ learnFlowOrder

def next : CrossPhase → CrossTrigger → Option CrossPhase
  | learnFlowOrder, .flowOrderLearned => some learnPathDifference
  | learnPathDifference, .referenceAnchored => some learnAwaitingAlternate
  | learnAwaitingAlternate, .alternateArrived => some estAwaitingFastest
  | estAwaitingFastest, .predictorsReady => some estRunningA
  | estRunningA, .deltaSample | estRunningB, .deltaSample => some estRunningA
  | estRunningA, .crossSample | estRunningB, .crossSample => some estRunningB
  | learnAwaitingAlternate, .referenceLost | estAwaitingFastest, .referenceLost
  | estRunningA, .referenceLost | estRunningB, .referenceLost => some learnPathDifference
  | _, _ => none

end CrossPhase
end LossWatch
