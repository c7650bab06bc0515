import LossWatch.Decimal.Shortest

/-!
What can be wrong with a configuration, and how it is said. The last three faults concern the
constants of the cross-path estimator.
-/

namespace LossWatch

inductive ConfigFault
  | unknownPredictor (name : String)
  | unknownEstimator (name : String)
  | historySize (got : Nat)
  | biasSamples (got : Nat)
  | probability (got : Float)
  | comparisonWithoutNack
  | flowWindow
  | minFlowSamples (window got : Nat)
  | maxConsecutiveLosses

namespace ConfigFault

def message : ConfigFault → String
  | unknownPredictor name => "Unknown predictor: " ++ name
  | unknownEstimator name => "Unknown estimator: " ++ name
  | historySize got => s!"History size must be positive, got {got}"
  | biasSamples got => s!"Bias sample count must be positive, got {got}"
  | probability got =>
    "Premature timeout probability must lie in (0, 1), got " ++ Decimal.plainFloat got
  | comparisonWithoutNack => "Comparison estimator requires NACK feedback with retransmission"
  | flowWindow => "Invalid configuration: flow window must be positive"
  | minFlowSamples window got =>
    s!"Invalid configuration: min_flow_samples must lie in 2..={window}, got {got}"
  | maxConsecutiveLosses => "Invalid configuration: max_consecutive_losses must be positive"

end ConfigFault
end LossWatch
