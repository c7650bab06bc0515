import LossWatch.Estimator

/-!
What a session negotiated: which feedback the peer takes, whether repairs are sent, and which
estimators run. The feedback mode follows from it: loss reports need both NACK and a repair stream,
else receptions are acknowledged if the peer takes that, else nothing is fed back.
-/

namespace LossWatch

inductive FeedbackMode
  | nack
  | ack
  | none
deriving DecidableEq

def FeedbackMode.name : FeedbackMode → String
  | nack => "Nack"
  | ack => "Ack"
  | none => "None"

structure Capabilities where
  nack : Bool := true
  ack : Bool := false
  rtx : Bool := true
  primary : EstimatorKind := .singlePath
  /-- An estimator that runs alongside and is only watched. -/
  comparison : Option EstimatorKind := none
  predictor : PredictorConfig := {}
  /-- A repair that takes longer than this is late. -/
  rtxLateAfter : Duration := .ofMillis 500

namespace Capabilities

def nackWithRtx : Capabilities := {}
def multipathNack : Capabilities := { primary := .crossPath }
def ackOnly : Capabilities := { nack := false, ack := true, rtx := false }

def mode (c : Capabilities) : FeedbackMode :=
  if c.nack && c.rtx then .nack else if c.ack then .ack else .none

def validate (c : Capabilities) : Except ConfigFault Unit :=
  if c.mode = .nack then c.predictor.validate
  else if c.comparison.isSome then .error .comparisonWithoutNack
  else .ok ()

end Capabilities
end LossWatch
