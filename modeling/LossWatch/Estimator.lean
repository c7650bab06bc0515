import LossWatch.CrossPath
import LossWatch.SinglePath

/-!
The choice between the two estimators. It is made once, by kind; all that follows talks to either
through the same functions.
-/

namespace LossWatch

inductive EstimatorKind
  | singlePath
  | crossPath
deriving DecidableEq

namespace EstimatorKind

def name : EstimatorKind → String
  | singlePath => SinglePath.label
  | crossPath => CrossPath.label

def ofName (s : String) : Except ConfigFault EstimatorKind :=
  let w := Text.word s
  if ["single-path", "single_path", "single", "basic"].contains w then .ok singlePath
  else if ["cross-path", "cross_path", "cross", "multipath"].contains w then .ok crossPath
  else .error (.unknownEstimator s)

end EstimatorKind

inductive Estimator
  | single (s : SinglePath)
  | cross (c : CrossPath)

namespace Estimator

def build (kind : EstimatorKind) (predictor : PredictorConfig) (single : SinglePathConfig := {})
    (cross : CrossPathConfig := {}) : Except ConfigFault Estimator :=
  match kind with
  | .singlePath => (SinglePath.build predictor single).map .single
  | .crossPath => (CrossPath.build predictor cross).map .cross

def kind : Estimator → EstimatorKind
  | single _ => .singlePath
  | cross _ => .crossPath

def name (e : Estimator) : String := e.kind.name

def asCross? : Estimator → Option CrossPath
  | single _ => none
  | cross c => some c

def onArrival (e : Estimator) (now : Timestamp) (a : Arrival) : Step Estimator :=
  match e with
  | single s => (s.onArrival now a).alter single
  | cross c => (c.onArrival now a).alter cross

def onRepair (e : Estimator) (a : Arrival) : Step Estimator :=
  match e with
  | single s => (s.onRepair a).alter single
  | cross c => (c.onRepair a).alter cross

def onTimeout (e : Estimator) (now : Timestamp) (key : TimerKey) : Step Estimator :=
  match e with
  | single s => (s.onTimeout now key).alter single
  | cross c => (c.onTimeout now key).alter cross

def noteWithdrawn (e : Estimator) (seq : SeqNumber) : Estimator :=
  match e with
  | single s => single (s.noteWithdrawn seq)
  | cross c => cross (c.noteWithdrawn seq)

def reset : Estimator → Step Estimator
  | single s => s.reset.alter single
  | cross c => c.reset.alter cross

def stop : Estimator → Step Estimator
  | single s => s.stop.alter single
  | cross c => c.stop.alter cross

def diagnostics : Estimator → Diagnostics
  | single s => s.diagnostics
  | cross c => c.diagnostics

def ledger : Estimator → LossLedger
  | single s => s.ledger
  | cross c => c.ledger

def summary : Estimator → List Notice
  | single s => s.summary
  | cross c => c.summary

/-- The run of timer losses that resets the estimator. -/
def lossCeiling : Estimator → Nat
  | single s => s.config.maxConsecutiveLosses
  | cross c => c.config.maxConsecutiveLosses

end Estimator
end LossWatch
