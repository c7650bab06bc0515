import LossWatch.Feedback

/-!
What a simulation is asked to do: the session a receiver negotiated, its predictor, the flows that
packets are sent on, and how many. Times are given in milliseconds. Whatever a scenario leaves out
has a default, the flows apart.
-/

namespace LossWatch

structure FlowPlan where
  id : Nat
  interval : Binary64
  offset : Binary64 := .zero
  delay : Binary64 := .zero
  /-- The delay varies upwards by at most this. -/
  jitter : Binary64 := .zero
  loss : Binary64 := .zero
deriving DecidableEq

/-- Estimators and predictor are named as the user wrote them. -/
structure Scenario where
  feedback : FeedbackMode := .nack
  estimator : String := EstimatorKind.crossPath.name
  comparison : Option String := none
  rtxLateMillis : Nat := 500
  /-- The time from a loss report to the repair. -/
  rtxRttMillis : Nat := 40
  predictor : String := PredictorKind.movingAverage.name
  historySize : Nat := 25
  biasSamples : Nat := 5
  prematureTimeout : Binary64 := .ofDecimal false 5 (-2)
  flows : List FlowPlan
  packets : Nat := 2000
  reportIntervalMillis : Nat := 100
  seed : Option Nat := none
  startSeq : SeqNumber := .ofNat 0

inductive ScenarioFault
  | io (reason : String)
  | toml
  | tomlSerialize
  | session (fault : ConfigFault)
  | feedback (fault : FeedbackFault)
  | noFlows
  | interval (flow : Nat)
  | negativeTime (flow : Nat)
  | loss (flow : Nat)
  | repeatedFlow
  | packets
  | reportInterval

namespace ScenarioFault

def cause? : ScenarioFault → Option String
  | io reason => some reason
  | session fault => some fault.message
  | feedback fault => some fault.message
  | _ => none

/-- What is wrong with TOML is not told. -/
def message : ScenarioFault → String
  | io reason => "IO error: " ++ reason
  | toml => "TOML parse error: "
  | tomlSerialize => "TOML serialize error: "
  | session fault => "Session error: " ++ fault.message
  | feedback fault => "Feedback error: " ++ fault.message
  | noFlows => "Invalid configuration: at least one flow is required"
  | interval flow => s!"Invalid configuration: flow {flow}: interval_ms must be positive"
  | negativeTime flow =>
    s!"Invalid configuration: flow {flow}: offsets and delays must not be negative"
  | loss flow => s!"Invalid configuration: flow {flow}: loss must lie in [0, 1]"
  | repeatedFlow => "Invalid configuration: flow ids must be unique"
  | packets => "Invalid configuration: packets must lie in 1..=30000"
  | reportInterval => "Invalid configuration: report_interval_ms must be positive"

end ScenarioFault

def isShare (x : Float) : Bool := 0.0 ≤ x && x ≤ 1.0

/-- Limits that hold on a path. A NaN is no positive interval, but no negative time either. -/
def FlowPlan.validate (f : FlowPlan) : Except ScenarioFault Unit :=
  if !(0.0 < f.interval.toFloat) then .error (.interval f.id)
  else if [f.offset, f.delay, f.jitter].any (·.toFloat < 0.0) then .error (.negativeTime f.id)
  else if !isShare f.loss.toFloat then .error (.loss f.id)
  else .ok ()

namespace Scenario

/-- A trace stays below half the number space, so that a report names one packet. -/
def maxPackets : Nat := 30000

def sample : Scenario where
  flows := [
    { id := 0, interval := .ofDecimal false 20 0, delay := .ofDecimal false 20 0
      jitter := .ofDecimal false 2 0, loss := .ofDecimal false 1 (-2) },
    { id := 1, interval := .ofDecimal false 20 0, offset := .ofDecimal false 10 0
      delay := .ofDecimal false 45 0, jitter := .ofDecimal false 5 0
      loss := .ofDecimal false 3 (-2) }]
  seed := some 7

/-- What the session negotiated. Names are looked up in the order estimator, comparison,
predictor. -/
def capabilities (s : Scenario) : Except ConfigFault Capabilities := do
  let primary ← EstimatorKind.ofName s.estimator
  let comparison ← s.comparison.mapM EstimatorKind.ofName
  let kind ← PredictorKind.ofName s.predictor
  return {
    nack := s.feedback = .nack, ack := s.feedback = .ack, rtx := s.feedback = .nack
    primary, comparison
    predictor := {
      kind, historySize := s.historySize, biasSamples := s.biasSamples
      prematureTimeout := s.prematureTimeout.toFloat }
    rtxLateAfter := .ofMillis s.rtxLateMillis }

def rtxRtt (s : Scenario) : Duration := .ofMillis s.rtxRttMillis
def reportInterval (s : Scenario) : Duration := .ofMillis s.reportIntervalMillis

def session (s : Scenario) : Except ScenarioFault Capabilities :=
  (do let caps ← s.capabilities; caps.validate; return caps).mapError .session

def validate (s : Scenario) : Except ScenarioFault Unit := do
  if s.flows.isEmpty then throw .noFlows
  s.flows.forM FlowPlan.validate
  unless (s.flows.map (·.id)).Nodup do throw .repeatedFlow
  if s.packets = 0 || maxPackets < s.packets then throw .packets
  if s.reportIntervalMillis = 0 then throw .reportInterval
  discard s.session

end Scenario
end LossWatch
