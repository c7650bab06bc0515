import LossWatch.Capabilities
import LossWatch.Feedback.Pending
import LossWatch.Feedback.Requests
import LossWatch.Monitor

/-!
The receiver's feedback. With loss reports, the primary estimator's losses are queued for the next
report and withdrawn again if the packet arrives before the report leaves; repairs are matched with
the requests made for them. With acknowledgements every arrival is queued. A comparison estimator
sees the same packets, and its events only go to a bounded channel.
-/

namespace LossWatch

inductive FeedbackFault
  | config (fault : ConfigFault)
  | shutDown
  | wrongMode (expected actual : FeedbackMode)

def FeedbackFault.message : FeedbackFault → String
  | config fault => "Configuration error: " ++ fault.message
  | shutDown => "Feedback manager is shut down"
  | wrongMode expected actual =>
    s!"Operation requires {expected.name} feedback, session uses {actual.name}"

structure FeedbackStats where
  packets : Nat := 0
  rtxPackets : Nat := 0
  lossesReported : Nat := 0
  falsePositives : Nat := 0
  /-- False positives whose report had not left yet. -/
  withdrawn : Nat := 0
  /-- False positives whose report had left already. -/
  alreadySent : Nat := 0
  rtxRequested : Nat := 0
  rtxRecovered : Nat := 0
  rtxLate : Nat := 0
  rtxDuplicate : Nat := 0
  rtxUnrequested : Nat := 0
  /-- Summed time from request to repair in microseconds. -/
  rtxLatencyMicros : Nat := 0
  comparisonEvents : Nat := 0
  /-- Comparison events that found the channel full. -/
  comparisonDropped : Nat := 0
deriving DecidableEq

def FeedbackStats.meanRtxLatency (s : FeedbackStats) : Duration :=
  let answered := s.rtxRecovered + s.rtxLate
  if answered = 0 then .zero else .ofMicros (s.rtxLatencyMicros / answered)

structure ComparisonEvent where
  estimator : EstimatorKind
  delivery : Delivery
deriving DecidableEq

def ComparisonEvent.text (e : ComparisonEvent) : String :=
  s!"{e.delivery.time.micros} {e.estimator.name} {e.delivery.event.text}"

structure Feedback where
  mode : FeedbackMode
  primary : Option Monitor
  comparison : Option Monitor
  rtxLateAfter : Duration
  pending : PendingLists := {}
  requests : RepairRequests := []
  channel : Array ComparisonEvent := #[]
  stats : FeedbackStats := {}
  isShutDown : Bool := false

structure FeedbackReply (α : Type) where
  feedback : Feedback
  value : α
  notices : List Notice := []

namespace Feedback

def channelCapacity : Nat := 1024

/-- A request is remembered for this many times the time allowed for a repair. -/
def horizonFactor : Nat := 4

@[inline] def count (f : Feedback) (g : FeedbackStats → FeedbackStats) : Feedback :=
  { f with stats := g f.stats }

/-- Uses estimators built before, and builds the primary one if there is none. Both are ignored
unless losses are reported. -/
def ofEstimators (caps : Capabilities) (primary comparison : Option Estimator) :
    Except FeedbackFault (FeedbackReply Unit) := do
  caps.validate.mapError .config
  let monitors : Option Monitor × Option Monitor ←
    if caps.mode = .nack then do
      let e ← match primary with
        | some e => pure e
        | none => (Estimator.build caps.primary caps.predictor).mapError .config
      pure (some { estimator := e }, comparison.map fun e => { estimator := e })
    else pure (none, none)
  let nameOf (m : Option Monitor) : String := (m.map (·.estimator.name)).getD "none"
  return {
    feedback := {
      mode := caps.mode, primary := monitors.1, comparison := monitors.2
      rtxLateAfter := caps.rtxLateAfter }
    value := ()
    notices := [.feedbackMode caps.mode.name (nameOf monitors.1) (nameOf monitors.2)] }

def ofCapabilities (caps : Capabilities) : Except FeedbackFault (FeedbackReply Unit) := do
  caps.validate.mapError .config
  if caps.mode = .nack then
    let primary ← (Estimator.build caps.primary caps.predictor).mapError .config
    let comparison ← match caps.comparison with
      | some kind => ((Estimator.build kind caps.predictor).map some).mapError .config
      | none => pure none
    ofEstimators caps (some primary) comparison
  else ofEstimators caps none none

def handleEvent (f : Feedback) (e : LossEvent) : Feedback :=
  match e with
  | .lost seq _ =>
    match f.pending.addLost seq with
    | (true, pending) =>
      { f with pending }.count fun s => { s with lossesReported := s.lossesReported + 1 }
    | (false, _) => f
  | .falsePositive seq _ =>
    let f := f.count fun s => { s with falsePositives := s.falsePositives + 1 }
    match f.pending.removeLost seq with
    | (true, pending) =>
      { f with pending, primary := f.primary.map (Monitor.noteWithdrawn · seq) }.count fun s =>
        { s with withdrawn := s.withdrawn + 1 }
    | (false, _) => f.count fun s => { s with alreadySent := s.alreadySent + 1 }

def handleEvents (f : Feedback) (es : List LossEvent) : Feedback := es.foldl handleEvent f

/-- Sends one event of the comparison estimator into the channel, if there is room. -/
def forward (kind : EstimatorKind) (f : Feedback) (d : Delivery) : Feedback :=
  if f.channel.size < channelCapacity then { f with channel := f.channel.push ⟨kind, d⟩ }
  else f.count fun s => { s with comparisonDropped := s.comparisonDropped + 1 }

def runPrimary (f : Feedback) (act : Monitor → Turn) : FeedbackReply (List LossEvent) :=
  match f.primary with
  | none => { feedback := f, value := [] }
  | some m =>
    let turn := act m
    { feedback := { f with primary := some turn.monitor }.handleEvents turn.events
      value := turn.events, notices := turn.notices.toList }

def runComparison (f : Feedback) (act : Monitor → Turn) : FeedbackReply Unit :=
  match f.comparison with
  | none => { feedback := f, value := () }
  | some m =>
    let turn := act m
    let f := { f with comparison := some turn.monitor }.count fun s =>
      { s with comparisonEvents := s.comparisonEvents + turn.deliveries.size }
    { feedback := turn.deliveries.foldl (forward m.estimator.kind) f, value := ()
      notices := turn.notices.toList }

def runBoth (f : Feedback) (act : Monitor → Turn) : FeedbackReply (List LossEvent) :=
  let first := f.runPrimary act
  let second := first.feedback.runComparison act
  { feedback := second.feedback, value := first.value, notices := first.notices ++ second.notices }

def requireRunning (f : Feedback) : Except FeedbackFault Unit :=
  if f.isShutDown then .error .shutDown else .ok ()

def requireMode (f : Feedback) (expected : FeedbackMode) : Except FeedbackFault Unit :=
  if f.mode = expected then .ok () else .error (.wrongMode expected f.mode)

/-- Delivers a packet; returns the primary estimator's events, with those of timers due before. -/
def onArrival (f : Feedback) (now : Timestamp) (a : Arrival) :
    Except FeedbackFault (FeedbackReply (List LossEvent)) := do
  f.requireRunning
  let f := f.count fun s => { s with packets := s.packets + 1 }
  return match f.mode with
    | .nack => f.runBoth (·.onArrival now a)
    | .ack => { feedback := { f with pending := f.pending.addReceived a.seq }, value := [] }
    | .none => { feedback := f, value := [] }

def countOutcome (outcome : RepairOutcome) (s : FeedbackStats) : FeedbackStats :=
  match outcome with
  | .recovered latency =>
    { s with
      rtxRecovered := s.rtxRecovered + 1, rtxLatencyMicros := s.rtxLatencyMicros + latency.micros }
  | .late latency =>
    { s with rtxLate := s.rtxLate + 1, rtxLatencyMicros := s.rtxLatencyMicros + latency.micros }
  | .duplicate => { s with rtxDuplicate := s.rtxDuplicate + 1 }
  | .unrequested => { s with rtxUnrequested := s.rtxUnrequested + 1 }

def onRepair (f : Feedback) (now : Timestamp) (a : Arrival) :
    Except FeedbackFault (FeedbackReply RepairOutcome) := do
  f.requireRunning
  f.requireMode .nack
  let ran := (f.count fun s => { s with rtxPackets := s.rtxPackets + 1 }).runBoth
    (·.onRepair now a)
  let (outcome, requests) := ran.feedback.requests.answer now a.seq f.rtxLateAfter
  return {
    feedback := { ran.feedback with requests }.count (countOutcome outcome)
    value := outcome, notices := ran.notices }

/-- Notes that a repair was asked for. If there is no room left for the request, the oldest one is
forgotten, or of several as old the one that `tie` picks. -/
def onRequest (f : Feedback) (now : Timestamp) (seq : SeqNumber) (flow : Option Nat)
    (tie : Nat := 0) : Except FeedbackFault Feedback := do
  f.requireRunning
  f.requireMode .nack
  let young := f.requests.prune tie now (f.rtxLateAfter.times horizonFactor)
  let requests := young.request now seq flow
  return { f with requests }.count fun s => { s with rtxRequested := s.rtxRequested + 1 }

def takeLost (f : Feedback) : List SeqNumber × Feedback :=
  let (taken, pending) := f.pending.takeLost
  (taken, { f with pending })

def takeReceived (f : Feedback) : Array SeqNumber × Feedback :=
  let (taken, pending) := f.pending.takeReceived
  (taken, { f with pending })

/-- Takes so many events off the channel, the first that were sent; all of them unless told. -/
def takeComparison (f : Feedback) (count : Nat := f.channel.size) :
    Array ComparisonEvent × Feedback :=
  (f.channel.take count, { f with channel := f.channel.drop count })

def pollTimers (f : Feedback) (now : Timestamp) : FeedbackReply (List LossEvent) :=
  if f.isShutDown then { feedback := f, value := [] } else f.runBoth (·.pollTimers now)

def monitors (f : Feedback) : List Monitor := f.primary.toList ++ f.comparison.toList

def nextDeadline (f : Feedback) : Option Timestamp :=
  (f.primary.bind (·.nextDeadline)).merge min (f.comparison.bind (·.nextDeadline))

/-- Stops both estimators for good and sums the session up; a second time it does nothing. -/
def shutDown (f : Feedback) : FeedbackReply Unit :=
  if f.isShutDown then { feedback := f, value := () } else
  let f := { f with
    isShutDown := true
    primary := f.primary.map (·.stop.monitor)
    comparison := f.comparison.map (·.stop.monitor) }
  let s := f.stats
  { feedback := f, value := ()
    notices := f.monitors.flatMap (·.estimator.summary) ++
      [.feedbackTotals s.packets s.rtxPackets s.lossesReported s.falsePositives s.withdrawn
        s.alreadySent] }

/-- Starts over, after a shutdown too; the statistics are kept. -/
def reset (f : Feedback) : Feedback :=
  { f with
    primary := f.primary.map (·.reset.monitor)
    comparison := f.comparison.map (·.reset.monitor)
    pending := {}
    requests := []
    isShutDown := false }

def outstandingRequests (f : Feedback) : Nat := f.requests.outstanding

def diagnostics (f : Feedback) : Option Diagnostics := f.primary.map (·.estimator.diagnostics)

end Feedback
end LossWatch
