import LossWatch.Report
import LossWatch.Time.Cadence
import LossWatch.Trace
import Std.Data.HashMap

/-!
The replay of a trace in virtual time. Packets reach the receiver in the order of their arrival;
between them timers fire and reports leave, each at its own time. Every number reported lost is
repaired one round trip later. At the end the declarations are held against the losses of the trace.
-/

namespace LossWatch

/-- A packet on its way: a first sending, or its repair. -/
structure Shipment where
  time : Timestamp
  index : Nat
  isRepair : Bool

structure Replay where
  feedback : Feedback
  trace : Array TracePacket
  /-- The place of a number in the trace, its last if there are several. -/
  places : Std.HashMap Nat Nat
  /-- When a packet of the trace was first declared lost. -/
  declared : Std.HashMap Nat Timestamp := ∅
  /-- By time, and in order of sending at equal times. -/
  queue : List Shipment
  cadence : Cadence
  rtxRtt : Duration
  /-- Picks one of several equally old requests, should one have to go for a new one. -/
  tie : Timestamp → SeqNumber → Nat
  horizon : Timestamp
  report : Report := {}

namespace Replay

/-- The time after the last delivery in which timers may still fire. -/
def drainTail : Duration := .ofSeconds 1

def shipmentsOf (trace : List TracePacket) : List Shipment :=
  trace.zipIdx.filterMap fun (p, index) => p.arrival.map fun time => ⟨time, index, false⟩

def start (s : Scenario) (feedback : Feedback) (trace : List TracePacket)
    (tie : Timestamp → SeqNumber → Nat := fun _ _ => 0) : Replay :=
  let shipments := shipmentsOf trace
  let lastTime := ((trace.map (·.nominal)) ++ shipments.map (·.time)).foldl max .zero
  { feedback
    trace := trace.toArray
    places := trace.zipIdx.foldl (fun m (p, index) => m.insert p.seq.raw index) ∅
    queue := shipments.mergeSort (·.time ≤ ·.time)
    cadence := ⟨s.reportInterval, .zero⟩
    rtxRtt := s.rtxRtt
    tie
    horizon := lastTime.after drainTail }

def place? (r : Replay) (seq : SeqNumber) : Option Nat := r.places[seq.raw]?

/-- Notes which packets of the trace are now declared lost; only the first time counts. -/
def record (r : Replay) (now : Timestamp) (events : List LossEvent) : Replay :=
  { r with
    declared := (events.filter (·.isLost)).foldl (fun m e =>
      match r.place? e.seq with
      | some index => m.insertIfNew index now
      | none => m) r.declared }

@[inline] def tally (r : Replay) (f : Report → Report) : Replay := { r with report := f r.report }

def ship (r : Replay) (s : Shipment) : Replay :=
  let queue := r.queue.takeWhile (·.time ≤ s.time) ++ s :: r.queue.dropWhile (·.time ≤ s.time)
  { r with queue }

/-- Reports one number lost at `now` and has it repaired; a number that was never sent cannot be. -/
def nack (now : Timestamp) (r : Replay) (seq : SeqNumber) : Replay :=
  match r.place? seq with
  | none => r.tally fun t => { t with strayNacks := t.strayNacks + 1 }
  | some index =>
    let r := r.tally fun t => { t with nacksSent := t.nacksSent + 1 }
    match r.feedback.onRequest now seq none (r.tie now seq) with
    | .ok feedback => { r with feedback }.ship ⟨now.after r.rtxRtt, index, true⟩
    | .error _ => r

def sendReport (r : Replay) (now : Timestamp) : Replay :=
  match r.cadence.fire now with
  | (false, _) => r
  | (true, cadence) =>
    let (received, feedback) := r.feedback.takeReceived
    let (lost, feedback) := feedback.takeLost
    let r := { r with cadence, feedback }.tally fun t =>
      { t with reports := t.reports + 1, acksSent := t.acksSent + received.size }
    lost.foldl (nack now) r

def pollTimers (r : Replay) (now : Timestamp) : Replay :=
  let reply := r.feedback.pollTimers now
  { r with feedback := reply.feedback }.record now reply.value

inductive Happening
  | timers (time : Timestamp)
  | report (time : Timestamp)

/-- What happens next, if anything does before `limit`. A report goes before timers due with it. -/
def upcoming (r : Replay) (limit : Timestamp) : Option Happening :=
  let tick := r.cadence.next
  match r.feedback.nextDeadline with
  | some deadline =>
    if deadline < tick then (if deadline < limit then some (.timers deadline) else none)
    else if tick < limit then some (.report tick) else none
  | none => if tick < limit then some (.report tick) else none

def perform (r : Replay) : Happening → Replay
  | .timers time => r.pollTimers time
  | .report time => r.sendReport time

/-- How far the next report and the next timer lie before `limit`. -/
def distance (r : Replay) (limit : Timestamp) : Nat :=
  let timers := match r.feedback.nextDeadline with
    | some deadline => limit.micros - deadline.micros
    | none => 0
  (limit.micros - r.cadence.next.micros) + timers

def advanceBy (limit : Timestamp) : Nat → Replay → Replay
  | 0, r => r
  | n + 1, r =>
    match r.upcoming limit with
    | none => r
    | some happening => advanceBy limit n (r.perform happening)

/-- Lets all happen that is due before `limit`. Whatever happens moves the next one of its kind on,
so that no more than `distance` things happen. -/
def advance (r : Replay) (limit : Timestamp) : Replay := advanceBy limit (r.distance limit) r

def deliver (r : Replay) (s : Shipment) : Replay :=
  match r.trace[s.index]? with
  | none => r
  | some packet =>
    let arrival := Arrival.onFlow packet.seq packet.flow packet.flowSeq
    if s.isRepair then
      match r.feedback.onRepair s.time arrival with
      | .ok reply =>
        let r := { r with feedback := reply.feedback }
        match reply.value with
        | .recovered _ => r.tally fun t => { t with repaired := t.repaired + 1 }
        | _ => r
      | .error _ => r
    else
      let r := r.tally fun t => { t with delivered := t.delivered + 1 }
      match r.feedback.onArrival s.time arrival with
      | .ok reply => { r with feedback := reply.feedback }.record s.time reply.value
      | .error _ => r

/-- Takes the first shipment, lets pass what is due before it, and delivers it. Repairs ordered in
between wait until it is delivered, even those that would arrive before it. -/
def next? (r : Replay) : Option (Shipment × Replay) :=
  match r.queue with
  | [] => none
  | s :: queue =>
    let r := ({ r with queue }.advance s.time).deliver s
    some (s, { r with horizon := max r.horizon (s.time.after drainTail) })

def deliverAll : Nat → Replay → Replay
  | 0, r => r
  | n + 1, r =>
    match r.next? with
    | none => r
    | some (_, r) => deliverAll n r

/-- No run delivers more. Losses are declared when a first sending arrives, at most one for each
other number, and by timers, up to the ceiling until the next first sending; only they are
repaired. -/
def deliveryLimit (r : Replay) : Nat :=
  let ceiling := (r.feedback.primary.map (·.estimator.lossCeiling)).getD 0
  r.trace.size * (ceiling + 65537)

def judge (r : Replay) (t : Report) (index : Nat) (p : TracePacket) : Report :=
  match p.arrival, r.declared[index]? with
  | none, some time =>
    { t with
      trueLosses := t.trueLosses + 1
      detectedLosses := t.detectedLosses + 1
      detectionDelayMicros := t.detectionDelayMicros + (time.since p.nominal).micros }
  | none, none => { t with trueLosses := t.trueLosses + 1, missedLosses := t.missedLosses + 1 }
  | some _, some _ => { t with falsePositives := t.falsePositives + 1 }
  | some _, none => t

/-- The report of a run that is over: what is still pending leaves last. -/
def finish (r : Replay) : Report :=
  let (received, feedback) := r.feedback.takeReceived
  let (lost, feedback) := feedback.takeLost
  let known := (lost.filter fun seq => (r.place? seq).isSome).length
  let t := r.trace.toList.zipIdx.foldl (fun t (p, index) => r.judge t index p) r.report
  let primary := feedback.primary.map (·.estimator)
  { t with
    estimator := (primary.map (·.name)).getD "none"
    packetsSent := r.trace.size
    acksSent := t.acksSent + received.size
    nacksSent := t.nacksSent + known
    strayNacks := t.strayNacks + (lost.length - known)
    feedback := feedback.shutDown.feedback.stats
    diagnostics := primary.map (·.diagnostics)
    flows := ((primary.bind (·.asCross?)).map (·.flows.totals)).getD []
    duration := r.horizon.since .zero }

def run (r : Replay) : Report :=
  let r := deliverAll r.deliveryLimit r
  (r.advance r.horizon).finish

end Replay

namespace Scenario

def replay (s : Scenario) (trace : List TracePacket)
    (tie : Timestamp → SeqNumber → Nat := fun _ _ => 0) : Except ScenarioFault Report := do
  s.validate
  let reply ← (Feedback.ofCapabilities (← s.session)).mapError .feedback
  return (Replay.start s reply.feedback trace tie).run

def simulate (s : Scenario) (d : Draws) : Except ScenarioFault Report := do
  s.validate
  s.replay (s.trace d)

def draws (s : Scenario) (otherwise : Nat) : Draws := .ofSeed (s.seed.getD otherwise)

end Scenario
end LossWatch
