import LossWatch.CrossPath.Timers

/-!
The cross-path estimator, for several flows that carry one space of numbers. Arrivals drive it from
ranking the flows through learning how they differ to the two running timers.
-/

namespace LossWatch

structure CrossDiagnostics where
  phase : CrossPhase
  order : List Nat
  delta : Option Duration
  cross : Option Duration
  longTimers : Nat
  resyncs : Nat
  regressions : Nat
  flows : List FlowTotals

namespace CrossPath

/-- The first arrivals: only the ranking is awaited, and the windows hold this arrival already. -/
def learn (s : CrossPath) (seq : SeqNumber) (flow : Nat) : Step CrossPath :=
  match s.learnFlowOrder? with
  | none => .stay s
  | some ranked => ranked.alter fun s =>
    let s := s.advance .flowOrderLearned
    if s.fastest? = some flow then s.anchorReference seq else s

/-- The fastest flow is awaited with both predictors ready. -/
def tryStart (s : CrossPath) (now : Timestamp) (seq : SeqNumber) (update : FlowUpdate) :
    Step CrossPath :=
  if 0 < update.gap then .stay (s.loseReference.anchorReference seq)
  else if s.delta.isReady && s.cross.isReady then
    (s.advance .predictorsReady).armShort now (s.maxSeen.getD seq).next false
  else .stay s

def keepRunning (s : CrossPath) (now : Timestamp) (seq : SeqNumber) (o : Observation) :
    Step CrossPath :=
  let s := match o with
    | .delta => s.advance .deltaSample
    | .cross => s.advance .crossSample
    | .stale => s
  s.reconcileShort now seq

def dispatch (s : CrossPath) (now : Timestamp) (seq : SeqNumber) (onFastest : Bool)
    (update : FlowUpdate) (o : Observation) : Step CrossPath :=
  match s.phase with
  | .learnFlowOrder => .stay s
  | .learnPathDifference =>
    .stay (if onFastest && o = .delta then s.anchorReference seq else s)
  | .learnAwaitingAlternate => .stay (s.awaitAlternate seq onFastest update)
  | .estAwaitingFastest => if onFastest then s.tryStart now seq update else .stay s
  | .estRunningA | .estRunningB => s.keepRunning now seq o

/-- The arrival is recorded in its flow and then used as the phase says. -/
def follow (s : CrossPath) (now : Timestamp) (seq : SeqNumber) (position : FlowPosition) :
    Step CrossPath :=
  let (update, flows) := s.flows.record position.flow ⟨seq, position.flowSeq, now⟩
  let s := { s with flows }
  let read := if s.phase.isRunning then .stay s else s.declareFlowGap now seq position update
  read.andThen fun s =>
    if s.phase = .learnFlowOrder then s.learn seq position.flow else
    let (o, observed) := s.observe now seq position.flow
    observed.andThen fun s =>
      s.dispatch now seq (s.fastest? = some position.flow) update o

def accept (s : CrossPath) (now : Timestamp) (seq : SeqNumber) (position : FlowPosition) :
    Step CrossPath :=
  let s := { s with
    consecutiveLosses := 0
    maxSeen := match s.maxSeen with
      | none => some seq
      | some newest => some (if seq.newer newest then seq else newest) }
  (s.settleLong seq).andThen fun s => s.follow now seq position

def onArrival (s : CrossPath) (now : Timestamp) (a : Arrival) : Step CrossPath :=
  if s.stopped then .stay s else
  let position := a.position.getD ⟨0, a.seq⟩
  let (reception, ledger) := s.ledger.receive now a.seq
  let s := { s with ledger }
  match reception with
  | .duplicate | .stale => .stay s
  | .falsePositive _ =>
    (Step.act (s.count fun c => { c with falsePositives := c.falsePositives + 1 })
      (.emit (.falsePositive a.seq (some position)))).andThen fun s => s.accept now a.seq position
  | .fresh | .recovered => s.accept now a.seq position

/-- A repair settles its number and teaches the models nothing. -/
def onRepair (s : CrossPath) (a : Arrival) : Step CrossPath :=
  if s.stopped then .stay s else
  { s with ledger := (s.ledger.receiveRepair a.seq).2 }.settleLong a.seq

def onTimeout (s : CrossPath) (now : Timestamp) (key : TimerKey) : Step CrossPath :=
  if s.stopped then .stay s else
  match key with
  | .short => s.onShortTimeout now
  | .long seq => s.onLongTimeout now seq
  | .basic => .stay s

def noteWithdrawn (s : CrossPath) (seq : SeqNumber) : CrossPath :=
  { s with ledger := s.ledger.noteWithdrawn seq }

def reset (s : CrossPath) : Step CrossPath :=
  s.fullReset.alter fun s => { s with stopped := false }

def stop (s : CrossPath) : Step CrossPath :=
  s.cancelTimers.alter fun s => { s with stopped := true }

def diagnostics (s : CrossPath) : Diagnostics where
  phase := s.phase.name
  errorStdDev := s.delta.errorStdDev
  consecutiveLosses := s.consecutiveLosses
  predictions := s.counters.predictions
  timeouts := s.counters.shortTimeouts + s.counters.longTimeouts
  losses := s.counters.losses
  falsePositives := s.counters.falsePositives
  resets := s.counters.resets

def crossDiagnostics (s : CrossPath) : CrossDiagnostics where
  phase := s.phase
  order := s.order
  delta := if s.delta.isReady then some s.delta.prediction else none
  cross := if s.cross.isReady then some s.cross.prediction else none
  longTimers := s.long.length
  resyncs := s.counters.resyncs
  regressions := s.counters.regressions
  flows := s.flows.totals

def summary (s : CrossPath) : List Notice :=
  .lossTotals label s.ledger.totals ::
  .crossTotals label s.phase.name s.order s.delta.errorStdDev s.cross.errorStdDev
    s.counters.shortTimeouts s.counters.longTimeouts s.counters.lateLongExpiries
    s.counters.resyncs s.counters.regressions s.counters.resets ::
  s.flows.totals.map (.flowTotals label)

end CrossPath
end LossWatch
