import LossWatch.Diagnostics
import LossWatch.Predictor
import LossWatch.Step

/-!
The single-path estimator. It learns the interval between the packets of one stream and keeps one
timer for the next packet it expects. Numbers skipped by a forward jump are declared lost at once;
the timer covers the tail of a burst and a stall, and a long enough run of losses declared by the
timer resets the estimator.
-/

namespace LossWatch

structure SinglePathConfig where
  /-- Slack added to each predicted arrival. -/
  guard : Duration := .ofMillis 1
  /-- This many losses in a row declared by the timer reset the estimator. -/
  maxConsecutiveLosses : Nat := 500
  /-- A longer jump is no gap but a new start. -/
  maxGapFill : Nat := 512

inductive SinglePhase
  | idle
  /-- Still learning the interval. -/
  | predicting
  | armed
  /-- The expected packet is there and no timer is armed yet. -/
  | resolved
deriving DecidableEq

def SinglePhase.name : SinglePhase → String
  | idle => "IDLE"
  | predicting => "PREDICTING"
  | armed => "TIMER_ARMED"
  | resolved => "RESOLVED"

/-- The armed timer: the packet it waits for, when that is due, and the deadline with its guard. -/
structure ExpectedPacket where
  seq : SeqNumber
  due : Timestamp
  deadline : Timestamp
deriving DecidableEq

structure SingleCounters where
  predictions : Nat := 0
  timeouts : Nat := 0
  losses : Nat := 0
  falsePositives : Nat := 0
  resets : Nat := 0
  discontinuities : Nat := 0
deriving DecidableEq

structure SinglePath where
  config : SinglePathConfig
  predictor : Predictor
  ledger : LossLedger := .initial
  phase : SinglePhase := .idle
  maxSeen : Option SeqNumber := none
  lastArrival : Timestamp := .zero
  pending : Option ExpectedPacket := none
  consecutiveLosses : Nat := 0
  counters : SingleCounters := {}
  stopped : Bool := false

namespace SinglePath

def label : String := "single-path"

def build (predictor : PredictorConfig) (config : SinglePathConfig) :
    Except ConfigFault SinglePath :=
  predictor.build.map fun p => { config, predictor := p }

def expected (s : SinglePath) : Option SeqNumber := s.pending.map (·.seq)
def deadline (s : SinglePath) : Option Timestamp := s.pending.map (·.deadline)

@[inline] def count (s : SinglePath) (f : SingleCounters → SingleCounters) : SinglePath :=
  { s with counters := f s.counters }

def disarm (s : SinglePath) : Step SinglePath :=
  match s.pending with
  | some _ => .act { s with pending := none } (.cancel .basic)
  | none => .stay s

def arm (s : SinglePath) (now : Timestamp) (seq : SeqNumber) (due : Timestamp) :
    Step SinglePath :=
  let deadline := now.futureDeadline (due.after s.config.guard)
  s.disarm.andThen fun s =>
    .act { s with pending := some ⟨seq, due, deadline⟩, phase := .armed } (.arm .basic deadline)

def armFromPrediction (s : SinglePath) (now : Timestamp) : Step SinglePath :=
  match s.maxSeen with
  | none => .stay s
  | some last =>
    if s.predictor.isReady then
      (s.count fun c => { c with predictions := c.predictions + 1 }).arm now last.next
        (s.lastArrival.after s.predictor.prediction)
    else s.disarm.alter fun s => { s with phase := .predicting }

def declareLost (now : Timestamp) (seq : SeqNumber) (s : SinglePath) : Step SinglePath :=
  match s.ledger.assumeLost? now seq with
  | none => .stay s
  | some ledger =>
    .act ({ s with ledger }.count fun c => { c with losses := c.losses + 1 })
      (.emit (.lost seq none))

/-- Starts over; only the counters and the ledger's totals are kept. -/
def fullReset (s : SinglePath) : Step SinglePath :=
  s.disarm.alter fun s =>
    { s with
      predictor := s.predictor.reset
      ledger := s.ledger.clearHistory
      maxSeen := none
      lastArrival := .zero
      consecutiveLosses := 0
      counters := { s.counters with resets := s.counters.resets + 1 }
      phase := .idle }

/-- Moves the newest number forward to `seq`: one sample for the predictor and the skipped numbers
declared lost, or a new start if the jump is too long. -/
def advance (s : SinglePath) (now : Timestamp) (seq : SeqNumber) : Step SinglePath :=
  match s.maxSeen with
  | none => .stay { s with maxSeen := some seq, lastArrival := now, phase := .predicting }
  | some last =>
    if seq.newer last then
      let gap := (last.distance seq).toNat
      let moved : Step SinglePath :=
        if s.config.maxGapFill < gap then
          (Step.note (s.count fun c => { c with discontinuities := c.discontinuities + 1 })
            (.discontinuity last seq gap)).andThen disarm
        else
          Step.forEach (declareLost now) (last.between seq)
            { s with predictor := s.predictor.insert ((now.since s.lastArrival).share gap) }
      moved.alter fun s => { s with maxSeen := some seq, lastArrival := now }
    else .stay s

/-- Nothing is expected, or nothing older than `seq`. -/
def satisfiedBy (s : SinglePath) (seq : SeqNumber) : Bool :=
  match s.pending with
  | none => true
  | some p => seq.newerOrEqual p.seq

/-- A recorded arrival: the newest number moves, and so does the timer unless it waits for a later
number. -/
def accept (s : SinglePath) (now : Timestamp) (seq : SeqNumber) : Step SinglePath :=
  ({ s with consecutiveLosses := 0 }.advance now seq).andThen fun s =>
    if s.satisfiedBy seq then s.armFromPrediction now else .stay s

def onArrival (s : SinglePath) (now : Timestamp) (a : Arrival) : Step SinglePath :=
  if s.stopped then .stay s else
  let (reception, ledger) := s.ledger.receive now a.seq
  let s := { s with ledger }
  match reception with
  | .duplicate | .stale => .stay s
  | .falsePositive _ =>
    (Step.act (s.count fun c => { c with falsePositives := c.falsePositives + 1 })
      (.emit (.falsePositive a.seq a.position))).andThen fun s => s.accept now a.seq
  | .fresh | .recovered => s.accept now a.seq

/-- A repair settles its number and teaches the predictor nothing. -/
def onRepair (s : SinglePath) (a : Arrival) : Step SinglePath :=
  if s.stopped then .stay s else
  .stay { s with ledger := (s.ledger.receiveRepair a.seq).2 }

/-- After a miss: too long a run of losses resets the estimator, else the next number is due one
prediction after the missed one. -/
def afterMiss (s : SinglePath) (now : Timestamp) (p : ExpectedPacket) : Step SinglePath :=
  if s.config.maxConsecutiveLosses ≤ s.consecutiveLosses then
    (Step.note s (.lossStreak label s.consecutiveLosses)).andThen fullReset
  else s.arm now p.seq.next (p.due.after s.predictor.prediction)

/-- The expected packet has not come in time and is declared lost, unless something else is known of
it. -/
def miss (s : SinglePath) (now : Timestamp) (p : ExpectedPacket) : Step SinglePath :=
  let declared := s.declareLost now p.seq
  let consecutiveLosses :=
    if declared.actions.isEmpty then s.consecutiveLosses else s.consecutiveLosses + 1
  (declared.alter fun s => { s with consecutiveLosses }).andThen fun s => s.afterMiss now p

def onTimeout (s : SinglePath) (now : Timestamp) (key : TimerKey) : Step SinglePath :=
  if s.stopped || key ≠ .basic then .stay s else
  match s.pending with
  | none => .stay s
  | some p =>
    let s := { s with pending := none }.count fun c => { c with timeouts := c.timeouts + 1 }
    if s.ledger.wasReceived p.seq then { s with phase := .resolved }.armFromPrediction now
    else s.miss now p

def noteWithdrawn (s : SinglePath) (seq : SeqNumber) : SinglePath :=
  { s with ledger := s.ledger.noteWithdrawn seq }

def reset (s : SinglePath) : Step SinglePath :=
  s.fullReset.alter fun s => { s with stopped := false }

def stop (s : SinglePath) : Step SinglePath :=
  s.disarm.alter fun s => { s with stopped := true, phase := .idle }

def diagnostics (s : SinglePath) : Diagnostics where
  phase := s.phase.name
  errorStdDev := s.predictor.errorStdDev
  consecutiveLosses := s.consecutiveLosses
  predictions := s.counters.predictions
  timeouts := s.counters.timeouts
  losses := s.counters.losses
  falsePositives := s.counters.falsePositives
  resets := s.counters.resets

def summary (s : SinglePath) : List Notice :=
  [.lossTotals label s.ledger.totals,
    .singleTotals label s.predictor.name s.predictor.errorStdDev s.counters.predictions
      s.counters.timeouts s.counters.resets s.counters.discontinuities]

end SinglePath
end LossWatch
