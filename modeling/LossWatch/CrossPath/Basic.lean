import LossWatch.CrossPath.Phase
import LossWatch.Diagnostics
import LossWatch.Flow
import LossWatch.Predictor
import LossWatch.Step

/-!
The state of the cross-path estimator: two predictors, the flows and their ranking, the anchor from
which arrivals on the fastest flow are projected, one short timer and the outstanding long timers.
-/

namespace LossWatch

structure CrossPathConfig where
  window : Nat := 16
  /-- Records every flow must have before flows are ranked. -/
  minFlowSamples : Nat := 3
  guard : Duration := .ofMillis 1
  /-- This many losses in a row declared by long timers reset the estimator. -/
  maxConsecutiveLosses : Nat := 500
  /-- A longer step of numbers is neither sampled nor covered. -/
  maxGap : Nat := 512

namespace CrossPathConfig

def validate (c : CrossPathConfig) : Except ConfigFault Unit :=
  if c.window = 0 then .error .flowWindow
  else if c.minFlowSamples < 2 || c.window < c.minFlowSamples then
    .error (.minFlowSamples c.window c.minFlowSamples)
  else if c.maxConsecutiveLosses = 0 then .error .maxConsecutiveLosses
  else .ok ()

end CrossPathConfig

/-- The newest arrival on the fastest flow. -/
structure Anchor where
  seq : SeqNumber
  time : Timestamp
deriving DecidableEq

structure ShortTimer where
  expected : SeqNumber
  deadline : Timestamp
  /-- Armed by an expiry, not by an arrival. -/
  timerDriven : Bool
deriving DecidableEq

/-- Outstanding long timers with their deadlines, by ascending raw number. -/
abbrev LongTimers := List (SeqNumber × Timestamp)

namespace LongTimers

def has (l : LongTimers) (seq : SeqNumber) : Bool := l.any (·.1 = seq)

def erase (l : LongTimers) (seq : SeqNumber) : LongTimers := l.filter (·.1 ≠ seq)

def insert (l : LongTimers) (seq : SeqNumber) (deadline : Timestamp) : LongTimers :=
  l.filter (·.1.rawLess seq) ++ (seq, deadline) :: l.filter (seq.rawLess ·.1)

end LongTimers

structure CrossCounters where
  predictions : Nat := 0
  shortTimeouts : Nat := 0
  longTimeouts : Nat := 0
  losses : Nat := 0
  falsePositives : Nat := 0
  resets : Nat := 0
  /-- Arrivals that caught up with a timer-driven short timer. -/
  resyncs : Nat := 0
  /-- Returns to learning the path difference. -/
  regressions : Nat := 0
  lateLongExpiries : Nat := 0
deriving DecidableEq

structure CrossPath where
  config : CrossPathConfig
  /-- Predicts the interval per step of number on the fastest flow. -/
  delta : Predictor
  /-- Predicts how much later than projected a packet arrives on another flow. -/
  cross : Predictor
  flows : FlowTable
  ledger : LossLedger := .initial
  phase : CrossPhase := .learnFlowOrder
  /-- Flow ids, the fastest first; empty until ranked. -/
  order : List Nat := []
  /-- Smoothed interval per step of number on the fastest flow, in microseconds. -/
  nominalDelta : Float := 0.0
  anchor : Option Anchor := none
  /-- The number awaited on another flow while the path difference is learned. -/
  awaited : Option SeqNumber := none
  short : Option ShortTimer := none
  long : LongTimers := []
  maxSeen : Option SeqNumber := none
  consecutiveLosses : Nat := 0
  counters : CrossCounters := {}
  stopped : Bool := false

namespace CrossPath

def label : String := "cross-path"

def build (predictor : PredictorConfig) (config : CrossPathConfig) :
    Except ConfigFault CrossPath := do
  config.validate
  let p ← predictor.build
  return { config, delta := p, cross := p, flows := { window := config.window } }

def fastest? (s : CrossPath) : Option Nat := s.order.head?
def expected (s : CrossPath) : Option SeqNumber := s.short.map (·.expected)
def shortDeadline (s : CrossPath) : Option Timestamp := s.short.map (·.deadline)
def hasLong (s : CrossPath) (seq : SeqNumber) : Bool := s.long.has seq

@[inline] def count (s : CrossPath) (f : CrossCounters → CrossCounters) : CrossPath :=
  { s with counters := f s.counters }

def advance (s : CrossPath) (trigger : CrossTrigger) : CrossPath :=
  match s.phase.next trigger with
  | none => s
  | some phase =>
    let s := if trigger = .referenceLost
      then s.count fun c => { c with regressions := c.regressions + 1 } else s
    { s with phase }

end CrossPath
end LossWatch
