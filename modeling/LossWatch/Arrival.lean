import LossWatch.SequenceNumber
import LossWatch.Time

/-!
What an estimator is told and what it says. It is told of arrivals and of expired timers; it says
which timers to arm and cancel, and which packets it takes for lost or finds wrongly taken for lost.
-/

namespace LossWatch

structure FlowPosition where
  flow : Nat
  flowSeq : SeqNumber
deriving DecidableEq

structure Arrival where
  seq : SeqNumber
  /-- Absent on a stream that has one path only. -/
  position : Option FlowPosition := none
deriving DecidableEq

namespace Arrival

def onFlow (seq : SeqNumber) (flow : Nat) (flowSeq : SeqNumber) : Arrival :=
  ⟨seq, some ⟨flow, flowSeq⟩⟩

def flow? (a : Arrival) : Option Nat := a.position.map (·.flow)

end Arrival

inductive LossEvent
  /-- Taken for lost; the flow position is known if the loss was read off a flow's numbering. -/
  | lost (seq : SeqNumber) (position : Option FlowPosition)
  | falsePositive (seq : SeqNumber) (position : Option FlowPosition)
deriving DecidableEq

namespace LossEvent

def seq : LossEvent → SeqNumber
  | lost s _ | falsePositive s _ => s

def isLost : LossEvent → Bool
  | lost .. => true
  | falsePositive .. => false

def text (e : LossEvent) : String :=
  let (label, seq, position) := match e with
    | lost s p => ("Lost", s, p)
    | falsePositive s p => ("FalsePositive", s, p)
  match position with
  | some p => s!"{label}({seq}, flow={p.flow}, fssn={p.flowSeq})"
  | none => s!"{label}({seq})"

end LossEvent

inductive TimerKey
  | basic
  /-- The cross-path timer for the next packet at its fastest-flow time. -/
  | short
  /-- The cross-path safety timer of one packet past its short deadline. -/
  | long (seq : SeqNumber)
deriving DecidableEq

inductive Action
  | arm (key : TimerKey) (deadline : Timestamp)
  | cancel (key : TimerKey)
  | emit (event : LossEvent)
deriving DecidableEq

namespace Action

def armed? : Action → Option Timestamp
  | arm _ deadline => some deadline
  | _ => none

end Action

def armedDeadlines (as : List Action) : List Timestamp := as.filterMap Action.armed?

end LossWatch
