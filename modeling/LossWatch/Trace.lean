import LossWatch.Draws
import LossWatch.Scenario

/-!
Traces of packets. Each flow sends at its own interval, and the numbers of the stream follow the
order of sending over all flows; of flows that would send at the same time the first goes first.
-/

namespace LossWatch

structure TracePacket where
  seq : SeqNumber
  flow : Nat
  flowSeq : SeqNumber
  sent : Timestamp
  /-- When it would arrive without jitter. -/
  nominal : Timestamp
  /-- When it arrives, unless it gets lost. -/
  arrival : Option Timestamp
deriving DecidableEq

/-- The place of a double among all doubles, negative NaNs first and positive NaNs last. -/
def Binary64.rank (x : Binary64) : Nat :=
  if x.negative then 18446744073709551615 - x.bits.toNat else x.bits.toNat + 9223372036854775808

/-- A sum in which a NaN stays the NaN it is. -/
def Binary64.plus (x y : Binary64) : Binary64 :=
  if x.isNaN then x else .ofFloat (x.toFloat + y.toFloat)

def Timestamp.ofMillisFloat (ms : Float) : Timestamp := .ofNat (ms * 1000.0).round.toUInt64.toNat

structure Sender where
  plan : FlowPlan
  nextSend : Binary64
  nextSeq : SeqNumber := .ofNat 0

namespace Sender

def ofPlan (p : FlowPlan) : Sender := { plan := p, nextSend := p.offset }

/-- The sender that is first to send, between those before and those after it. -/
def first? : List Sender → Option (List Sender × Sender × List Sender)
  | [] => none
  | s :: rest =>
    match first? rest with
    | none => some ([], s, rest)
    | some (before, t, after) =>
      if t.nextSend.rank < s.nextSend.rank then some (s :: before, t, after) else some ([], s, rest)

/-- Sends a packet as number `seq`. A draw is taken for the jitter and one for the loss, each only
if there is any. -/
def send (s : Sender) (seq : SeqNumber) (d : Draws) : TracePacket × Sender × Draws :=
  let sent := s.nextSend.toFloat
  let jitterBound := s.plan.jitter.toFloat
  let loss := s.plan.loss.toFloat
  let (jitter, d) := if 0.0 < jitterBound then d.below jitterBound else (0.0, d)
  let (lost, d) := if 0.0 < loss then let (x, d) := d.share; (x < loss, d) else (false, d)
  let arrival := sent + s.plan.delay.toFloat
  ({ seq, flow := s.plan.id, flowSeq := s.nextSeq, sent := .ofMillisFloat sent
     nominal := .ofMillisFloat arrival
     arrival := if lost then none else some (.ofMillisFloat (arrival + jitter)) },
   { s with nextSend := s.nextSend.plus s.plan.interval, nextSeq := s.nextSeq.next }, d)

end Sender

def traceFrom (senders : List Sender) (seq : SeqNumber) (d : Draws) : Nat → List TracePacket
  | 0 => []
  | n + 1 =>
    match Sender.first? senders with
    | none => []
    | some (before, s, after) =>
      let (packet, s, d) := s.send seq d
      packet :: traceFrom (before ++ s :: after) seq.next d n

def Scenario.trace (s : Scenario) (d : Draws) : List TracePacket :=
  traceFrom (s.flows.map .ofPlan) s.startSeq d s.packets

end LossWatch
