import LossWatch.SequenceNumber

/-!
The lists that wait for the next feedback report: numbers to be reported lost, each at most once,
and numbers to be acknowledged, as often as they were received.
-/

namespace LossWatch

structure PendingLists where
  lost : List SeqNumber := []
  received : Array SeqNumber := #[]
deriving DecidableEq

namespace PendingLists

/-- Queues `seq` unless it is queued; tells whether it did. -/
def addLost (p : PendingLists) (seq : SeqNumber) : Bool × PendingLists :=
  if seq ∈ p.lost then (false, p) else (true, { p with lost := p.lost ++ [seq] })

/-- Withdraws `seq`; tells whether it was queued. -/
def removeLost (p : PendingLists) (seq : SeqNumber) : Bool × PendingLists :=
  if seq ∈ p.lost then (true, { p with lost := p.lost.erase seq }) else (false, p)

def addReceived (p : PendingLists) (seq : SeqNumber) : PendingLists :=
  { p with received := p.received.push seq }

def takeLost (p : PendingLists) : List SeqNumber × PendingLists := (p.lost, { p with lost := [] })

def takeReceived (p : PendingLists) : Array SeqNumber × PendingLists :=
  (p.received, { p with received := #[] })

def isEmpty (p : PendingLists) : Bool := p.lost.isEmpty && p.received.isEmpty

end PendingLists
end LossWatch
