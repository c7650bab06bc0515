import LossWatch.Notice

/-!
The last arrivals on each flow. A flow appears with its first arrival. Its numbering is followed by
the newest flow-local number: a forward step that skips numbers is a gap, and an arrival that is not
ahead is reordered. The table lists flows in the order of their first arrivals.
-/

namespace LossWatch

structure ArrivalRecord where
  seq : SeqNumber
  flowSeq : SeqNumber
  time : Timestamp
deriving DecidableEq

structure FlowUpdate where
  newFlow : Bool := false
  /-- Flow-local numbers skipped. -/
  gap : Nat := 0
  /-- The flow's newest global number before the skipped ones. -/
  gapAfter : Option SeqNumber := none
  reordered : Bool := false
deriving DecidableEq

structure Flow where
  id : Nat
  capacity : Nat
  firstArrival : Timestamp
  totals : FlowTotals
  /-- At most `capacity` records, the oldest arrival first. -/
  window : List ArrivalRecord := []
  maxSeq : Option SeqNumber := none
  maxFlowSeq : Option SeqNumber := none

namespace Flow

def create (id capacity : Nat) (firstArrival : Timestamp) : Flow :=
  { id, capacity := max capacity 1, firstArrival, totals := { flow := id } }

/-- How many flow-local numbers the record steps forward, if it does. -/
def advanceBy (f : Flow) (r : ArrivalRecord) : Option Nat :=
  match f.maxFlowSeq with
  | none => none
  | some newest => if r.flowSeq.newer newest then some (newest.distance r.flowSeq).toNat else none

def updateFor (f : Flow) (r : ArrivalRecord) : FlowUpdate :=
  match f.advanceBy r with
  | some n => { gap := n - 1, gapAfter := if 1 < n then f.maxSeq else none }
  | none => { reordered := f.maxFlowSeq.isSome }

def record (f : Flow) (r : ArrivalRecord) : FlowUpdate × Flow :=
  let update := f.updateFor r
  (update, { f with
    maxFlowSeq := if update.reordered then f.maxFlowSeq else some r.flowSeq
    maxSeq := match f.maxSeq with
      | none => some r.seq
      | some newest => some (if r.seq.newer newest then r.seq else newest)
    window := (if f.window.length = f.capacity then f.window.drop 1 else f.window) ++ [r]
    totals := { f.totals with
      packets := f.totals.packets + 1
      gaps := f.totals.gaps + update.gap
      reordered := f.totals.reordered + if update.reordered then 1 else 0
      lastArrival := some r.time } })

def size (f : Flow) : Nat := f.window.length
def newest (f : Flow) : Option ArrivalRecord := f.window.getLast?
def oldest (f : Flow) : Option ArrivalRecord := f.window.head?

/-- Microseconds per step of global number across the window; unknown until the window spans a
forward step. -/
def averageDelta (f : Flow) : Option Float := do
  let first ← f.oldest
  let last ← f.newest
  let steps := first.seq.distance last.seq
  if steps ≤ 0 then none
  else
    let span := (Int64.ofInt (last.time.signedSince first.time)).toInt
    some (Decimal.wholeToFloat span / Float.ofInt steps)

/-- When this flow would have carried `reference`, in microseconds: its newest arrival, moved by
the way between the two numbers at `delta` microseconds a step. -/
def virtualTime (f : Flow) (reference : SeqNumber) (delta : Float) : Option Float := do
  let last ← f.newest
  some (last.time.micros.toUInt64.toFloat - Float.ofInt (reference.distance last.seq) * delta)

end Flow

structure FlowTable where
  window : Nat
  flows : List Flow := []

namespace FlowTable

def get? (t : FlowTable) (id : Nat) : Option Flow := t.flows.find? (·.id = id)

/-- Records an arrival in the flow of this id, at its place in the list. -/
def recordIn (id : Nat) (r : ArrivalRecord) : List Flow → FlowUpdate × List Flow
  | [] => ({}, [])
  | f :: fs =>
    if f.id = id then
      let (update, f) := f.record r
      (update, f :: fs)
    else
      let (update, fs) := recordIn id r fs
      (update, f :: fs)

def record (t : FlowTable) (id : Nat) (r : ArrivalRecord) : FlowUpdate × FlowTable :=
  let isNew := (t.get? id).isNone
  let flows := if isNew then t.flows ++ [Flow.create id t.window r.time] else t.flows
  let (update, flows) := recordIn id r flows
  ({ update with newFlow := isNew }, { t with flows })

def size (t : FlowTable) : Nat := t.flows.length

def allHaveSamples (t : FlowTable) (least : Nat) : Bool :=
  !t.flows.isEmpty && t.flows.all (least ≤ ·.size)

def totals (t : FlowTable) : List FlowTotals := t.flows.map (·.totals)

def clear (t : FlowTable) : FlowTable := { t with flows := [] }

end FlowTable
end LossWatch
