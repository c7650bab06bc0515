import LossWatch.SequenceNumber
import LossWatch.Time.Text
import LossWatch.Decimal.Fixed

/-!
What became of each recent sequence number. The ledger is a ring of slots; a number and all numbers
a multiple of the ring's size away share a slot, and a slot is never given back to an older number.
So the history is bounded: a number is forgotten when a newer one claims its slot, and a number
whose slot is taken by a newer one is stale.
-/

namespace LossWatch

inductive PacketStatus
  | received
  | assumedLost (declaredAt : Timestamp)
  /-- Declared lost before the packet arrived after all. -/
  | falsePositive (lateBy : Duration)
  /-- Declared lost and then repaired. -/
  | recovered
deriving DecidableEq

inductive Reception
  | fresh
  | falsePositive (lateBy : Duration)
  | recovered
  | duplicate
  | stale
deriving DecidableEq

structure LossTotals where
  received : Nat := 0
  assumedLost : Nat := 0
  falsePositives : Nat := 0
  /-- False positives withdrawn before a request for them left. -/
  withdrawn : Nat := 0
  recovered : Nat := 0
  /-- Declared losses that were forgotten without any arrival. -/
  confirmedLost : Nat := 0
  duplicates : Nat := 0
  stale : Nat := 0
  /-- Summed lateness of false positives in microseconds. -/
  lateMicros : Nat := 0
deriving DecidableEq

namespace LossTotals

def falsePositiveRate (t : LossTotals) : Float :=
  if t.assumedLost = 0 then 0.0
  else t.falsePositives.toUInt64.toFloat / t.assumedLost.toUInt64.toFloat

def meanLateness (t : LossTotals) : Duration :=
  if t.falsePositives = 0 then .zero else .ofMicros (t.lateMicros / t.falsePositives)

def text (t : LossTotals) : String :=
  s!"received={t.received} assumed_lost={t.assumedLost} false_positives={t.falsePositives} (" ++
  Decimal.fixed 2 (t.falsePositiveRate * 100.0) ++
  s!"%) removed_before_rtx={t.withdrawn} recovered={t.recovered} " ++
  s!"confirmed_lost={t.confirmedLost} duplicates={t.duplicates} mean_fp_delay=" ++
  t.meanLateness.text

end LossTotals

structure LedgerEntry where
  seq : SeqNumber
  status : PacketStatus
deriving DecidableEq

structure LossLedger where
  slots : Array (Option LedgerEntry)
  totals : LossTotals := {}

namespace LossLedger

/-- The power of two that holds `history` numbers, between 2 and the whole space. -/
def ringSize (history : Nat) : Nat := (max 2 (min history 65536)).nextPowerOfTwo

def ofHistory (history : Nat) : LossLedger := { slots := Array.replicate (ringSize history) none }

def initial : LossLedger := ofHistory 1024

def history (l : LossLedger) : Nat := l.slots.size

def index (l : LossLedger) (seq : SeqNumber) : Nat := seq.raw % l.slots.size

/-- What the number's slot holds, whosoever it is. -/
def occupant (l : LossLedger) (seq : SeqNumber) : Option LedgerEntry :=
  (l.slots[l.index seq]?).join

def status (l : LossLedger) (seq : SeqNumber) : Option PacketStatus :=
  ((l.occupant seq).filter (·.seq = seq)).map (·.status)

/-- The number's slot belongs to a newer one. -/
def overtaken (l : LossLedger) (seq : SeqNumber) : Bool :=
  (l.occupant seq).any (·.seq.newer seq)

/-- Another number's declared loss that a write for `seq` would push out. -/
def displacesLoss (l : LossLedger) (seq : SeqNumber) : Bool :=
  (l.occupant seq).any fun e =>
    e.seq ≠ seq && match e.status with | .assumedLost _ => true | _ => false

/-- Writes the status of `seq` unless a newer number owns the slot. -/
def store? (l : LossLedger) (seq : SeqNumber) (status : PacketStatus) : Option LossLedger :=
  if l.overtaken seq then none else
  some {
    slots := l.slots.setIfInBounds (l.index seq) (some ⟨seq, status⟩)
    totals := if l.displacesLoss seq
      then { l.totals with confirmedLost := l.totals.confirmedLost + 1 } else l.totals }

def tally (l : LossLedger) (f : LossTotals → LossTotals) : LossLedger :=
  { l with totals := f l.totals }

/-- Declares `seq` lost, unless something is known of it or its slot belongs to a newer number. -/
def assumeLost? (l : LossLedger) (now : Timestamp) (seq : SeqNumber) : Option LossLedger :=
  if (l.status seq).isSome then none else
  (l.store? seq (.assumedLost now)).map
    (·.tally fun t => { t with assumedLost := t.assumedLost + 1 })

def isAssumedLost (l : LossLedger) (seq : SeqNumber) : Bool :=
  match l.status seq with | some (.assumedLost _) => true | _ => false

def wasReceived (l : LossLedger) (seq : SeqNumber) : Bool :=
  match l.status seq with | some (.assumedLost _) | none => false | some _ => true

def isResolved (l : LossLedger) (seq : SeqNumber) : Bool := (l.status seq).isSome

def countStale (l : LossLedger) : LossLedger :=
  l.tally fun t => { t with stale := t.stale + 1 }

def countDuplicate (l : LossLedger) : LossLedger :=
  l.tally fun t => { t with duplicates := t.duplicates + 1 }

def recordFirst (l : LossLedger) (seq : SeqNumber) : Reception × LossLedger :=
  match l.store? seq .received with
  | some l => (.fresh, l.tally fun t => { t with received := t.received + 1 })
  | none => (.stale, l.countStale)

def receive (l : LossLedger) (now : Timestamp) (seq : SeqNumber) : Reception × LossLedger :=
  match l.status seq with
  | none => l.recordFirst seq
  | some (.assumedLost declaredAt) =>
    let lateBy := now.since declaredAt
    (.falsePositive lateBy,
      ((l.store? seq (.falsePositive lateBy)).getD l).tally fun t =>
        { t with
          received := t.received + 1
          falsePositives := t.falsePositives + 1
          lateMicros := t.lateMicros + lateBy.micros })
  | some _ => (.duplicate, l.countDuplicate)

def receiveRepair (l : LossLedger) (seq : SeqNumber) : Reception × LossLedger :=
  match l.status seq with
  | none => l.recordFirst seq
  | some (.assumedLost _) =>
    (.recovered, ((l.store? seq .recovered).getD l).tally fun t =>
      { t with received := t.received + 1, recovered := t.recovered + 1 })
  | some _ => (.duplicate, l.countDuplicate)

def noteWithdrawn (l : LossLedger) (seq : SeqNumber) : LossLedger :=
  match l.status seq with
  | some (.falsePositive _) => l.tally fun t => { t with withdrawn := t.withdrawn + 1 }
  | _ => l

/-- Forgets every number and keeps the totals. -/
def clearHistory (l : LossLedger) : LossLedger :=
  { l with slots := Array.replicate l.slots.size none }

def reset (l : LossLedger) : LossLedger := { l.clearHistory with totals := {} }

end LossLedger
end LossWatch
