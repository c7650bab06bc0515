import LossWatch.CrossPath.Models

/-!
The two timers. The short timer waits for each number until its time on the fastest flow; when it
expires, a long timer for that number adds the wait for another path, and only that one declares the
number lost. An arrival that passes the short timer's number moves the short timer on and leaves
long timers for the numbers between.
-/

namespace LossWatch.CrossPath

def dropShort (s : CrossPath) : Step CrossPath :=
  match s.short with
  | some _ => .act { s with short := none } (.cancel .short)
  | none => .stay s

/-- Arms the short timer for `expected`, due at the anchor's time plus one predicted interval per
step. -/
def armShort (s : CrossPath) (now : Timestamp) (expected : SeqNumber) (timerDriven : Bool) :
    Step CrossPath :=
  match s.anchor with
  | none => .stay s
  | some anchor =>
    let delta := Timestamp.signedWord s.delta.prediction.micros
    let due := anchor.time.offset (Timestamp.signedWord (anchor.seq.distance expected * delta))
    let deadline := now.futureDeadline (due.after s.config.guard)
    s.dropShort.andThen fun s =>
      .act ({ s with short := some ⟨expected, deadline, timerDriven⟩ }.count fun c =>
        { c with predictions := c.predictions + 1 }) (.arm .short deadline)

def armLong (now : Timestamp) (seq : SeqNumber) (s : CrossPath) : Step CrossPath :=
  let deadline := now.futureDeadline (now.after (s.cross.prediction + s.config.guard))
  .act { s with long := s.long.insert seq deadline } (.arm (.long seq) deadline)

/-- Nothing is known of `seq` and no long timer waits for it. -/
def needsLong (s : CrossPath) (seq : SeqNumber) : Bool :=
  !s.ledger.isResolved seq && !s.hasLong seq

def coverLong (now : Timestamp) (seq : SeqNumber) (s : CrossPath) : Step CrossPath :=
  if s.needsLong seq then s.armLong now seq else .stay s

/-- Moves the short timer past an arrival that reached or passed its number. -/
def reconcileShort (s : CrossPath) (now : Timestamp) (seq : SeqNumber) : Step CrossPath :=
  match s.short with
  | none => .stay s
  | some short =>
    if !seq.newerOrEqual short.expected then .stay s else
    let s := if short.timerDriven
      then s.count fun c => { c with resyncs := c.resyncs + 1 } else s
    let skipped := short.expected.distance seq
    let covered : Step CrossPath :=
      if s.config.maxGap < skipped then .note s (.uncovered skipped short.expected seq)
      else Step.forEach (coverLong now) (short.expected.prev.between seq) s
    covered.andThen fun s => s.armShort now seq.next false

def onShortTimeout (s : CrossPath) (now : Timestamp) : Step CrossPath :=
  match s.short with
  | none => .stay s
  | some short =>
    let s := { s with short := none }.count fun c => { c with shortTimeouts := c.shortTimeouts + 1 }
    (s.coverLong now short.expected).andThen fun s => s.armShort now short.expected.next true

def cancelTimers (s : CrossPath) : Step CrossPath :=
  s.dropShort.andThen fun s =>
    { state := { s with long := [] }, actions := s.long.map fun (seq, _) => .cancel (.long seq) }

/-- Starts over; only the counters and the ledger's totals are kept. -/
def fullReset (s : CrossPath) : Step CrossPath :=
  s.cancelTimers.alter fun s =>
    { s with
      delta := s.delta.reset
      cross := s.cross.reset
      ledger := s.ledger.clearHistory
      flows := s.flows.clear
      order := []
      nominalDelta := 0.0
      anchor := none
      awaited := none
      maxSeen := none
      consecutiveLosses := 0
      counters := { s.counters with resets := s.counters.resets + 1 }
      phase := .learnFlowOrder }

def declareLongLoss (s : CrossPath) (now : Timestamp) (seq : SeqNumber) : Step CrossPath :=
  match s.ledger.assumeLost? now seq with
  | none => .stay s
  | some ledger =>
    .act ({ s with ledger, consecutiveLosses := s.consecutiveLosses + 1 }.count fun c =>
      { c with losses := c.losses + 1 }) (.emit (.lost seq none))

def breakStall (s : CrossPath) : Step CrossPath :=
  if s.config.maxConsecutiveLosses ≤ s.consecutiveLosses then
    (Step.note s (.lossStreak label s.consecutiveLosses)).andThen fullReset
  else .stay s

def onLongTimeout (s : CrossPath) (now : Timestamp) (seq : SeqNumber) : Step CrossPath :=
  if !s.hasLong seq then .stay s else
  let s := { s with long := s.long.erase seq }.count fun c =>
    { c with longTimeouts := c.longTimeouts + 1 }
  if s.ledger.wasReceived seq then
    .note (s.count fun c => { c with lateLongExpiries := c.lateLongExpiries + 1 })
      (.expiredAfterArrival seq)
  else
    (s.declareLongLoss now seq).andThen breakStall

def settleLong (s : CrossPath) (seq : SeqNumber) : Step CrossPath :=
  if s.hasLong seq then .act { s with long := s.long.erase seq } (.cancel (.long seq))
  else .stay s

end LossWatch.CrossPath
