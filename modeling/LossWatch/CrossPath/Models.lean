import LossWatch.CrossPath.Ranking

/-!
What arrivals teach the two models once the flows are ranked, and how the reference pair is found:
a number on the fastest flow, followed by the next number on another flow. Losses met before the
timers run are read off the flow-local numbering.
-/

namespace LossWatch

inductive Observation
  | delta
  | cross
  | stale
deriving DecidableEq

namespace CrossPath

def nominalGain : Float := 0.125

def sampleDelta (s : CrossPath) (sample : Duration) : CrossPath :=
  { s with
    delta := s.delta.insert sample
    nominalDelta :=
      s.nominalDelta + nominalGain * (sample.micros.toUInt64.toFloat - s.nominalDelta) }

/-- An arrival on the fastest flow: it becomes the anchor if it is newer. -/
def observeFastest (s : CrossPath) (now : Timestamp) (seq : SeqNumber) :
    Observation × Step CrossPath :=
  let moved : Anchor := ⟨seq, now⟩
  match s.anchor with
  | none => (.delta, .stay { s with anchor := some moved })
  | some anchor =>
    if !seq.newer anchor.seq then (.stale, .stay s) else
    let steps := anchor.seq.distance seq
    let sampled : Step CrossPath :=
      if steps ≤ s.config.maxGap
      then .stay (s.sampleDelta ((now.since anchor.time).share steps.toNat))
      else .note s (.fastestJumped anchor.seq seq)
    (.delta, sampled.alter fun s => { s with anchor := some moved })

def observe (s : CrossPath) (now : Timestamp) (seq : SeqNumber) (flow : Nat) :
    Observation × Step CrossPath :=
  if s.fastest? = some flow then s.observeFastest now seq else
  match s.crossSample seq now with
  | some sample => (.cross, .stay { s with cross := s.cross.insert sample })
  | none => (.stale, .stay s)

/-- Takes `seq` as the reference on the fastest flow and awaits the next number elsewhere. -/
def anchorReference (s : CrossPath) (seq : SeqNumber) : CrossPath :=
  match s.phase.next .referenceAnchored with
  | some phase => { s with phase, awaited := some seq.next }
  | none => s

def loseReference (s : CrossPath) : CrossPath :=
  { s with awaited := none }.advance .referenceLost

/-- An arrival while the number after the reference is awaited on another flow. -/
def awaitAlternate (s : CrossPath) (seq : SeqNumber) (onFastest : Bool) (update : FlowUpdate) :
    CrossPath :=
  match s.awaited with
  | none => s
  | some awaited =>
    if onFastest then
      if 0 < update.gap then s.loseReference.anchorReference seq
      else if seq = awaited then { s with awaited := some seq.next }
      else s
    else if seq = awaited then { s with awaited := none }.advance .alternateArrived
    else if seq.newer awaited then s.loseReference
    else s

def declareGapLoss (now : Timestamp) (position : FlowPosition) (seq : SeqNumber) (s : CrossPath) :
    Step CrossPath :=
  match s.ledger.assumeLost? now seq with
  | none => .stay s
  | some ledger =>
    .act ({ s with ledger }.count fun c => { c with losses := c.losses + 1 })
      (.emit (.lost seq (some position)))

/-- Declares what a flow-local gap skipped, if it is clear which numbers those are: exactly as many
numbers between the flow's last arrival and this one are unresolved as the flow skipped. -/
def declareFlowGap (s : CrossPath) (now : Timestamp) (seq : SeqNumber) (position : FlowPosition)
    (update : FlowUpdate) : Step CrossPath :=
  match update.gapAfter with
  | none => .stay s
  | some previous =>
    if update.gap = 0 || s.config.maxGap < previous.distance seq then .stay s else
    let missing := (previous.between seq).filter (!s.ledger.isResolved ·)
    if missing.length ≠ update.gap then .stay s else
    let first := position.flowSeq.sub update.gap
    Step.forEach (fun (m, i) => declareGapLoss now ⟨position.flow, first.add i⟩ m) missing.zipIdx s

end CrossPath
end LossWatch
