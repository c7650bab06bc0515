import LossWatch.CrossPath.Basic

/-!
Ranking the flows. Every flow's newest arrival is moved back to one common number at the average
interval; the flow that would have delivered that number first is the fastest. The windows collected
meanwhile then seed both predictors.
-/

namespace LossWatch

/-- A flow as it is ranked: by virtual time in whole microseconds, then by first arrival, then by
id. -/
structure RankedFlow where
  virtualTime : Int
  firstArrival : Timestamp
  id : Nat
deriving DecidableEq

def RankedFlow.le (a b : RankedFlow) : Bool :=
  a.virtualTime < b.virtualTime || a.virtualTime == b.virtualTime &&
    (a.firstArrival < b.firstArrival || a.firstArrival == b.firstArrival && a.id ≤ b.id)

/-- Before the first that does not rank ahead of it. -/
def RankedFlow.insert (a : RankedFlow) : List RankedFlow → List RankedFlow
  | [] => [a]
  | b :: bs => if a.le b then a :: b :: bs else b :: a.insert bs

namespace FlowTable

def commonDelta (t : FlowTable) : Option Float :=
  let deltas := (t.flows.filterMap (·.averageDelta)).filter (0.0 < ·)
  if deltas.length = t.flows.length
  then some (Window.sum deltas / deltas.length.toUInt64.toFloat) else none

def oldestSeq (t : FlowTable) : Option SeqNumber :=
  match t.flows.filterMap (·.oldest) with
  | [] => none
  | r :: rs => some (rs.foldl (fun a b => if b.seq.older a then b.seq else a) r.seq)

def rankedFlows (t : FlowTable) (reference : SeqNumber) (delta : Float) : List RankedFlow :=
  (t.flows.filterMap fun f => (f.virtualTime reference delta).map fun v =>
    (⟨Decimal.floatToWhole v, f.firstArrival, f.id⟩ : RankedFlow)).foldr RankedFlow.insert []

/-- The ids by rank, with the average interval, once there are two flows with enough records. -/
def ranking (t : FlowTable) (leastSamples : Nat) : Option (List Nat × Float) :=
  if t.size < 2 || !t.allHaveSamples leastSamples then none else do
  let delta ← t.commonDelta
  let reference ← t.oldestSeq
  return ((t.rankedFlows reference delta).map (·.id), delta)

end FlowTable

/-- The intervals per step between consecutive records that step forward by at most `maxGap`. -/
def stepSamples (maxGap : Nat) (rs : List ArrivalRecord) : List Duration :=
  (rs.zip (rs.drop 1)).filterMap fun (a, b) =>
    let steps := a.seq.distance b.seq
    if 0 < steps && steps ≤ maxGap then some ((b.time.since a.time).share steps.toNat) else none

/-- The record with the newest number, the first of equals. -/
def newestRecord : List ArrivalRecord → Option ArrivalRecord
  | [] => none
  | r :: rs => some (rs.foldl (fun a b => if b.seq.newer a.seq then b else a) r)

namespace CrossPath

/-- When `seq` would arrive over the fastest flow. -/
def projected (s : CrossPath) (seq : SeqNumber) : Option Timestamp :=
  s.anchor.bind fun anchor =>
    if s.nominalDelta ≤ 0.0 then none else
    some (anchor.time.offset
      (Decimal.floatToWhole (Float.ofInt (anchor.seq.distance seq) * s.nominalDelta)))

def crossSample (s : CrossPath) (seq : SeqNumber) (time : Timestamp) : Option Duration :=
  (s.projected seq).map time.since

/-- Gives the predictors what the windows hold and sets the anchor. -/
def seedPredictors (s : CrossPath) : CrossPath :=
  match s.fastest? with
  | none => s
  | some fastest =>
    let samples := s.flows.flows.flatMap fun f => stepSamples s.config.maxGap f.window
    let s : CrossPath := { s with delta := samples.foldl Predictor.insert s.delta }
    match s.flows.get? fastest with
    | none => s
    | some flow =>
      let anchor := (newestRecord flow.window).map fun r => (⟨r.seq, r.time⟩ : Anchor)
      let s : CrossPath := { s with anchor }
      let others := (s.flows.flows.filter (·.id ≠ fastest)).flatMap (·.window)
      { s with
        cross := others.foldl (fun cross r =>
          match s.crossSample r.seq r.time with
          | some sample => cross.insert sample
          | none => cross) s.cross }

def learnFlowOrder? (s : CrossPath) : Option (Step CrossPath) :=
  (s.flows.ranking s.config.minFlowSamples).map fun (order, delta) =>
    .note (seedPredictors { s with order, nominalDelta := delta }) (.flowOrder order delta)

end CrossPath
end LossWatch
