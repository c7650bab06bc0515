import LossWatch.Feedback

/-!
The verdict on a simulated run: what was lost in truth against what was declared lost, and the
feedback that left the receiver.
-/

namespace LossWatch

structure Report where
  estimator : String := "none"
  packetsSent : Nat := 0
  delivered : Nat := 0
  trueLosses : Nat := 0
  /-- Lost packets that were declared lost. -/
  detectedLosses : Nat := 0
  missedLosses : Nat := 0
  /-- Delivered packets that were declared lost. -/
  falsePositives : Nat := 0
  /-- Summed microseconds from the nominal arrivals of lost packets to their declarations. -/
  detectionDelayMicros : Nat := 0
  reports : Nat := 0
  nacksSent : Nat := 0
  /-- Numbers reported lost that were never sent. -/
  strayNacks : Nat := 0
  acksSent : Nat := 0
  repaired : Nat := 0
  feedback : FeedbackStats := {}
  diagnostics : Option Diagnostics := none
  flows : List FlowTotals := []
  duration : Duration := .zero

namespace Report

def meanDetectionDelay (r : Report) : Duration :=
  if r.detectedLosses = 0 then .zero else .ofMicros (r.detectionDelayMicros / r.detectedLosses)

/-- The share of losses that were declared; all of them if there were none. -/
def detectionRate (r : Report) : Float :=
  if r.trueLosses = 0 then 1.0
  else r.detectedLosses.toUInt64.toFloat / r.trueLosses.toUInt64.toFloat

def falsePositiveRate (r : Report) : Float :=
  let declared := r.detectedLosses + r.falsePositives
  if declared = 0 then 0.0 else r.falsePositives.toUInt64.toFloat / declared.toUInt64.toFloat

end Report
end LossWatch
