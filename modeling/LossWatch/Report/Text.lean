import LossWatch.Decimal.Fixed
import LossWatch.Report

/-!
Reports as text: on one line, or as a framed page with a table of the flows. A delay is written in
its own unit, in milliseconds and seconds with two places.
-/

namespace LossWatch.Report

/-- A quotient of whole numbers as a double, the number itself rounded first. -/
def ratio (n : Nat) (unit : Float) : Float := (Binary64.nearest false n 1).toFloat / unit

def delayText (d : Duration) : String :=
  let n := d.micros
  if 1000000 ≤ n then Decimal.fixed 2 (ratio n 1000000.0) ++ "s"
  else if 1000 ≤ n then Decimal.fixed 2 (ratio n 1000.0) ++ "ms"
  else toString n ++ "µs"

def percentText (share : Float) : String := Decimal.fixed 2 (share * 100.0) ++ "%"

def durationText (d : Duration) : String :=
  let total := d.wholeSeconds
  let hours := total / 3600
  let minutes := total % 3600 / 60
  let two := Decimal.zeroPadded 2
  if 0 < hours then toString hours ++ "h " ++ two minutes ++ "m " ++ two (total % 60) ++ "s"
  else if 0 < minutes then toString minutes ++ "m " ++ two (total % 60) ++ "s"
  else toString (total % 60) ++ "s"

def compactText (r : Report) : String :=
  r.estimator ++ s!": lost={r.trueLosses} detected={r.detectedLosses} missed={r.missedLosses} " ++
  s!"fp={r.falsePositives} (" ++ percentText r.falsePositiveRate ++ ") delay=" ++
  delayText r.meanDetectionDelay

def bar (n : Nat) : String := "".pushn '─' n

def titleLines (title : String) (width : Nat) (upper : String) : List String :=
  [upper, "│ " ++ title ++ "".pushn ' ' (width - 1 - title.length) ++ "│"]

def heading (title : String) : List String :=
  titleLines title 61 ("├" ++ bar 61 ++ "┤") ++ ["├" ++ bar 61 ++ "┤"]

def tableRule (left cross right : String) : String :=
  left ++ cross.intercalate ([6, 10, 10, 16].map bar) ++ right

def tableRow (t : FlowTotals) : String :=
  "│ " ++ " │ ".intercalate [
    Decimal.blankPadded 4 t.flow, Decimal.blankPadded 8 t.packets, Decimal.blankPadded 8 t.gaps,
    Decimal.blankPadded 14 t.reordered] ++ " │"

def flowTable (flows : List FlowTotals) : List String :=
  if flows.isEmpty then [] else
  titleLines "PER-FLOW STATISTICS" 45 ("\n┌" ++ bar 45 ++ "┐") ++
  [tableRule "├" "┬" "┤", "│ Flow │ Packets  │ Gaps     │ Reordered      │",
    tableRule "├" "┼" "┤"] ++
  flows.map tableRow ++ [tableRule "└" "┴" "┘"]

/-- The standard deviation of the predictions counts in whole microseconds here. -/
def diagnosticsLine (d : Diagnostics) : String :=
  s!"│ Estimator: state={d.phase} predictions={d.predictions} timeouts={d.timeouts} " ++
  s!"resets={d.resets} error_std_dev=" ++ delayText (.ofMicros d.errorStdDev.toUInt64.toNat)

def lines (r : Report) : List String :=
  let f := r.feedback
  titleLines "LOSS DETECTION REPORT" 61 ("\n┌" ++ bar 61 ++ "┐") ++
  ["├" ++ bar 61 ++ "┤",
    "│ Estimator: " ++ r.estimator,
    "│ Simulated: " ++ durationText r.duration,
    s!"│ Packets:   {r.packetsSent} sent / {r.delivered} delivered"] ++
  heading "ACCURACY" ++
  [s!"│ True losses:     {r.trueLosses} ({r.detectedLosses} detected, {r.missedLosses} missed, " ++
      "rate " ++ percentText r.detectionRate ++ ")",
    s!"│ False positives: {r.falsePositives} (" ++ percentText r.falsePositiveRate ++
      " of declarations)",
    "│ Detection delay: " ++ delayText r.meanDetectionDelay ++ " mean"] ++
  heading "FEEDBACK" ++
  [s!"│ Reports: {r.reports} | NACKed: {r.nacksSent} (+{r.strayNacks} past end) | " ++
      s!"ACKed: {r.acksSent}",
    s!"│ Withdrawn before send: {f.withdrawn} | Already sent: {f.alreadySent}",
    s!"│ RTX: {f.rtxRecovered} recovered / {f.rtxLate} late / {f.rtxDuplicate} duplicate, mean " ++
      delayText f.meanRtxLatency] ++
  r.diagnostics.toList.map diagnosticsLine ++
  ["└" ++ bar 61 ++ "┘"] ++
  flowTable r.flows

def text (r : Report) : String := String.join (r.lines.map (· ++ "\n"))

end LossWatch.Report
