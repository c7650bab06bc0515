import LossWatch.LossLedger

/-!
Messages for an operator's log. Each kind of message is a constructor that carries what it speaks
of; the wording is in `text` alone.
-/

namespace LossWatch

inductive LogLevel
  | info
  | warn
deriving DecidableEq

def LogLevel.name : LogLevel → String
  | info => "INFO"
  | warn => "WARN"

structure FlowTotals where
  flow : Nat
  packets : Nat := 0
  /-- Flow-local numbers that were skipped. -/
  gaps : Nat := 0
  /-- Arrivals older than the flow's newest flow-local number. -/
  reordered : Nat := 0
  lastArrival : Option Timestamp := none
deriving DecidableEq

inductive Notice
  | discontinuity (last next : SeqNumber) (gap : Nat)
  | lossStreak (estimator : String) (losses : Nat)
  | flowOrder (order : List Nat) (averageDelta : Float)
  | fastestJumped (last next : SeqNumber)
  | uncovered (skipped : Int) (expected arrived : SeqNumber)
  | expiredAfterArrival (seq : SeqNumber)
  | lossTotals (label : String) (totals : LossTotals)
  | singleTotals (label predictor : String) (errorStdDev : Float)
      (predictions timeouts resets discontinuities : Nat)
  | crossTotals (label phase : String) (order : List Nat) (deltaStdDev crossStdDev : Float)
      (shortTimeouts longTimeouts lateLong resyncs regressions resets : Nat)
  | flowTotals (label : String) (totals : FlowTotals)
  | feedbackMode (mode primary comparison : String)
  | feedbackTotals (packets repairs reported falsePositives withdrawn alreadySent : Nat)

namespace Notice

def level : Notice → LogLevel
  | discontinuity .. | lossStreak .. | fastestJumped .. | uncovered .. => .warn
  | _ => .info

def numbers (ns : List Nat) : String := "[" ++ ", ".intercalate (ns.map toString) ++ "]"

def text : Notice → String
  | discontinuity last next gap =>
    s!"sequence discontinuity {last} -> {next} (gap {gap}), re-establishing baseline"
  | lossStreak estimator losses =>
    s!"{losses} consecutive losses, resetting {estimator} estimator"
  | flowOrder order averageDelta =>
    s!"flow order learned: {numbers order} (average delta {Decimal.fixed 0 averageDelta}us)"
  | fastestJumped last next =>
    s!"fastest flow jumped {last} -> {next}, re-anchoring without a sample"
  | uncovered skipped expected arrived =>
    s!"short timer skipped {skipped} sequences ({expected} -> {arrived}), not covering them"
  | expiredAfterArrival seq => s!"long timer for {seq} expired after the packet arrived"
  | lossTotals label totals => s!"{label}: {totals.text}"
  | singleTotals label predictor errorStdDev predictions timeouts resets discontinuities =>
    s!"{label}: predictor={predictor} error_std_dev={Decimal.fixed 1 errorStdDev}us " ++
    s!"predictions={predictions} timeouts={timeouts} resets={resets} " ++
    s!"discontinuities={discontinuities}"
  | crossTotals label phase order deltaStdDev crossStdDev shortTimeouts longTimeouts lateLong
      resyncs regressions resets =>
    s!"{label}: state={phase} order={numbers order} " ++
    s!"delta_error_std_dev={Decimal.fixed 1 deltaStdDev}us " ++
    s!"cross_error_std_dev={Decimal.fixed 1 crossStdDev}us short_timeouts={shortTimeouts} " ++
    s!"long_timeouts={longTimeouts} late_long={lateLong} resyncs={resyncs} " ++
    s!"regressions={regressions} resets={resets}"
  | flowTotals label t =>
    s!"{label}: flow {t.flow} packets={t.packets} fssn_gaps={t.gaps} reordered={t.reordered}"
  | feedbackMode mode primary comparison =>
    s!"Feedback mode {mode}: primary={primary} comparison={comparison}"
  | feedbackTotals packets repairs reported falsePositives withdrawn alreadySent =>
    s!"Feedback shut down: packets={packets} rtx={repairs} nacked={reported} " ++
    s!"false_positives={falsePositives} withdrawn={withdrawn} already_sent={alreadySent}"

def line (n : Notice) : String := n.level.name ++ " " ++ n.text

end Notice
end LossWatch
