import LossWatch.Predictor.Sample
import LossWatch.Predictor.Window

/-!
Forecast by moving average: the mean of the last samples, plus a margin of some standard deviations
of the same samples. The error of each forecast is kept in a second window.
-/

namespace LossWatch

structure MovingAverage where
  samples : Window
  errors : Window
  biasSamples : Nat
  marginFactor : Float
  /-- The mean before the latest sample, which that sample is compared with. -/
  forecast : Option Float := none
  prediction : Float := 0.0
  count : Nat := 0

namespace MovingAverage

def ofConstants (history bias : Nat) (p : Float) : Except ConfigFault MovingAverage := do
  Predictor.checkConstants history bias p
  return {
    samples := { capacity := history }, errors := { capacity := history }, biasSamples := bias
    marginFactor := Predictor.marginFactor p }

def mean (m : MovingAverage) : Float := m.samples.mean

def insert (m : MovingAverage) (sample : Duration) : MovingAverage :=
  let x := Predictor.sampleMicros sample
  let samples := m.samples.push x
  { m with
    samples
    errors := match m.forecast with | some f => m.errors.push (x - f) | none => m.errors
    count := m.count + 1
    forecast := some samples.mean
    prediction := samples.mean + m.marginFactor * samples.stdDev }

def isReady (m : MovingAverage) : Bool := m.biasSamples ≤ m.count

def reset (m : MovingAverage) : MovingAverage :=
  { m with
    samples := m.samples.clear, errors := m.errors.clear, forecast := none, prediction := 0.0
    count := 0 }

end MovingAverage
end LossWatch
