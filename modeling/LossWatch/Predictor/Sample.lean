import LossWatch.Time
import LossWatch.ConfigFault
import LossWatch.Predictor.Quantile

/-!
What all predictors share: spans become doubles in microseconds and forecasts become spans again,
and the constants are checked in one order, sizes before the probability.
-/

namespace LossWatch.Predictor

def sampleMicros (d : Duration) : Float := d.seconds * 1000000.0

/-- The nearest whole number to a positive one, a half rounded up, within 64 bits. -/
def roundToNat (x : Float) : Nat :=
  let whole := x.toUInt64
  if x - whole.toFloat < 0.5 then whole.toNat else min (whole.toNat + 1) lastMicros

/-- A forecast as a span of whole microseconds; no span if it is not positive and finite. -/
def toSpan (micros : Float) : Duration :=
  if micros.isFinite && 0 < micros then .ofMicros (roundToNat micros) else .zero

def isProbability (p : Float) : Bool := 0.0 < p && p < 1.0

/-- How many standard deviations to wait beyond a forecast. -/
def marginFactor (p : Float) : Float := Quantile.normal (1.0 - p)

def checkConstants (history bias : Nat) (p : Float) : Except ConfigFault Unit :=
  if history = 0 then .error (.historySize history)
  else if bias = 0 then .error (.biasSamples bias)
  else if !isProbability p then .error (.probability p)
  else .ok ()

end LossWatch.Predictor
