import LossWatch.Predictor.Sample
import LossWatch.Predictor.Window

/-!
Forecast by second-order autoregression around an exponentially weighted mean. The two lag
coefficients start at zero, where the forecast is the mean itself, and are adapted by recursive
least squares with forgetting; they are kept within bounds, and the covariance starts over when its
trace grows too large.
-/

namespace LossWatch

structure LagPair where
  one : Float
  two : Float

structure LagMatrix where
  one : LagPair
  two : LagPair

structure Autoregression where
  alpha : Float
  errors : Window
  biasSamples : Nat
  marginFactor : Float
  mean : Option Float := none
  lastSample : Option Float := none
  secondLastSample : Option Float := none
  coefficients : LagPair := ⟨0.0, 0.0⟩
  covariance : LagMatrix := ⟨⟨1000.0, 0.0⟩, ⟨0.0, 1000.0⟩⟩
  forecast : Option Float := none
  prediction : Float := 0.0
  count : Nat := 0

namespace Autoregression

def forgetting : Float := 0.98
def initialCovariance : LagMatrix := ⟨⟨1000.0, 0.0⟩, ⟨0.0, 1000.0⟩⟩
def maxTrace : Float := 1000000000.0
def maxCoefficient : Float := 2.0

/-- The distance from 1 to the next double; a denominator this small is not divided by. -/
def epsilon : Float := 2.220446049250313e-16

def ofConstants (history bias : Nat) (p : Float) : Except ConfigFault Autoregression := do
  Predictor.checkConstants history bias p
  return {
    alpha := 2.0 / (history.toUInt64.toFloat + 1.0), errors := { capacity := history }
    biasSamples := bias, marginFactor := Predictor.marginFactor p }

def clampCoefficient (c : Float) : Float :=
  let c := if c < -maxCoefficient then -maxCoefficient else c
  if maxCoefficient < c then maxCoefficient else c

/-- One step of recursive least squares for the regressor `phi` and the target `y`. -/
def adapt (a : Autoregression) (phi : LagPair) (y : Float) : Autoregression :=
  let p := a.covariance
  let pPhi : LagPair :=
    ⟨p.one.one * phi.one + p.one.two * phi.two, p.two.one * phi.one + p.two.two * phi.two⟩
  let denom := forgetting + phi.one * pPhi.one + phi.two * pPhi.two
  if !denom.isFinite || denom ≤ epsilon then a else
  let gain : LagPair := ⟨pPhi.one / denom, pPhi.two / denom⟩
  let err := y - (a.coefficients.one * phi.one + a.coefficients.two * phi.two)
  let next : LagMatrix :=
    ⟨⟨(p.one.one - gain.one * pPhi.one) / forgetting,
        (p.one.two - gain.one * pPhi.two) / forgetting⟩,
      ⟨(p.two.one - gain.two * pPhi.one) / forgetting,
        (p.two.two - gain.two * pPhi.two) / forgetting⟩⟩
  let trace := next.one.one + next.two.two
  { a with
    coefficients :=
      ⟨clampCoefficient (a.coefficients.one + gain.one * err),
        clampCoefficient (a.coefficients.two + gain.two * err)⟩
    covariance := if !trace.isFinite || maxTrace < trace then initialCovariance else next }

/-- A past sample relative to the mean; nothing is known of a missing one. -/
def deviation (mean : Float) : Option Float → Float
  | some x => x - mean
  | none => 0.0

def forecastFrom (a : Autoregression) (mean : Float) : Float :=
  mean + a.coefficients.one * deviation mean a.lastSample +
    a.coefficients.two * deviation mean a.secondLastSample

def insert (a : Autoregression) (sample : Duration) : Autoregression :=
  let x := Predictor.sampleMicros sample
  let errors := match a.forecast with | some f => a.errors.push (x - f) | none => a.errors
  let mean := match a.mean with | some m => m + a.alpha * (x - m) | none => x
  let adapted := match a.lastSample, a.secondLastSample with
    | some x1, some x2 => a.adapt ⟨x1 - mean, x2 - mean⟩ (x - mean)
    | _, _ => a
  let next := { adapted with
    errors, mean := some mean, lastSample := some x, secondLastSample := a.lastSample
    count := a.count + 1 }
  let forecast := next.forecastFrom mean
  { next with
    forecast := some forecast
    prediction := forecast + a.marginFactor * errors.stdDev }

/-- Both lags must be known, whatever the configured number of samples. -/
def isReady (a : Autoregression) : Bool := max a.biasSamples 3 ≤ a.count

def reset (a : Autoregression) : Autoregression :=
  { alpha := a.alpha, errors := a.errors.clear, biasSamples := a.biasSamples
    marginFactor := a.marginFactor }

end Autoregression
end LossWatch
