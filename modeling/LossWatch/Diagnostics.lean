/-!
A snapshot of an estimator for telemetry.
-/

namespace LossWatch

structure Diagnostics where
  phase : String
  /-- Spread of the main predictor's errors in microseconds. -/
  errorStdDev : Float
  /-- Losses declared by timers since the last arrival. -/
  consecutiveLosses : Nat
  /-- Timers armed from a prediction. -/
  predictions : Nat
  timeouts : Nat
  losses : Nat
  falsePositives : Nat
  resets : Nat

end LossWatch
