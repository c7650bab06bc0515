import LossWatch.Proofs.Estimator.Exchanges

/-!
The states an estimator gets into: from a fresh one on by any calls, and by being reset or stopped
at any time between them.
-/

namespace LossWatch.Estimator

inductive Reachable : Estimator → Prop
  | fresh {e : Estimator} (fresh : e.Fresh) : Reachable e
  | call {e : Estimator} (h : Reachable e) (c : EstimatorCall) : Reachable (e.call c).state
  | reset {e : Estimator} (h : Reachable e) : Reachable e.reset.state
  | stop {e : Estimator} (h : Reachable e) : Reachable e.stop.state

theorem Reachable.after {e : Estimator} (h : e.Reachable) (calls : List EstimatorCall) :
    (e.after calls).Reachable := by
  induction calls generalizing e with
  | nil => exact h
  | cons c calls ih => exact ih (h.call c)

end LossWatch.Estimator
