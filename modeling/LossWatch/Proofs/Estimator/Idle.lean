import LossWatch.Proofs.Estimator.Building

/-!
Estimators that have not been told anything yet, and those that do not listen any more. Fresh are the
built ones and those put together from predictors directly, whose constants nobody has checked. A
stopped one ignores arrivals, repairs and expiries.
-/

namespace LossWatch

inductive Estimator.Fresh : Estimator → Prop
  | single (config : SinglePathConfig) (predictor : Predictor) :
      Fresh (.single { config, predictor })
  | cross (config : CrossPathConfig) (delta cross : Predictor) (window : Nat) :
      Fresh (.cross { config, delta, cross, flows := { window } })

theorem Estimator.fresh_of_build {kind : EstimatorKind} {predictor : PredictorConfig}
    {single : SinglePathConfig} {cross : CrossPathConfig} {e : Estimator}
    (h : Estimator.build kind predictor single cross = .ok e) : e.Fresh := by
  obtain ⟨p, -, rfl | rfl⟩ := Estimator.eq_of_build h
  · exact .single single p
  · exact .cross cross p p cross.window

namespace Estimator

variable {e : Estimator}

def isStopped : Estimator → Bool
  | single s => s.stopped
  | cross c => c.stopped

theorem onArrival_of_stopped (h : e.isStopped = true) (now : Timestamp) (a : Arrival) :
    e.onArrival now a = .stay e := by
  cases e with
  | single s => simp only [onArrival, SinglePath.onArrival, show s.stopped = true from h]; rfl
  | cross c => simp only [onArrival, CrossPath.onArrival, show c.stopped = true from h]; rfl

theorem onRepair_of_stopped (h : e.isStopped = true) (a : Arrival) : e.onRepair a = .stay e := by
  cases e with
  | single s => simp only [onRepair, SinglePath.onRepair, show s.stopped = true from h]; rfl
  | cross c => simp only [onRepair, CrossPath.onRepair, show c.stopped = true from h]; rfl

theorem onTimeout_of_stopped (h : e.isStopped = true) (now : Timestamp) (key : TimerKey) :
    e.onTimeout now key = .stay e := by
  cases e with
  | single s => simp [onTimeout, SinglePath.onTimeout, show s.stopped = true from h]; rfl
  | cross c => simp only [onTimeout, CrossPath.onTimeout, show c.stopped = true from h]; rfl

end Estimator
end LossWatch
