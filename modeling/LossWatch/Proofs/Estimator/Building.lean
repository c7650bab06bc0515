import LossWatch.Estimator

/-!
What building an estimator gives. Only the settings can be at fault: with valid ones there is an
estimator, and every estimator that is built is one of two, put together from the predictor that the
settings describe.
-/

namespace Except

variable {ε ε' α β : Type} {x : Except ε α}

theorem bind_eq_ok {f : α → Except ε β} {b : β} :
    (x >>= f) = .ok b ↔ ∃ a, x = .ok a ∧ f a = .ok b := by
  cases x <;> simp [bind, Except.bind]

theorem map_eq_ok {f : α → β} {b : β} : x.map f = .ok b ↔ ∃ a, x = .ok a ∧ f a = b := by
  cases x <;> simp [Except.map]

theorem mapError_eq_ok {f : ε → ε'} {a : α} : x.mapError f = .ok a ↔ x = .ok a := by
  cases x with
  | error fault => exact ⟨nofun, nofun⟩
  | ok b => exact ⟨fun h => congrArg ok (ok.inj h), fun h => congrArg ok (ok.inj h)⟩

end Except

namespace LossWatch

theorem PredictorConfig.validate_default : ({} : PredictorConfig).validate = .ok () := by
  rw [validate, Predictor.checkConstants, if_neg (by decide), if_neg (by decide),
    if_neg (by decide +kernel)]

theorem PredictorConfig.build_of_valid {c : PredictorConfig} (h : c.validate = .ok ()) :
    ∃ p, c.build = .ok p := by
  have hchecked : Predictor.checkConstants c.historySize c.biasSamples c.prematureTimeout = .ok () :=
    h
  unfold build
  cases c.kind with
  | movingAverage =>
    simp only [MovingAverage.ofConstants, hchecked]
    exact ⟨_, rfl⟩
  | autoregression =>
    simp only [Autoregression.ofConstants, hchecked]
    exact ⟨_, rfl⟩

theorem Estimator.build_of_valid {predictor : PredictorConfig} (h : predictor.validate = .ok ())
    (kind : EstimatorKind) : ∃ e, Estimator.build kind predictor = .ok e := by
  obtain ⟨p, hp⟩ := PredictorConfig.build_of_valid h
  cases kind with
  | singlePath =>
    simp only [build, SinglePath.build, hp]
    exact ⟨_, rfl⟩
  | crossPath =>
    simp only [build, CrossPath.build, hp]
    exact ⟨_, rfl⟩

theorem Estimator.eq_of_build {kind : EstimatorKind} {predictor : PredictorConfig}
    {single : SinglePathConfig} {cross : CrossPathConfig} {e : Estimator}
    (h : Estimator.build kind predictor single cross = .ok e) :
    ∃ p, predictor.build = .ok p ∧ (e = .single { config := single, predictor := p } ∨
      e = .cross { config := cross, delta := p, cross := p, flows := { window := cross.window } }) := by
  cases kind with
  | singlePath =>
    obtain ⟨s, hs, rfl⟩ := Except.map_eq_ok.mp h
    obtain ⟨p, hp, rfl⟩ := Except.map_eq_ok.mp hs
    exact ⟨p, hp, Or.inl rfl⟩
  | crossPath =>
    obtain ⟨c, hc, rfl⟩ := Except.map_eq_ok.mp h
    obtain ⟨_, -, hchecked⟩ := Except.bind_eq_ok.mp hc
    obtain ⟨p, hp, hbuilt⟩ := Except.bind_eq_ok.mp hchecked
    exact ⟨p, hp, Or.inr (congrArg Estimator.cross (Except.ok.inj hbuilt).symm)⟩

end LossWatch
