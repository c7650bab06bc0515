import LossWatch.Feedback
import LossWatch.Proofs.Estimator.Building

/-!
What building a session gives. An accepted request leaves the primary estimator that was handed over
or the one that the capabilities describe; with valid capabilities for loss reports it is accepted,
with a comparison estimator and without, and the primary estimator is the same.
-/

namespace LossWatch.Feedback

variable {caps : Capabilities} {primary comparison : Option Estimator} {r : FeedbackReply Unit}

/-! ### Accepted -/

theorem eq_of_ofEstimators (h : ofEstimators caps primary comparison = .ok r) :
    ∃ first second, r.feedback = {
        mode := caps.mode, primary := first, comparison := second
        rtxLateAfter := caps.rtxLateAfter } ∧
      (caps.mode = .nack → ∃ e, first = some { estimator := e } ∧
        (primary = some e ∨ Estimator.build caps.primary caps.predictor = .ok e)) := by
  obtain ⟨_, -, hvalid⟩ := Except.bind_eq_ok.mp h
  by_cases hmode : caps.mode = .nack
  · simp only [if_pos hmode] at hvalid
    cases primary with
    | some e =>
      rw [← Except.ok.inj hvalid]
      exact ⟨_, _, rfl, fun _ => ⟨e, rfl, Or.inl rfl⟩⟩
    | none =>
      obtain ⟨e, he, hbuilt⟩ := Except.bind_eq_ok.mp hvalid
      rw [← Except.ok.inj hbuilt]
      exact ⟨_, _, rfl, fun _ => ⟨e, rfl, Or.inr (Except.mapError_eq_ok.mp he)⟩⟩
  · simp only [if_neg hmode] at hvalid
    rw [← Except.ok.inj hvalid]
    exact ⟨_, _, rfl, fun h => absurd h hmode⟩

theorem ofEstimators_of_ofCapabilities (h : ofCapabilities caps = .ok r) :
    ∃ first second, ofEstimators caps first second = .ok r ∧
      ∀ e ∈ first, Estimator.build caps.primary caps.predictor = .ok e := by
  obtain ⟨_, -, hvalid⟩ := Except.bind_eq_ok.mp h
  by_cases hmode : caps.mode = .nack
  · rw [if_pos hmode] at hvalid
    obtain ⟨e, he, hprimary⟩ := Except.bind_eq_ok.mp hvalid
    have hfirst : ∀ e' ∈ some e, Estimator.build caps.primary caps.predictor = .ok e' :=
      fun e' he' => Option.some.inj he' ▸ Except.mapError_eq_ok.mp he
    cases hwatch : caps.comparison with
    | none =>
      simp only [hwatch] at hprimary
      exact ⟨some e, none, hprimary, hfirst⟩
    | some kind =>
      simp only [hwatch] at hprimary
      obtain ⟨second, -, hbuilt⟩ := Except.bind_eq_ok.mp hprimary
      exact ⟨some e, second, hbuilt, hfirst⟩
  · rw [if_neg hmode] at hvalid
    exact ⟨none, none, hvalid, by simp⟩

/-! ### With valid capabilities -/

theorem ofEstimators_some (hmode : caps.mode = .nack) (hvalid : caps.validate = .ok ())
    (e : Estimator) (watcher : Option Estimator) :
    ∃ r, ofEstimators caps (some e) watcher = .ok r ∧ r.feedback = {
      mode := .nack, primary := some { estimator := e }
      comparison := watcher.map fun w => { estimator := w }, rtxLateAfter := caps.rtxLateAfter } := by
  simp only [ofEstimators, hvalid, hmode]
  exact ⟨_, rfl, rfl⟩

theorem validate_of_nack (hmode : caps.mode = .nack) : caps.validate = caps.predictor.validate := by
  rw [Capabilities.validate, if_pos hmode]

theorem ofCapabilities_of_valid (hmode : caps.mode = .nack) (hvalid : caps.validate = .ok ()) :
    ∃ e, ∀ watch : Option EstimatorKind, ∃ r watcher,
      ofCapabilities { caps with comparison := watch } = .ok r ∧ r.feedback = {
        mode := .nack, primary := some { estimator := e }, comparison := watcher
        rtxLateAfter := caps.rtxLateAfter } ∧ watcher.isSome = watch.isSome := by
  have hpredictor := (validate_of_nack hmode).symm.trans hvalid
  have hbuilds := Estimator.build_of_valid hpredictor
  obtain ⟨e, he⟩ := hbuilds caps.primary
  refine ⟨e, fun watch => ?_⟩
  have hmode' : ({ caps with comparison := watch } : Capabilities).mode = .nack := hmode
  have hvalid' : ({ caps with comparison := watch } : Capabilities).validate = .ok () :=
    (validate_of_nack hmode').trans hpredictor
  simp only [ofCapabilities, hmode', hvalid', he]
  cases watch with
  | none =>
    obtain ⟨r, hr, hfeedback⟩ := ofEstimators_some hmode' hvalid' e none
    exact ⟨r, _, hr, hfeedback, rfl⟩
  | some kind =>
    obtain ⟨w, hw⟩ := hbuilds kind
    obtain ⟨r, hr, hfeedback⟩ := ofEstimators_some hmode' hvalid' e (some w)
    simp only [hw]
    exact ⟨r, _, hr, hfeedback, rfl⟩

end LossWatch.Feedback
