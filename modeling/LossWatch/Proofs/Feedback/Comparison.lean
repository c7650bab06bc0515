import LossWatch.Proofs.Feedback.Choices
import LossWatch.Proofs.Feedback.Reconciliation

/-!
The comparison estimator is only watched. What it writes is its own state, the channel and two of the
counters. Every call commutes with leaving these out, so two runs of the same calls that differ in
nothing else stay that way, and they answer alike, up to the choices they make.
-/

namespace LossWatch

def FeedbackStats.unwatched (s : FeedbackStats) : FeedbackStats :=
  { s with comparisonEvents := 0, comparisonDropped := 0 }

namespace Feedback

variable {α : Type} {f g : Feedback} {c : FeedbackCall}

/-- The feedback with nothing of the comparison estimator left in it. -/
def unwatched (f : Feedback) : Feedback :=
  { f with comparison := none, channel := #[], stats := f.stats.unwatched }

/-! ### What only the comparison estimator writes -/

theorem unwatched_forward (kind : EstimatorKind) (ds : List Delivery) (f : Feedback) :
    (ds.foldl (forward kind) f).unwatched = f.unwatched := by
  induction ds generalizing f with
  | nil => rfl
  | cons d ds ih =>
    have hfirst : (f.forward kind d).unwatched = f.unwatched := by
      unfold forward
      split
      · rfl
      · rfl
    exact (ih _).trans hfirst

theorem unwatched_runComparison (f : Feedback) (act : Monitor → Turn) :
    (f.runComparison act).feedback.unwatched = f.unwatched := by
  unfold runComparison
  cases f.comparison with
  | none => rfl
  | some m =>
    simp only [← Array.foldl_toList]
    exact unwatched_forward _ _ _

theorem comparison_handleEvents (f : Feedback) (es : List LossEvent) :
    (f.handleEvents es).comparison = f.comparison := by
  induction es generalizing f with
  | nil => rfl
  | cons e es ih =>
    have hfirst : (f.handleEvent e).comparison = f.comparison := by
      cases e with
      | lost seq position =>
        obtain ⟨stats, h⟩ := f.handleEvent_lost seq position
        rw [h]
      | falsePositive seq position =>
        obtain ⟨stats, h⟩ := f.handleEvent_falsePositive seq position
        rw [h]
    exact (ih _).trans hfirst

theorem comparison_runPrimary (f : Feedback) (act : Monitor → Turn) :
    (f.runPrimary act).feedback.comparison = f.comparison := by
  unfold runPrimary
  cases f.primary with
  | none => rfl
  | some m => exact comparison_handleEvents _ _

/-- The call comes back. Only a poll may fail to: at the last instant its loop need not end. -/
def Returns (f : Feedback) : FeedbackCall → Prop
  | .poll now => f.isShutDown = true ∨ ∀ m ∈ f.monitors, m.PollEnds now
  | _ => True

theorem Returns.unwatched (h : f.Returns c) : f.unwatched.Returns c := by
  cases c with
  | poll now =>
    refine h.imp_right fun hends m hm => hends m ?_
    rw [monitors, List.mem_append] at hm ⊢
    exact Or.inl (hm.resolve_right List.not_mem_nil)
  | _ => trivial

variable {caps : Capabilities}

end Feedback
end LossWatch
