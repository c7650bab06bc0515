import LossWatch.Estimator
import LossWatch.Proofs.CrossPath.Learning

/-!
No step arms a timer for an instant that has passed. Every deadline goes through `futureDeadline`, so
it lies after the instant the step acts at, or at the last instant there is.
-/

namespace LossWatch

theorem Timestamp.le_futureDeadline (now deadline : Timestamp) :
    now ≤ now.futureDeadline deadline := by
  have hafter : (now.after (.ofMicros 1)).micros = min (now.micros + 1) lastMicros := by
    simp only [after, ofNat, Duration.micros, Duration.ofMicros]
  have hlast := now.le_last
  show now.micros ≤ (now.futureDeadline deadline).micros
  rw [futureDeadline, micros_max, hafter]
  omega

namespace Step

variable {σ τ : Type} {now : Timestamp} {r : Step σ} {s : σ}

def ArmsFrom (now : Timestamp) (r : Step σ) : Prop := ∀ d ∈ armedDeadlines r.actions, now ≤ d

namespace ArmsFrom

theorem of_no_actions (h : r.actions = []) : r.ArmsFrom now := by
  intro d hd
  rw [h] at hd
  exact absurd hd List.not_mem_nil

theorem stay : (stay s).ArmsFrom now := of_no_actions rfl

theorem note (n : Notice) : (note s n).ArmsFrom now := of_no_actions rfl

theorem emit (e : LossEvent) : (act s (.emit e)).ArmsFrom now := by
  intro d hd
  exact absurd hd List.not_mem_nil

theorem cancel (key : TimerKey) : (act s (.cancel key)).ArmsFrom now := by
  intro d hd
  exact absurd hd List.not_mem_nil

theorem arm (key : TimerKey) (deadline : Timestamp) :
    (act s (.arm key (now.futureDeadline deadline))).ArmsFrom now := by
  intro d hd
  rw [List.mem_singleton.mp hd]
  exact now.le_futureDeadline deadline

theorem andThen {f : σ → Step σ} (hr : r.ArmsFrom now) (hf : ∀ t, (f t).ArmsFrom now) :
    (r.andThen f).ArmsFrom now := by
  intro d hd
  rw [actions_andThen, armedDeadlines, List.filterMap_append] at hd
  rcases List.mem_append.mp hd with hd | hd
  · exact hr d hd
  · exact hf r.state d hd

theorem alter {f : σ → τ} (hr : r.ArmsFrom now) : (r.alter f).ArmsFrom now := hr

theorem ite {p : Prop} [Decidable p] {r' : Step σ} (hr : r.ArmsFrom now)
    (hr' : r'.ArmsFrom now) : (if p then r else r').ArmsFrom now := by
  split <;> assumption

theorem forEach {α : Type} {f : α → σ → Step σ} (hf : ∀ a s, (f a s).ArmsFrom now) (as : List α)
    (s : σ) : (forEach f as s).ArmsFrom now := by
  induction as generalizing s with
  | nil => exact stay
  | cons a as ih => exact (hf a s).andThen ih

end ArmsFrom
end Step

namespace SinglePath

variable {now : Timestamp}

theorem disarm_armsFrom (s : SinglePath) : s.disarm.ArmsFrom now := by
  rw [disarm]
  split
  · exact .cancel _
  · exact .stay

theorem arm_armsFrom (s : SinglePath) (seq : SeqNumber) (due : Timestamp) :
    (s.arm now seq due).ArmsFrom now :=
  s.disarm_armsFrom.andThen fun _ => .arm _ _

theorem armFromPrediction_armsFrom (s : SinglePath) : (s.armFromPrediction now).ArmsFrom now := by
  rw [armFromPrediction]
  split
  · exact .stay
  · split
    · exact arm_armsFrom _ _ _
    · exact s.disarm_armsFrom.alter

theorem declareLost_armsFrom (seq : SeqNumber) (s : SinglePath) :
    (s.declareLost now seq).ArmsFrom now := by
  rw [declareLost]
  split
  · exact .stay
  · exact .emit _

theorem advance_armsFrom (s : SinglePath) (seq : SeqNumber) :
    (s.advance now seq).ArmsFrom now := by
  rw [advance]
  split
  · exact .stay
  · split
    · apply Step.ArmsFrom.alter
      split
      · exact (Step.ArmsFrom.note _).andThen disarm_armsFrom
      · exact .forEach declareLost_armsFrom _ _
    · exact .stay

theorem accept_armsFrom (s : SinglePath) (seq : SeqNumber) : (s.accept now seq).ArmsFrom now := by
  rw [accept]
  apply (advance_armsFrom _ seq).andThen
  intro t
  split
  · exact t.armFromPrediction_armsFrom
  · exact .stay

theorem onArrival_armsFrom (s : SinglePath) (a : Arrival) : (s.onArrival now a).ArmsFrom now := by
  rw [onArrival]
  split
  · exact .stay
  · dsimp only
    cases (s.ledger.receive now a.seq).1 with
    | duplicate => exact .stay
    | stale => exact .stay
    | falsePositive d => exact (Step.ArmsFrom.emit _).andThen fun t => t.accept_armsFrom a.seq
    | fresh => exact accept_armsFrom _ a.seq
    | recovered => exact accept_armsFrom _ a.seq

theorem onRepair_armsFrom (s : SinglePath) (a : Arrival) : (s.onRepair a).ArmsFrom now := by
  rw [onRepair]
  split <;> exact .stay

theorem afterMiss_armsFrom (s : SinglePath) (p : ExpectedPacket) :
    (s.afterMiss now p).ArmsFrom now := by
  rw [afterMiss]
  split
  · exact (Step.ArmsFrom.note _).andThen fun t => t.disarm_armsFrom.alter
  · exact arm_armsFrom _ _ _

theorem onTimeout_armsFrom (s : SinglePath) (key : TimerKey) :
    (s.onTimeout now key).ArmsFrom now := by
  rw [onTimeout]
  split
  · exact .stay
  · split
    · exact .stay
    · dsimp only
      split
      · exact armFromPrediction_armsFrom _
      · exact (declareLost_armsFrom _ _).alter.andThen fun t => t.afterMiss_armsFrom _

end SinglePath

namespace CrossPath

variable {now : Timestamp}

theorem dropShort_armsFrom (s : CrossPath) : s.dropShort.ArmsFrom now := by
  rw [dropShort]
  split
  · exact .cancel _
  · exact .stay

theorem armShort_armsFrom (s : CrossPath) (expected : SeqNumber) (timerDriven : Bool) :
    (s.armShort now expected timerDriven).ArmsFrom now := by
  rw [armShort]
  split
  · exact .stay
  · exact s.dropShort_armsFrom.andThen fun _ => .arm _ _

theorem coverLong_armsFrom (seq : SeqNumber) (s : CrossPath) :
    (s.coverLong now seq).ArmsFrom now := by
  rw [coverLong]
  split
  · exact .arm _ _
  · exact .stay

theorem reconcileShort_armsFrom (s : CrossPath) (seq : SeqNumber) :
    (s.reconcileShort now seq).ArmsFrom now := by
  rw [reconcileShort]
  split
  · exact .stay
  · split
    · exact .stay
    · refine Step.ArmsFrom.andThen ?_ fun t => t.armShort_armsFrom _ _
      exact .ite (.note _) (.forEach coverLong_armsFrom _ _)

theorem settleLong_armsFrom (s : CrossPath) (seq : SeqNumber) :
    (s.settleLong seq).ArmsFrom now := by
  rw [settleLong]
  split
  · exact .cancel _
  · exact .stay

theorem cancelTimers_armsFrom (s : CrossPath) : s.cancelTimers.ArmsFrom now := by
  apply s.dropShort_armsFrom.andThen
  intro t d hd
  simp [armedDeadlines, List.filterMap_map, Function.comp_def, Action.armed?] at hd

theorem declareGapLoss_armsFrom (position : FlowPosition) (seq : SeqNumber) (s : CrossPath) :
    (s.declareGapLoss now position seq).ArmsFrom now := by
  rw [declareGapLoss]
  split
  · exact .stay
  · exact .emit _

theorem declareFlowGap_armsFrom (s : CrossPath) (seq : SeqNumber) (position : FlowPosition)
    (update : FlowUpdate) : (s.declareFlowGap now seq position update).ArmsFrom now := by
  rw [declareFlowGap]
  split
  · exact .stay
  · split
    · exact .stay
    · dsimp only
      split
      · exact .stay
      · apply Step.ArmsFrom.forEach
        intro p t
        exact declareGapLoss_armsFrom _ p.1 t

theorem tryStart_armsFrom (s : CrossPath) (seq : SeqNumber) (update : FlowUpdate) :
    (s.tryStart now seq update).ArmsFrom now := by
  rw [tryStart]
  split
  · exact .stay
  · split
    · exact armShort_armsFrom _ _ _
    · exact .stay

theorem dispatch_armsFrom (s : CrossPath) (seq : SeqNumber) (onFastest : Bool)
    (update : FlowUpdate) (o : Observation) :
    (s.dispatch now seq onFastest update o).ArmsFrom now := by
  rw [dispatch]
  cases s.phase with
  | learnFlowOrder => exact .stay
  | learnPathDifference => exact .stay
  | learnAwaitingAlternate => exact .stay
  | estAwaitingFastest =>
    dsimp only
    split
    · exact s.tryStart_armsFrom seq update
    · exact .stay
  | estRunningA => exact reconcileShort_armsFrom _ seq
  | estRunningB => exact reconcileShort_armsFrom _ seq

theorem follow_armsFrom (s : CrossPath) (seq : SeqNumber) (position : FlowPosition) :
    (s.follow now seq position).ArmsFrom now := by
  rw [follow]
  dsimp only
  refine Step.ArmsFrom.andThen ?_ fun t => ?_
  · split
    · exact .stay
    · exact declareFlowGap_armsFrom _ seq position _
  · split
    · exact .of_no_actions (t.sameRecord_learn seq position.flow).2
    · exact Step.ArmsFrom.andThen (.of_no_actions (t.sameRecord_observe now seq position.flow).2)
        fun u => u.dispatch_armsFrom seq _ _ _

theorem accept_armsFrom (s : CrossPath) (seq : SeqNumber) (position : FlowPosition) :
    (s.accept now seq position).ArmsFrom now :=
  (settleLong_armsFrom _ seq).andThen fun t => t.follow_armsFrom seq position

theorem onArrival_armsFrom (s : CrossPath) (a : Arrival) : (s.onArrival now a).ArmsFrom now := by
  rw [onArrival]
  split
  · exact .stay
  · dsimp only
    cases (s.ledger.receive now a.seq).1 with
    | duplicate => exact .stay
    | stale => exact .stay
    | falsePositive d => exact (Step.ArmsFrom.emit _).andThen fun t => t.accept_armsFrom a.seq _
    | fresh => exact accept_armsFrom _ a.seq _
    | recovered => exact accept_armsFrom _ a.seq _

theorem onRepair_armsFrom (s : CrossPath) (a : Arrival) : (s.onRepair a).ArmsFrom now := by
  rw [onRepair]
  split
  · exact .stay
  · exact settleLong_armsFrom _ a.seq

theorem onShortTimeout_armsFrom (s : CrossPath) : (s.onShortTimeout now).ArmsFrom now := by
  rw [onShortTimeout]
  split
  · exact .stay
  · exact (coverLong_armsFrom _ _).andThen fun t => t.armShort_armsFrom _ _

theorem onLongTimeout_armsFrom (s : CrossPath) (seq : SeqNumber) :
    (s.onLongTimeout now seq).ArmsFrom now := by
  rw [onLongTimeout]
  split
  · exact .stay
  · dsimp only
    split
    · exact .note _
    · refine Step.ArmsFrom.andThen ?_ fun t => ?_
      · rw [declareLongLoss]
        split
        · exact .stay
        · exact .emit _
      · rw [breakStall]
        split
        · exact (Step.ArmsFrom.note _).andThen fun u => u.cancelTimers_armsFrom.alter
        · exact .stay

theorem onTimeout_armsFrom (s : CrossPath) (key : TimerKey) :
    (s.onTimeout now key).ArmsFrom now := by
  simp only [onTimeout]
  split
  · exact .stay
  · cases key with
    | basic => exact .stay
    | short => exact s.onShortTimeout_armsFrom
    | long seq => exact s.onLongTimeout_armsFrom seq

end CrossPath

namespace Estimator

theorem onArrival_armsFrom (e : Estimator) (now : Timestamp) (a : Arrival) :
    (e.onArrival now a).ArmsFrom now := by
  cases e with
  | single s => exact (s.onArrival_armsFrom a).alter
  | cross c => exact (c.onArrival_armsFrom a).alter

theorem onRepair_armsFrom (e : Estimator) (now : Timestamp) (a : Arrival) :
    (e.onRepair a).ArmsFrom now := by
  cases e with
  | single s => exact (s.onRepair_armsFrom a).alter
  | cross c => exact (c.onRepair_armsFrom a).alter

theorem onTimeout_armsFrom (e : Estimator) (now : Timestamp) (key : TimerKey) :
    (e.onTimeout now key).ArmsFrom now := by
  cases e with
  | single s => exact (s.onTimeout_armsFrom key).alter
  | cross c => exact (c.onTimeout_armsFrom key).alter

end Estimator
end LossWatch
