import LossWatch.Proofs.Feedback.Balance
import LossWatch.Proofs.Replay.Progress

/-!
The session a replay starts with. A valid scenario always gets one: its mode is the scenario's, nothing
has been counted or queued yet, and no timer is armed.
-/

namespace LossWatch

theorem Except.guard_eq_ok {ε α : Type} {c : Prop} [Decidable c] {e : ε} {k x : Except ε α} {a : α}
    (hx : x = .error e) (h : (if c then x else k) = .ok a) : ¬ c ∧ k = .ok a := by
  by_cases hc : c
  · rw [if_pos hc, hx] at h
    cases h
  · rw [if_neg hc] at h
    exact ⟨hc, h⟩

theorem Except.eq_ok_of_toOption {ε α : Type} {x : Except ε α} {a : α} (h : x.toOption = some a) :
    x = .ok a := by
  cases x with
  | error e => cases h
  | ok b => exact congrArg Except.ok (Option.some.inj h)

/-! ### What a scenario asks for -/

namespace Scenario

variable {s : Scenario} {caps : Capabilities}

theorem checks_of_valid (valid : s.validate = .ok ()) :
    s.reportIntervalMillis ≠ 0 ∧ ∃ caps, s.session = .ok caps := by
  obtain ⟨-, valid⟩ := Except.guard_eq_ok rfl valid
  obtain ⟨_, -, valid⟩ := Except.bind_eq_ok.mp valid
  have hdistinct : (s.flows.map (·.id)).Nodup := by
    by_contra hrepeated
    rw [if_neg hrepeated] at valid
    cases valid
  rw [if_pos hdistinct] at valid
  obtain ⟨-, valid⟩ := Except.guard_eq_ok rfl valid
  obtain ⟨hinterval, valid⟩ := Except.guard_eq_ok rfl valid
  refine ⟨hinterval, ?_⟩
  cases hs : s.session with
  | ok caps => exact ⟨caps, rfl⟩
  | error e =>
    rw [hs] at valid
    cases valid

theorem mode_of_session (h : s.session = .ok caps) :
    caps.mode = s.feedback ∧ caps.validate = .ok () := by
  have hcaps := Except.mapError_eq_ok.mp h
  obtain ⟨_, hnegotiated, hchecked⟩ := Except.bind_eq_ok.mp hcaps
  obtain ⟨_, hvalid, hreturned⟩ := Except.bind_eq_ok.mp hchecked
  obtain rfl := Except.ok.inj hreturned
  refine ⟨?_, hvalid⟩
  obtain ⟨_, -, hnegotiated⟩ := Except.bind_eq_ok.mp hnegotiated
  obtain ⟨_, -, hnegotiated⟩ := Except.bind_eq_ok.mp hnegotiated
  obtain ⟨_, -, hnegotiated⟩ := Except.bind_eq_ok.mp hnegotiated
  rw [← Except.ok.inj hnegotiated, Capabilities.mode]
  cases s.feedback <;> rfl

end Scenario

/-! ### What it gets -/

namespace Feedback

variable {caps : Capabilities} {first second : Option Estimator} {r : FeedbackReply Unit}
  {f : Feedback} {mode : FeedbackMode}

structure Opened (expected : FeedbackMode) (f : Feedback) : Prop where
  mode : f.mode = expected
  isShutDown : f.isShutDown = false
  pending : f.pending = {}
  stats : f.stats = {}
  clocks : f.EachClock (· = .empty)
  reports : expected = .nack → f.Fresh
  silent : expected ≠ .nack → f.primary = none
  accounts : f.Accounts 0 0 0 0

theorem opened_of_ofCapabilities (h : ofCapabilities caps = .ok r) :
    r.feedback.Opened caps.mode := by
  obtain ⟨first, second, hr, -⟩ := ofEstimators_of_ofCapabilities h
  have hfresh : caps.mode = .nack → r.feedback.Fresh := fun hmode => fresh_of_ofCapabilities hmode h
  have haccounts := accounts_of_ofEstimators hr
  obtain ⟨_, -, hvalid⟩ := Except.bind_eq_ok.mp hr
  have hempty : ∀ o : Option Estimator,
      ∀ q ∈ (o.map fun e => ({ estimator := e } : Monitor)).map (·.timers), q = .empty := by
    intro o q hq
    cases o with
    | none => exact absurd hq (by simp)
    | some e => exact (Option.some.inj hq).symm
  by_cases hmode : caps.mode = .nack
  · simp only [if_pos hmode] at hvalid
    cases first with
    | some e =>
      rw [← Except.ok.inj hvalid] at hfresh haccounts ⊢
      exact ⟨rfl, rfl, rfl, rfl, ⟨hempty (some e), hempty second⟩, hfresh,
        fun h => absurd hmode h, haccounts⟩
    | none =>
      obtain ⟨e, -, hbuilt⟩ := Except.bind_eq_ok.mp hvalid
      rw [← Except.ok.inj hbuilt] at hfresh haccounts ⊢
      exact ⟨rfl, rfl, rfl, rfl, ⟨hempty (some e), hempty second⟩, hfresh,
        fun h => absurd hmode h, haccounts⟩
  · simp only [if_neg hmode] at hvalid
    rw [← Except.ok.inj hvalid] at hfresh haccounts ⊢
    exact ⟨rfl, rfl, rfl, rfl, ⟨hempty none, hempty none⟩, hfresh, fun _ => rfl, haccounts⟩

theorem Opened.nextDeadline_eq_none (h : f.Opened mode) : f.nextDeadline = none := by
  cases hd : f.nextDeadline with
  | none => rfl
  | some d =>
    obtain ⟨hfound, -⟩ := nextDeadline_eq_some hd
    refine absurd (h.clocks.imp fun q hq => ?_) hfound
    rw [hq]
    simp [TimerQueue.empty, TimerQueue.nextDeadline]

theorem ofCapabilities_of_validate (hvalid : caps.validate = .ok ()) :
    ∃ r, ofCapabilities caps = .ok r := by
  by_cases hmode : caps.mode = .nack
  · obtain ⟨_, hbuilt⟩ := ofCapabilities_of_valid hmode hvalid
    obtain ⟨r, -, hr, -⟩ := hbuilt caps.comparison
    exact ⟨r, hr⟩
  · simp only [ofCapabilities, ofEstimators, hvalid, if_neg hmode]
    exact ⟨_, rfl⟩

end Feedback

namespace Scenario

variable {s : Scenario} {f : Feedback} {trace : List TracePacket}

/-- The feedback that a replay of the scenario starts with. -/
def opened (s : Scenario) : Except ScenarioFault Feedback := do
  s.validate
  let reply ← (Feedback.ofCapabilities (← s.session)).mapError .feedback
  return reply.feedback

/-- A valid scenario opens its session, and every trace is replayed to the end. -/
theorem exists_opened (valid : s.validate = .ok ()) : ∃ f, s.opened = .ok f ∧
    f.Opened s.feedback ∧ ∀ trace tie, s.replay trace tie = .ok (Replay.start s f trace tie).run := by
  obtain ⟨-, caps, hcaps⟩ := checks_of_valid valid
  obtain ⟨hmode, hvalid⟩ := mode_of_session hcaps
  obtain ⟨r, hr⟩ := Feedback.ofCapabilities_of_validate hvalid
  have hbuilt : ∀ {α : Type} (g : FeedbackReply Unit → α), (do
      s.validate
      let reply ← (Feedback.ofCapabilities (← s.session)).mapError .feedback
      return g reply) = .ok (g r) := fun g =>
    Except.bind_eq_ok.mpr ⟨(), valid, Except.bind_eq_ok.mpr ⟨caps, hcaps,
      Except.bind_eq_ok.mpr ⟨r, Except.mapError_eq_ok.mpr hr, rfl⟩⟩⟩
  exact ⟨r.feedback, hbuilt (·.feedback), hmode ▸ Feedback.opened_of_ofCapabilities hr,
    fun trace tie => hbuilt fun reply => (Replay.start s reply.feedback trace tie).run⟩

end Scenario

namespace Replay

variable {s : Scenario} {f : Feedback} {trace : List TracePacket}

theorem ticking_start (valid : s.validate = .ok ()) (opened : f.Opened s.feedback)
    (trace : List TracePacket) (tie : Timestamp → SeqNumber → Nat) :
    (start s f trace tie).Ticking := by
  refine ⟨⟨s.reportIntervalMillis * 1000, ?_, ?_⟩, opened.isShutDown,
    opened.clocks.imp fun q hq => hq ▸ TimerQueue.Orderly.empty⟩
  · have := (Scenario.checks_of_valid valid).1
    omega
  · show Duration.ofMillis s.reportIntervalMillis = _
    rw [Duration.ofMillis, Duration.ofMicros, Nat.mul_assoc]

end Replay
end LossWatch
