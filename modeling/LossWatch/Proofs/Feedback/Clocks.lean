import LossWatch.Proofs.Estimator.LossBudget
import LossWatch.Proofs.Feedback.Comparison
import LossWatch.Proofs.Feedback.Reconciliation
import LossWatch.Proofs.Monitor.Chronology

/-!
The timers behind a feedback, those of its primary estimator and of the one that is watched. Every call
but a shutdown leaves them in order. Only packets and polls touch them, and after a poll none is due at
its time any more.
-/

namespace LossWatch

namespace Monitor

variable {m : Monitor} {now d : Timestamp}

theorem lt_nextDeadline (hq : m.timers.Orderly) (h : m.timers.AllAfter now)
    (hd : m.nextDeadline = some d) : now < d := by
  obtain ⟨key, hkey⟩ := hq.exists_due hd
  exact h hkey

theorem events_onRepair_of_idle (h : ∀ d, m.nextDeadline = some d → now ≤ d) (a : Arrival) :
    (m.onRepair now a).events = [] := by
  have hidle : Turn.fireBefore now { monitor := m } = { monitor := m } := by
    rw [Turn.fireBefore_eq]
    split
    · rfl
    · rename_i deadline hnext
      have hlate : ¬ deadline < now := Nat.not_lt.mpr (h deadline hnext)
      rw [if_neg hlate]
  have hstart : Turn.events { monitor := m } = [] := by simp [Turn.events]
  rw [Monitor.onRepair, Turn.onRepair, hidle, Turn.events_settle, Estimator.emitted_onRepair,
    hstart]
  rfl

end Monitor

def FeedbackCall.turn? : FeedbackCall → Option (Monitor → Turn)
  | .arrival now a => some (·.onArrival now a)
  | .repair now a => some (·.onRepair now a)
  | .poll now => some (·.pollTimers now)
  | _ => none

namespace Feedback

variable {f f' f'' : Feedback} {c : FeedbackCall} {m : Monitor} {now d : Timestamp}

/-- The timers of the primary monitor and those of the one that is watched. -/
def clocks (f : Feedback) : Option (TimerQueue TimerKey) × Option (TimerQueue TimerKey) :=
  (f.primary.map (·.timers), f.comparison.map (·.timers))

structure SameClocks (f f' : Feedback) : Prop where
  mode : f'.mode = f.mode
  isShutDown : f'.isShutDown = f.isShutDown
  clocks : f'.clocks = f.clocks

namespace SameClocks

theorem refl (f : Feedback) : f.SameClocks f := ⟨rfl, rfl, rfl⟩

theorem trans (h : f.SameClocks f') (h' : f'.SameClocks f'') : f.SameClocks f'' :=
  ⟨h'.mode.trans h.mode, h'.isShutDown.trans h.isShutDown, h'.clocks.trans h.clocks⟩

end SameClocks

theorem sameClocks_handleEvent (f : Feedback) (e : LossEvent) :
    f.SameClocks (f.handleEvent e) := by
  cases e with
  | lost seq position =>
    obtain ⟨stats, hf'⟩ := f.handleEvent_lost seq position
    rw [hf']
    exact ⟨rfl, rfl, rfl⟩
  | falsePositive seq position =>
    obtain ⟨stats, hf'⟩ := f.handleEvent_falsePositive seq position
    rw [hf']
    refine ⟨rfl, rfl, ?_⟩
    split
    · rw [clocks, clocks, Option.map_map]
      rfl
    · rfl

theorem sameClocks_handleEvents (f : Feedback) (es : List LossEvent) :
    f.SameClocks (f.handleEvents es) := by
  induction es generalizing f with
  | nil => exact .refl f
  | cons e es ih => exact (f.sameClocks_handleEvent e).trans (ih _)

theorem sameClocks_forward (kind : EstimatorKind) (ds : List Delivery) (f : Feedback) :
    f.SameClocks (ds.foldl (forward kind) f) := by
  induction ds generalizing f with
  | nil => exact .refl f
  | cons d ds ih =>
    refine SameClocks.trans ?_ (ih _)
    rw [forward]
    split <;> exact ⟨rfl, rfl, rfl⟩

theorem sameClocks_runPrimary (f : Feedback) (act : Monitor → Turn) :
    SameClocks { f with primary := f.primary.map fun m => (act m).monitor }
      (f.runPrimary act).feedback := by
  rw [runPrimary]
  cases hprimary : f.primary with
  | none => exact ⟨rfl, rfl, by simp [clocks, hprimary]⟩
  | some m => exact sameClocks_handleEvents _ _

theorem sameClocks_runComparison (f : Feedback) (act : Monitor → Turn) :
    SameClocks { f with comparison := f.comparison.map fun m => (act m).monitor }
      (f.runComparison act).feedback := by
  rw [runComparison]
  cases hcomparison : f.comparison with
  | none => exact ⟨rfl, rfl, by simp [clocks, hcomparison]⟩
  | some m =>
    dsimp only
    rw [← Array.foldl_toList]
    refine SameClocks.trans ?_ (sameClocks_forward m.estimator.kind (act m).deliveries.toList _)
    exact ⟨rfl, rfl, rfl⟩

theorem sameClocks_runBoth (f : Feedback) (act : Monitor → Turn) :
    SameClocks { f with
      primary := f.primary.map fun m => (act m).monitor
      comparison := f.comparison.map fun m => (act m).monitor } (f.runBoth act).feedback := by
  have hfirst := f.sameClocks_runPrimary act
  have hwatched := f.comparison_runPrimary act
  rw [runBoth]
  generalize (f.runPrimary act).feedback = g at hfirst hwatched ⊢
  refine SameClocks.trans ?_ (g.sameClocks_runComparison act)
  refine ⟨hfirst.mode, hfirst.isShutDown, ?_⟩
  have hprimary := congrArg Prod.fst hfirst.clocks
  simp only [clocks, hwatched] at hprimary ⊢
  rw [hprimary]

theorem hears_eq_nil {calls : List FeedbackCall} (h : ∀ c ∈ calls, c.turn? = none) :
    f.hears calls = [] := by
  induction calls generalizing f with
  | nil => rfl
  | cons c calls ih =>
    obtain ⟨hc, hcalls⟩ := List.forall_mem_cons.mp h
    have hheard : f.heard c = [] := by
      cases c <;> first | rfl | cases hc
    rw [hears, hheard, ih hcalls]
    rfl

/-! ### Both monitors -/

variable {P Q : TimerQueue TimerKey → Prop} {act : Monitor → Turn}

def EachClock (f : Feedback) (P : TimerQueue TimerKey → Prop) : Prop :=
  (∀ q ∈ f.clocks.1, P q) ∧ ∀ q ∈ f.clocks.2, P q

theorem EachClock.of_same (h : f.EachClock P) (hs : f.SameClocks f') : f'.EachClock P := by
  rw [EachClock, hs.clocks]
  exact h

theorem EachClock.imp (h : f.EachClock P) (hPQ : ∀ q, P q → Q q) : f.EachClock Q :=
  ⟨fun q hq => hPQ q (h.1 q hq), fun q hq => hPQ q (h.2 q hq)⟩

theorem EachClock.runBoth (h : f.EachClock P)
    (hact : ∀ m : Monitor, P m.timers → Q (act m).monitor.timers) :
    (f.runBoth act).feedback.EachClock Q := by
  have hmap : ∀ o : Option Monitor, (∀ q ∈ o.map (·.timers), P q) →
      ∀ q ∈ (o.map fun m => (act m).monitor).map (·.timers), Q q := by
    intro o ho q hq
    cases o with
    | none => exact absurd hq (by simp)
    | some m => exact Option.some.inj hq ▸ hact m (ho _ rfl)
  refine EachClock.of_same ?_ (f.sameClocks_runBoth act)
  exact ⟨hmap _ h.1, hmap _ h.2⟩

theorem nextDeadline_eq (f : Feedback) : f.nextDeadline =
    (f.clocks.1.bind (·.nextDeadline)).merge min (f.clocks.2.bind (·.nextDeadline)) := by
  rw [nextDeadline, clocks, Option.bind_map, Option.bind_map]
  rfl

theorem SameClocks.nextDeadline_eq (h : f.SameClocks f') : f'.nextDeadline = f.nextDeadline := by
  rw [f'.nextDeadline_eq, h.clocks, f.nextDeadline_eq]

theorem nextDeadline_eq_some (h : f.nextDeadline = some d) :
    (¬ f.EachClock fun q => q.nextDeadline ≠ some d) ∧
      f.EachClock fun q => ∀ x, q.nextDeadline = some x → d ≤ x := by
  rw [f.nextDeadline_eq, TimerQueue.merge_min_eq_some_iff] at h
  obtain ⟨hfound, hfirst, hsecond⟩ := h
  refine ⟨fun hnone => ?_, fun q hq x hx => hfirst x ?_, fun q hq x hx => hsecond x ?_⟩
  · rcases hfound with hfound | hfound
    · obtain ⟨q, hq, hd⟩ := Option.bind_eq_some_iff.mp hfound
      exact hnone.1 q hq hd
    · obtain ⟨q, hq, hd⟩ := Option.bind_eq_some_iff.mp hfound
      exact hnone.2 q hq hd
  · exact Option.bind_eq_some_iff.mpr ⟨q, hq, hx⟩
  · exact Option.bind_eq_some_iff.mpr ⟨q, hq, hx⟩

theorem nextDeadline_le (hm : f.primary = some m) (hd : m.nextDeadline = some d) :
    ∃ x, f.nextDeadline = some x ∧ x ≤ d := by
  have hclock : m.timers ∈ f.clocks.1 := by rw [clocks, hm]; rfl
  cases hx : f.nextDeadline with
  | some x => exact ⟨x, rfl, (nextDeadline_eq_some hx).2.1 _ hclock d hd⟩
  | none =>
    rw [nextDeadline, hm, Option.bind_some, hd] at hx
    cases hy : f.comparison.bind (·.nextDeadline) <;> simp [hy, Option.merge] at hx

/-! ### Every call -/

/-- The session goes on, and its timers are in order. -/
structure Timed (f : Feedback) : Prop where
  running : f.isShutDown = false
  orderly : f.EachClock TimerQueue.Orderly

theorem Timed.of_same (h : f.Timed) (hs : f.SameClocks f') : f'.Timed :=
  ⟨hs.isShutDown.trans h.running, h.orderly.of_same hs⟩

theorem Timed.runBoth (h : f.Timed) (act : Monitor → Turn)
    (hact : ∀ m : Monitor, m.timers.Orderly → (act m).monitor.timers.Orderly) :
    (f.runBoth act).feedback.Timed :=
  ⟨(f.sameClocks_runBoth act).isShutDown.trans h.running, h.orderly.runBoth hact⟩

theorem sameClocks_runBoth_count (f : Feedback) (g : FeedbackStats → FeedbackStats)
    (act : Monitor → Turn) :
    (f.runBoth act).feedback.SameClocks ((f.count g).runBoth act).feedback := by
  have hcounted := (f.count g).sameClocks_runBoth act
  have hplain := f.sameClocks_runBoth act
  exact ⟨hcounted.mode.trans hplain.mode.symm, hcounted.isShutDown.trans hplain.isShutDown.symm,
    hcounted.clocks.trans hplain.clocks.symm⟩

theorem exists_call_request_eq (hrun : f.isShutDown = false) (now : Timestamp) (seq : SeqNumber)
    (flow : Option Nat) (tie : Nat) :
    ∃ requests rtxRequested, f.call (.request now seq flow tie) =
      { f with requests, stats := { f.stats with rtxRequested } } := by
  by_cases hmode : f.mode = .nack
  · rw [Feedback.call, onRequest_eq hmode hrun]
    exact ⟨_, _, rfl⟩
  · rw [Feedback.call, onRequest_of_ne hmode hrun]
    exact ⟨_, _, rfl⟩

theorem exists_requests_eq (hrun : f.isShutDown = false) (now : Timestamp)
    (tie : SeqNumber → Nat) (seqs : List SeqNumber) : ∃ requests rtxRequested,
      f.after (requestsFor now tie seqs) =
        { f with requests, stats := { f.stats with rtxRequested } } := by
  induction seqs generalizing f with
  | nil => exact ⟨_, _, rfl⟩
  | cons seq seqs ih =>
    obtain ⟨requests, rtxRequested, hfirst⟩ := exists_call_request_eq hrun now seq none (tie seq)
    rw [requestsFor, List.map_cons, after, List.foldl_cons, hfirst, ← after]
    exact ih hrun

/-- While the session goes on, a call touches the timers only by a turn of both monitors. -/
theorem moves_call (hrun : f.isShutDown = false) (hc : c ≠ .shutDown ∧ c ≠ .reset) :
    f.SameClocks (f.call c) ∨
      ∃ act, c.turn? = some act ∧ (f.runBoth act).feedback.SameClocks (f.call c) := by
  cases c with
  | arrival now a =>
    cases hmode : f.mode with
    | nack =>
      refine Or.inr ⟨_, rfl, ?_⟩
      rw [Feedback.call, onArrival_of_running hmode hrun]
      exact sameClocks_runBoth_count f _ _
    | ack =>
      rw [Feedback.call, onArrival_of_ack hmode hrun]
      exact Or.inl ⟨rfl, rfl, rfl⟩
    | none =>
      rw [Feedback.call, onArrival_of_none hmode hrun]
      exact Or.inl ⟨rfl, rfl, rfl⟩
  | repair now a =>
    by_cases hmode : f.mode = .nack
    · refine Or.inr ⟨_, rfl, (f.sameClocks_runBoth_count
        (fun s => { s with rtxPackets := s.rtxPackets + 1 }) _).trans ?_⟩
      rw [Feedback.call, onRepair_eq hmode hrun]
      exact ⟨rfl, rfl, rfl⟩
    · rw [Feedback.call, onRepair_of_ne hmode hrun]
      exact Or.inl (.refl f)
  | request now seq flow tie =>
    obtain ⟨requests, rtxRequested, hcall⟩ := exists_call_request_eq hrun now seq flow tie
    rw [hcall]
    exact Or.inl ⟨rfl, rfl, rfl⟩
  | poll now =>
    refine Or.inr ⟨_, rfl, ?_⟩
    have hgo : ¬ f.isShutDown = true := by simp [hrun]
    rw [Feedback.call, pollTimers, if_neg hgo]
    exact .refl _
  | takeLost | takeReceived | takeComparison => exact Or.inl ⟨rfl, rfl, rfl⟩
  | shutDown => exact absurd rfl hc.1
  | reset => exact absurd rfl hc.2

theorem Timed.call (h : f.Timed) (hc : c ≠ .shutDown ∧ c ≠ .reset) : (f.call c).Timed := by
  rcases moves_call h.running hc with hsame | ⟨act, hturn, hsame⟩
  · exact h.of_same hsame
  · refine (h.runBoth act fun m hm => ?_).of_same hsame
    cases c with
    | arrival now a =>
      cases hturn
      exact m.orderly_call hm (.arrival now a)
    | repair now a =>
      cases hturn
      exact m.orderly_call hm (.repair now a)
    | poll now =>
      cases hturn
      exact m.orderly_call hm (.poll now)
    | request | takeLost | takeReceived | takeComparison | shutDown | reset => cases hturn

theorem Timed.nextDeadline_call (h : f.Timed) (hc : c ≠ .shutDown ∧ c ≠ .reset)
    (hquiet : c.turn? = none) : (f.call c).nextDeadline = f.nextDeadline := by
  rcases moves_call h.running hc with hsame | ⟨act, hturn, -⟩
  · exact hsame.nextDeadline_eq
  · simp [hquiet] at hturn

theorem Timed.after {calls : List FeedbackCall} (h : f.Timed)
    (hcalls : ∀ c ∈ calls, c ≠ .shutDown ∧ c ≠ .reset) : (f.after calls).Timed := by
  induction calls generalizing f with
  | nil => exact h
  | cons c calls ih =>
    obtain ⟨hc, hcalls⟩ := List.forall_mem_cons.mp hcalls
    exact ih (h.call hc) hcalls

theorem Timed.nextDeadline_after {calls : List FeedbackCall} (h : f.Timed)
    (hcalls : ∀ c ∈ calls, c.turn? = none ∧ c ≠ .shutDown ∧ c ≠ .reset) :
    (f.after calls).nextDeadline = f.nextDeadline := by
  induction calls generalizing f with
  | nil => rfl
  | cons c calls ih =>
    obtain ⟨hc, hcalls⟩ := List.forall_mem_cons.mp hcalls
    exact (ih (h.call hc.2) hcalls).trans (h.nextDeadline_call hc.2 hc.1)

theorem Timed.pending_requests {seqs : List SeqNumber} (h : f.Timed) (tie : SeqNumber → Nat) :
    (f.after (requestsFor now tie seqs)).pending = f.pending := by
  obtain ⟨requests, rtxRequested, hafter⟩ := exists_requests_eq h.running now tie seqs
  rw [hafter]

theorem Timed.lt_nextDeadline_poll (h : f.Timed) (hlast : now < .last)
    (hd : (f.call (.poll now)).nextDeadline = some d) : now < d := by
  have hgo : ¬ f.isShutDown = true := by simp [h.running]
  rw [Feedback.call, pollTimers, if_neg hgo] at hd
  have hpolled : (f.runBoth (·.pollTimers now)).feedback.EachClock
      fun q => ∀ x, q.nextDeadline = some x → now < x :=
    h.orderly.runBoth fun m hm x hx =>
      Monitor.lt_nextDeadline (m.orderly_call hm (.poll now)) (Turn.allAfter_fireUntil hm hlast) hx
  obtain ⟨hfound, -⟩ := nextDeadline_eq_some hd
  by_contra hle
  exact hfound (hpolled.imp fun q hq heq => hle (hq d heq))

end Feedback
end LossWatch
