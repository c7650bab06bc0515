import LossWatch.Proofs.Estimator.Restart
import LossWatch.Proofs.Monitor.Polling
import LossWatch.Proofs.TimerQueue.Renaming

/-!
A reset makes a new monitor. Its estimator is a new one but for the counters, and its queue is an
empty one but for the names of the timers: neither shows in what the monitor does. The firing loops,
the calls and whole runs take twins to twins.
-/

namespace LossWatch

open TimerQueue (Renaming Renames)

/-- The same monitor but for what its estimator has counted and the names of its timers. -/
structure Monitor.Twins (ρ : Renaming) (m m' : Monitor) : Prop where
  estimator : m.estimator.uncounted = m'.estimator.uncounted
  timers : Renames ρ m.timers m'.timers

structure Turn.Twins (ρ : Renaming) (t t' : Turn) : Prop where
  monitor : t.monitor.Twins ρ t'.monitor
  deliveries : t'.deliveries = t.deliveries
  notices : t'.notices = t.notices

theorem TimerQueue.Renames.foldl_perform {ρ : Renaming} {q q' : TimerQueue TimerKey}
    (h : Renames ρ q q') (as : List Action) :
    Renames ρ (as.foldl TimerQueue.perform q) (as.foldl TimerQueue.perform q') := by
  induction as generalizing q q' with
  | nil => exact h
  | cons a as ih =>
    apply ih
    cases a with
    | arm key d => exact h.arm key d
    | cancel key => exact h.cancel key
    | emit e => exact h

namespace Turn

variable {ρ : Renaming} {t t' : Turn} {now due : Timestamp} {key : TimerKey}
  {timers timers' : TimerQueue TimerKey}

namespace Twins

theorem withTimers (h : Twins ρ t t') (hq : Renames ρ timers timers') :
    Twins ρ (t.withTimers timers) (t'.withTimers timers') :=
  ⟨⟨h.monitor.estimator, hq⟩, h.deliveries, h.notices⟩

theorem settle (h : Twins ρ t t') (now : Timestamp) (c : EstimatorCall) :
    Twins ρ (t.settle now (·.call c)) (t'.settle now (·.call c)) := by
  have hact := Estimator.perform_alike h.monitor.estimator (.call c)
  have hactions : (t'.monitor.estimator.call c).actions = (t.monitor.estimator.call c).actions :=
    hact.actions.symm
  have hnotices : (t'.monitor.estimator.call c).notices = (t.monitor.estimator.call c).notices :=
    hact.notices.symm
  have hsettled : ∀ u : Turn, u.settle now (·.call c) =
      ⟨⟨(u.monitor.estimator.call c).state,
          (u.monitor.estimator.call c).actions.foldl .perform u.monitor.timers⟩,
        (u.monitor.estimator.call c).actions.foldl (Action.deliver now) u.deliveries,
        u.notices ++ (u.monitor.estimator.call c).notices⟩ := fun _ => rfl
  rw [hsettled t, hsettled t', hactions, hnotices, h.deliveries, h.notices]
  exact ⟨⟨hact.state, h.monitor.timers.foldl_perform _⟩, rfl, rfl⟩

theorem fire (h : Twins ρ t t') (key : TimerKey) (due : Timestamp) :
    Twins ρ (Turn.fire key due t) (Turn.fire key due t') :=
  h.settle due (.timeout due key)

theorem popDue (h : Twins ρ t t') {timer : Option (TimerKey × Timestamp)}
    (hpop : t.monitor.timers.popDue now = (timer, timers)) :
    ∃ timers', t'.monitor.timers.popDue now = (timer, timers') ∧
      Twins ρ (t.withTimers timers) (t'.withTimers timers') := by
  obtain ⟨hsame, hrest⟩ := h.monitor.timers.popDue now
  simp only [hpop] at hsame hrest
  exact ⟨(t'.monitor.timers.popDue now).2, Prod.ext hsame rfl, h.withTimers hrest⟩

theorem fireBefore (h : Twins ρ t t') (now : Timestamp) :
    Twins ρ (t.fireBefore now) (t'.fireBefore now) := by
  fun_induction Turn.fireBefore now t generalizing t' with
  | case1 e q dl ns hnone =>
    have hnone' : t'.monitor.timers.nextDeadline = none := h.monitor.timers.nextDeadline.trans hnone
    simp only [fireBefore_eq t', hnone']
    exact h
  | case2 e q dl ns deadline hnext hlt timers hpop =>
    have hnext' := h.monitor.timers.nextDeadline.trans hnext
    obtain ⟨timers', hpop', hrest⟩ := h.popDue hpop
    simp only [fireBefore_eq t', hnext', if_pos hlt, hpop']
    exact hrest
  | case3 e q dl ns deadline hnext hlt key due timers hpop ih =>
    have hnext' := h.monitor.timers.nextDeadline.trans hnext
    obtain ⟨timers', hpop', hrest⟩ := h.popDue hpop
    simp only [fireBefore_eq t', hnext', if_pos hlt, hpop']
    exact ih (hrest.fire key due)
  | case4 e q dl ns deadline hnext hlt =>
    have hnext' := h.monitor.timers.nextDeadline.trans hnext
    simp only [fireBefore_eq t', hnext', if_neg hlt]
    exact h

theorem fireAtLast (h : Twins ρ t t') (hu : t.fireAtLast = some u) :
    ∃ u', t'.fireAtLast = some u' ∧ Twins ρ u u' := by
  refine Turn.fireAtLast.partial_correctness (fun t u => ∀ {t'}, Twins ρ t t' →
    ∃ u', t'.fireAtLast = some u' ∧ Twins ρ u u') ?_ t u hu h
  intro loop ih t u hu t' h
  split at hu
  · obtain ⟨timers', hpop', hrest⟩ := h.popDue ‹_›
    cases hu
    exact ⟨_, fireAtLast_of_none hpop', hrest⟩
  · obtain ⟨timers', hpop', hrest⟩ := h.popDue ‹_›
    rw [fireAtLast_of_some hpop']
    exact ih _ _ hu (hrest.fire _ _)

theorem fireAtLast_eq_none (h : Twins ρ t t') (hnever : t.fireAtLast = none) :
    t'.fireAtLast = none := by
  rw [← Option.not_isSome_iff_eq_none, Option.isSome_iff_exists]
  rintro ⟨u', hu'⟩
  refine Turn.fireAtLast.partial_correctness (fun t' _ => ∀ {t}, Twins ρ t t' →
    t.fireAtLast ≠ none) ?_ t' u' hu' h hnever
  intro loop ih t' u' hu' t h
  cases hpop : t.monitor.timers.popDue .last with
  | mk timer timers =>
    obtain ⟨timers', hpop', hrest⟩ := h.popDue hpop
    cases timer with
    | none =>
      rw [fireAtLast_of_none hpop]
      simp
    | some timer =>
      rw [fireAtLast_of_some hpop]
      simp only [hpop'] at hu'
      exact ih _ _ hu' (hrest.fire timer.1 timer.2)

theorem getD_fireAtLast (h : Twins ρ t t') :
    Twins ρ (t.fireAtLast.getD t) (t'.fireAtLast.getD t') := by
  cases hloop : t.fireAtLast with
  | none =>
    rw [h.fireAtLast_eq_none hloop]
    exact h
  | some u =>
    obtain ⟨u', hu', htwins⟩ := h.fireAtLast hloop
    rw [hu']
    exact htwins

theorem fireUntil (h : Twins ρ t t') (now : Timestamp) :
    Twins ρ (t.fireUntil now) (t'.fireUntil now) := by
  fun_induction Turn.fireUntil now t generalizing t' with
  | case1 e q dl ns timers hpop =>
    obtain ⟨timers', hpop', hrest⟩ := h.popDue hpop
    simp only [fireUntil_eq t', hpop']
    exact hrest
  | case2 e q dl ns key due timers hpop hlast ih =>
    obtain ⟨timers', hpop', hrest⟩ := h.popDue hpop
    simp only [fireUntil_eq t', hpop', if_pos hlast]
    exact ih (hrest.fire key due)
  | case3 e q dl ns key due timers hpop hlast =>
    obtain ⟨timers', hpop', hrest⟩ := h.popDue hpop
    simp only [fireUntil_eq t', hpop', if_neg hlast]
    exact (hrest.fire key due).getD_fireAtLast

end Twins
end Turn

/-! ### Every run of calls -/

namespace Monitor

variable {ρ : Renaming} {m m' : Monitor}

theorem Twins.start (h : m.Twins ρ m') : Turn.Twins ρ { monitor := m } { monitor := m' } :=
  ⟨h, rfl, rfl⟩

theorem Twins.abandon (h : m.Twins ρ m') {step step' : Step Estimator}
    (hstep : m.estimator.Alike step step') : Turn.Twins ρ (m.abandon step) (m'.abandon step') :=
  ⟨⟨hstep.state, h.timers.clear⟩, rfl, congrArg List.toArray hstep.notices.symm⟩

theorem Twins.call (h : m.Twins ρ m') (c : MonitorCall) :
    Turn.Twins ρ (m.call c) (m'.call c) := by
  cases c with
  | arrival now a => exact (h.start.fireBefore now).settle now (.arrival now a)
  | repair now a => exact (h.start.fireBefore now).settle now (.repair a)
  | poll now => exact h.start.fireUntil now
  | withdrawn seq =>
    exact ⟨⟨(Estimator.perform_alike h.estimator (.call (.withdrawn seq))).state, h.timers⟩, rfl, rfl⟩
  | reset => exact h.abandon (Estimator.perform_alike h.estimator .reset)
  | stop => exact h.abandon (Estimator.perform_alike h.estimator .stop)

theorem Twins.after (h : m.Twins ρ m') (calls : List MonitorCall) :
    (m.after calls).Twins ρ (m'.after calls) ∧ m'.handedOut calls = m.handedOut calls := by
  induction calls generalizing m m' with
  | nil => exact ⟨h, rfl⟩
  | cons c calls ih =>
    have hcall := h.call c
    obtain ⟨hafter, hrest⟩ := ih hcall.monitor
    exact ⟨hafter, by rw [handedOut, handedOut, hcall.deliveries, hrest]⟩

theorem twins_same (e : Estimator) : Twins .same { estimator := e } { estimator := e } :=
  ⟨rfl, TimerQueue.renames_same⟩

/-! ### From a reset on -/

theorem unlearnt_call (m : Monitor) (c : MonitorCall) :
    (m.call c).monitor.estimator.unlearnt = m.estimator.unlearnt := by
  have hmade : ∀ {t : Turn} {cs : List EstimatorCall}, t.Makes m cs →
      t.monitor.estimator.unlearnt = m.estimator.unlearnt := fun h =>
    (congrArg Estimator.unlearnt h.estimator).trans (m.estimator.unlearnt_after _)
  cases c with
  | arrival now a =>
    obtain ⟨es, -, hes⟩ := m.makes_onArrival now a
    exact hmade hes
  | repair now a =>
    obtain ⟨es, hes⟩ := m.makes_onRepair now a
    exact hmade hes
  | poll now =>
    obtain ⟨es, hes⟩ := m.makes_pollTimers now
    exact hmade hes
  | withdrawn seq => exact (m.estimator.alike_perform (.call (.withdrawn seq))).kept
  | reset => exact (m.estimator.alike_perform .reset).kept
  | stop => exact (m.estimator.alike_perform .stop).kept

theorem unlearnt_after (m : Monitor) (calls : List MonitorCall) :
    (m.after calls).estimator.unlearnt = m.estimator.unlearnt := by
  induction calls generalizing m with
  | nil => rfl
  | cons c calls ih => exact (ih _).trans (m.unlearnt_call c)

variable {kind : EstimatorKind} {predictor : PredictorConfig} {single : SinglePathConfig}
  {cross : CrossPathConfig} {e : Estimator}

theorem exists_twins_reset (built : Estimator.build kind predictor single cross = .ok e)
    (before : List MonitorCall) : ∃ ρ : Renaming, Twins ρ { estimator := e }
      (Monitor.after { estimator := e } (before ++ [.reset])) := by
  have hm := (mirrored_of_fresh (Estimator.fresh_of_build built)).after before
  have hsame := ((twins_same e).after before).1
  obtain ⟨ρ, hcleared⟩ := hsame.timers.cleared hm.tracks.indexed
  have hreset : Monitor.after { estimator := e } (before ++ [.reset]) =
      ((Monitor.after { estimator := e } before).call .reset).monitor := List.foldl_append
  have hunlearnt := (unlearnt_call (Monitor.after { estimator := e } before) .reset).trans
    (unlearnt_after _ before)
  rw [hreset]
  exact ⟨ρ, ((Estimator.renewed_reset _).uncounted_eq built hunlearnt).symm, hcleared⟩

/-- From a reset on, be it asked for or caused by a long run of losses, an estimator requests,
notices and shows what a new one would, and is that one but for its counters; from a reset on a
monitor hands out the events of a new one at the same times and has the same timers. -/
theorem new_from_reset_on (built : Estimator.build kind predictor single cross = .ok e) :
    (∀ (before : List EstimatorOp) (op : EstimatorOp), (e.afterOps before).Restarts op →
      ∀ later : List EstimatorOp,
        let restarted := e.afterOps (before ++ [op])
        restarted.replies later = e.replies later ∧
          (restarted.afterOps later).appearance = (e.afterOps later).appearance ∧
          (restarted.afterOps later).uncounted = (e.afterOps later).uncounted) ∧
      ∀ before later : List MonitorCall,
        let new : Monitor := { estimator := e }
        let restarted := new.after (before ++ [.reset])
        restarted.handedOut later = new.handedOut later ∧
          (restarted.after later).estimator.appearance = (new.after later).estimator.appearance ∧
          (restarted.after later).estimator.uncounted = (new.after later).estimator.uncounted ∧
          (∀ key, (restarted.after later).timers.deadline? key =
            (new.after later).timers.deadline? key) ∧
          (restarted.after later).nextDeadline = (new.after later).nextDeadline ∧
          (restarted.after later).timerCount = (new.after later).timerCount := by
  have happearance : ∀ {s s' : Estimator}, s.uncounted = s'.uncounted →
      s.appearance = s'.appearance := fun {s s'} h => by
    rw [← s.appearance_uncounted, h, s'.appearance_uncounted]
  constructor
  case left =>
    intro before op hop later restarted
    obtain ⟨hreplies, hstate⟩ := Estimator.replies_alike (hop.uncounted_eq built) later
    exact ⟨hreplies, happearance hstate, hstate⟩
  case right =>
    intro before later new restarted
    obtain ⟨ρ, htwins⟩ := exists_twins_reset built before
    obtain ⟨hlater, hevents⟩ := htwins.after later
    exact ⟨hevents, (happearance hlater.estimator).symm, hlater.estimator.symm,
      hlater.timers.deadline?, hlater.timers.nextDeadline, hlater.timers.size_eq⟩

theorem new_from_reset_on_of_expiry :
    let predictor : PredictorConfig := { historySize := 1, biasSamples := 1 }
    let single : SinglePathConfig := { maxConsecutiveLosses := 1 }
    let before : List EstimatorOp :=
      [.call (.arrival .zero ⟨.ofNat 1, none⟩), .call (.arrival (.ofMillis 20) ⟨.ofNat 2, none⟩)]
    let expiry : EstimatorOp := .call (.timeout (.ofMillis 60) .basic)
    ∃ e, Estimator.build .singlePath predictor single = .ok e ∧
      (e.afterOps before).Restarts expiry ∧
      (∀ later : List EstimatorOp,
        (e.afterOps (before ++ [expiry])).replies later = e.replies later) ∧
      ∀ later : List MonitorCall,
        let new : Monitor := { estimator := e }
        (new.after [.arrival .zero ⟨.ofNat 1, none⟩, .poll (.ofMillis 20), .reset]).handedOut later =
          new.handedOut later := by
  intro predictor single before expiry
  let e : Estimator := .single
    { config := single
      predictor := .movingAverage
        { samples := { capacity := 1 }, errors := { capacity := 1 }, biasSamples := 1
          marginFactor := Predictor.marginFactor predictor.prematureTimeout } }
  have checked : Predictor.checkConstants 1 1 predictor.prematureTimeout = .ok () := by
    rw [Predictor.checkConstants, if_neg (by decide), if_neg (by decide), if_neg (by decide +kernel)]
  have built : Estimator.build .singlePath predictor single = .ok e := by
    simp only [Estimator.build, SinglePath.build, PredictorConfig.build, predictor,
      MovingAverage.ofConstants, checked]
    rfl
  have restarts : (e.afterOps before).Restarts expiry := Or.inr (by decide +kernel)
  have hnew := new_from_reset_on built
  exact ⟨e, built, restarts, fun later => (hnew.1 before expiry restarts later).1,
    fun later => (hnew.2 [.arrival .zero ⟨.ofNat 1, none⟩, .poll (.ofMillis 20)] later).1⟩

end Monitor
end LossWatch
