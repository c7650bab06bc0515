import LossWatch.Monitor
import LossWatch.Proofs.Estimator.Exchanges

/-!
The expiries within one call. The firing loops take one timer after another off the queue, and each
goes to the estimator before the next is looked for. So a loop is a chain of expiries, and what every
expiry keeps is kept by the loop. To the estimator a chain is a run of calls, and the loop hands out
the events of that run.
-/

namespace LossWatch

/-- A timer that was taken off the queue of `monitor`, and the deadline it came up with. -/
structure Expiry where
  monitor : Monitor
  key : TimerKey
  due : Timestamp

def Expiry.call (x : Expiry) : EstimatorCall := .timeout x.due x.key

namespace Turn

inductive Fires : Turn → List Expiry → Turn → Prop
  | done (t : Turn) : Fires t [] t
  | idle {t : Turn} {now : Timestamp} {timers : TimerQueue TimerKey}
      (hpop : t.monitor.timers.popDue now = (none, timers)) : Fires t [] (t.withTimers timers)
  | fire {t t' : Turn} {now due : Timestamp} {key : TimerKey} {timers : TimerQueue TimerKey}
      {es : List Expiry} (hpop : t.monitor.timers.popDue now = (some (key, due), timers))
      (rest : Fires (fire key due (t.withTimers timers)) es t') :
      Fires t (⟨t.monitor, key, due⟩ :: es) t'

theorem fireBefore_eq (t : Turn) (now : Timestamp) : t.fireBefore now =
    match t.monitor.timers.nextDeadline with
    | none => t
    | some deadline =>
      if deadline < now then
        match t.monitor.timers.popDue deadline with
        | (none, timers) => t.withTimers timers
        | (some (key, due), timers) => (fire key due (t.withTimers timers)).fireBefore now
      else t := by
  obtain ⟨⟨e, q⟩, ds, ns⟩ := t
  rw [fireBefore]
  dsimp only
  cases q.nextDeadline with
  | none => rfl
  | some deadline =>
    by_cases hdue : deadline < now
    · simp only [if_pos hdue, dif_pos hdue]
      split <;> simp only [*] <;> rfl
    · simp only [if_neg hdue, dif_neg hdue]

theorem fireBefore_of_idle {t : Turn} {now : Timestamp}
    (h : ∀ deadline ∈ t.monitor.timers.nextDeadline, now ≤ deadline) : t.fireBefore now = t := by
  rw [fireBefore_eq]
  cases hnext : t.monitor.timers.nextDeadline with
  | none => rfl
  | some deadline => exact if_neg (Nat.not_lt.mpr (h deadline hnext))

theorem fires_fireBefore (now : Timestamp) (t : Turn) : ∃ es, t.Fires es (t.fireBefore now) := by
  fun_induction fireBefore now t with
  | case1 => exact ⟨[], .done _⟩
  | case2 => exact ⟨[], .idle ‹_›⟩
  | case3 e q ds ns deadline hnext hd key due timers hpop ih =>
    obtain ⟨es, hes⟩ := ih
    exact ⟨_, .fire (t := ⟨⟨e, q⟩, ds, ns⟩) hpop hes⟩
  | case4 => exact ⟨[], .done _⟩

theorem fireAtLast_of_none {t : Turn} {timers : TimerQueue TimerKey}
    (hpop : t.monitor.timers.popDue .last = (none, timers)) :
    t.fireAtLast = some (t.withTimers timers) := by
  rw [fireAtLast, hpop]

theorem fireAtLast_of_some {t : Turn} {key : TimerKey} {due : Timestamp}
    {timers : TimerQueue TimerKey}
    (hpop : t.monitor.timers.popDue .last = (some (key, due), timers)) :
    t.fireAtLast = (fire key due (t.withTimers timers)).fireAtLast := by
  rw [fireAtLast, hpop]

/-- The loop of a poll at `now` comes to its end, with nothing due left. -/
inductive Polls (now : Timestamp) : Turn → Turn → Prop
  | idle {t : Turn} {timers : TimerQueue TimerKey}
      (hpop : t.monitor.timers.popDue now = (none, timers)) : Polls now t (t.withTimers timers)
  | fire {t t' : Turn} {due : Timestamp} {key : TimerKey} {timers : TimerQueue TimerKey}
      (hpop : t.monitor.timers.popDue now = (some (key, due), timers))
      (rest : Polls now (fire key due (t.withTimers timers)) t') : Polls now t t'

theorem polls_last_iff {t t' : Turn} : Polls .last t t' ↔ t.fireAtLast = some t' := by
  constructor
  · intro h
    induction h with
    | idle hpop => exact fireAtLast_of_none hpop
    | fire hpop _ ih => exact (fireAtLast_of_some hpop).trans ih
  · intro h
    refine fireAtLast.partial_correctness (fun t t' => Polls .last t t') ?_ t t' h
    intro loop ih t t' ht'
    split at ht'
    · cases ht'
      exact .idle ‹_›
    · exact .fire ‹_› (ih _ _ ht')

theorem Polls.fires {t t' : Turn} {now : Timestamp} (h : Polls now t t') :
    ∃ es, t.Fires es t' := by
  induction h with
  | idle hpop => exact ⟨[], .idle hpop⟩
  | fire hpop _ ih =>
    obtain ⟨es, hes⟩ := ih
    exact ⟨_, .fire hpop hes⟩

theorem fires_getD_fireAtLast (t : Turn) : ∃ es, t.Fires es (t.fireAtLast.getD t) := by
  cases hloop : t.fireAtLast with
  | none => exact ⟨[], .done t⟩
  | some u => exact (polls_last_iff.mpr hloop).fires

theorem fires_fireUntil (now : Timestamp) (t : Turn) : ∃ es, t.Fires es (t.fireUntil now) := by
  fun_induction fireUntil now t with
  | case1 => exact ⟨[], .idle ‹_›⟩
  | case2 e q ds ns key due timers hpop hlast ih =>
    obtain ⟨es, hes⟩ := ih
    exact ⟨_, .fire (t := ⟨⟨e, q⟩, ds, ns⟩) hpop hes⟩
  | case3 e q ds ns key due timers hpop hlast t =>
    obtain ⟨es, hes⟩ := t.fires_getD_fireAtLast
    exact ⟨_, .fire (t := ⟨⟨e, q⟩, ds, ns⟩) hpop hes⟩

theorem fireUntil_eq (t : Turn) (now : Timestamp) : t.fireUntil now =
    match t.monitor.timers.popDue now with
    | (none, timers) => t.withTimers timers
    | (some (key, due), timers) =>
      let t' := fire key due (t.withTimers timers)
      if due < .last then t'.fireUntil now else t'.fireAtLast.getD t' := by
  obtain ⟨⟨e, q⟩, ds, ns⟩ := t
  rw [fireUntil]
  dsimp only
  split <;> simp only [*] <;> rfl

/-- Where the loop ends, that is what the poll leaves. -/
theorem Polls.fireUntil_eq {t t' : Turn} {now : Timestamp} (h : Polls now t t') :
    t.fireUntil now = t' := by
  induction h with
  | idle hpop => rw [Turn.fireUntil_eq, hpop]
  | @fire t t' due key timers hpop rest ih =>
    rw [Turn.fireUntil_eq, hpop]
    by_cases hearly : due < .last
    · exact (if_pos hearly).trans ih
    · obtain rfl : now = .last := by
        have hdue := (TimerQueue.load_popDue 0 hpop).1
        exact Timestamp.ext_micros
          (Nat.le_antisymm now.le_last (Nat.le_trans (Nat.le_of_not_lt hearly) hdue))
      dsimp only
      rw [if_neg hearly, polls_last_iff.mp rest]
      rfl

theorem Fires.popDue_of_cons {t t' : Turn} {x : Expiry} {es : List Expiry}
    (h : Fires t (x :: es) t') : x.monitor = t.monitor ∧
      ∃ now timers, t.monitor.timers.popDue now = (some (x.key, x.due), timers) := by
  cases h with
  | fire hpop _ => exact ⟨rfl, _, _, hpop⟩

theorem fireUntil_of_one {t : Turn} {now due : Timestamp} {key : TimerKey}
    {timers timers' : TimerQueue TimerKey}
    (hpop : t.monitor.timers.popDue now = (some (key, due), timers))
    (hpop' : (fire key due (t.withTimers timers)).monitor.timers.popDue now = (none, timers')) :
    t.fireUntil now = (fire key due (t.withTimers timers)).withTimers timers' :=
  (Polls.fire hpop (.idle hpop')).fireUntil_eq

theorem events_settle (t : Turn) (now : Timestamp) (f : Estimator → Step Estimator) :
    (t.settle now f).events = t.events ++ emitted (f t.monitor.estimator).actions := by
  have hdeliver : ∀ (as : List Action) (ds : Array Delivery),
      ((as.foldl (Action.deliver now) ds).map (·.event)).toList =
        (ds.map (·.event)).toList ++ emitted as := by
    intro as
    induction as with
    | nil => simp [emitted]
    | cons a as ih =>
      intro ds
      have hfirst : ((Action.deliver now ds a).map (·.event)).toList =
          (ds.map (·.event)).toList ++ emitted [a] := by
        cases a <;> simp [Action.deliver, emitted, Action.event?]
      have hsplit : emitted (a :: as) = emitted [a] ++ emitted as := emitted_append [a] as
      rw [List.foldl_cons, ih, hfirst, hsplit, List.append_assoc]
  exact hdeliver _ t.deliveries

/-- Since the call to the monitor, the turn has made these calls to the estimator. -/
structure Makes (t : Turn) (m : Monitor) (cs : List EstimatorCall) : Prop where
  estimator : t.monitor.estimator = m.estimator.after cs
  events : t.events = m.estimator.events cs

variable {m : Monitor} {t t' : Turn} {cs : List EstimatorCall}

theorem Makes.start (m : Monitor) : Makes { monitor := m } m [] :=
  ⟨rfl, by simp [Turn.events, Estimator.events, Estimator.exchanges]⟩

theorem Makes.settle (ht : t.Makes m cs) (now : Timestamp) (c : EstimatorCall) :
    (t.settle now (·.call c)).Makes m (cs ++ [c]) := by
  constructor
  · rw [Estimator.after_append, ← ht.estimator]
    rfl
  · rw [events_settle, Estimator.events_append, ← ht.estimator, ht.events]
    exact congrArg _ (List.append_nil _).symm

theorem Makes.fires (ht : t.Makes m cs) {es : List Expiry} (hf : Fires t es t') :
    t'.Makes m (cs ++ es.map Expiry.call) := by
  have hsame : cs ++ [] = cs := List.append_nil cs
  induction hf generalizing cs with
  | done t => exact hsame.symm ▸ ht
  | idle hpop => exact hsame.symm ▸ ⟨ht.estimator, ht.events⟩
  | @fire t t' now due key timers es hpop rest ih =>
    have hnow : (t.withTimers timers).Makes m cs := ⟨ht.estimator, ht.events⟩
    have hrest := ih (hnow.settle due (.timeout due key)) (List.append_nil _)
    rw [List.append_assoc] at hrest
    exact hrest

end Turn

namespace Monitor

theorem makes_onArrival (m : Monitor) (now : Timestamp) (a : Arrival) : ∃ es : List Expiry,
    (Turn.fireBefore now { monitor := m }).Makes m (es.map Expiry.call) ∧
      (m.onArrival now a).Makes m (es.map Expiry.call ++ [.arrival now a]) := by
  obtain ⟨es, hes⟩ := Turn.fires_fireBefore now { monitor := m }
  have hfired := (Turn.Makes.start m).fires hes
  exact ⟨es, hfired, hfired.settle now (.arrival now a)⟩

theorem makes_onRepair (m : Monitor) (now : Timestamp) (a : Arrival) : ∃ es : List Expiry,
    (m.onRepair now a).Makes m (es.map Expiry.call ++ [.repair a]) := by
  obtain ⟨es, hes⟩ := Turn.fires_fireBefore now { monitor := m }
  exact ⟨es, ((Turn.Makes.start m).fires hes).settle now (.repair a)⟩

def PollEnds (m : Monitor) (now : Timestamp) : Prop := ∃ t, Turn.Polls now { monitor := m } t

theorem makes_pollTimers (m : Monitor) (now : Timestamp) : ∃ es : List Expiry,
    (m.pollTimers now).Makes m (es.map Expiry.call) := by
  obtain ⟨es, hes⟩ := Turn.fires_fireUntil now { monitor := m }
  exact ⟨es, (Turn.Makes.start m).fires hes⟩

end Monitor
end LossWatch
