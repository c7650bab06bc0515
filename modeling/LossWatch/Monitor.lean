import LossWatch.Estimator.Rearming
import LossWatch.TimerQueue.Load

/-!
An estimator together with its timers. Before an arrival all timers due strictly earlier fire, each
at its own deadline; a timer due at the very time of the arrival loses to it. The firing loops end
because a timer's expiry arms at most two others, both later.
-/

namespace LossWatch

structure Delivery where
  time : Timestamp
  event : LossEvent
deriving DecidableEq

def Delivery.text (d : Delivery) : String := s!"{d.time.micros} {d.event.text}"

structure Listener where
  lost : Bool
  falsePositive : Bool

def Listener.hears (l : Listener) (d : Delivery) : Bool :=
  if d.event.isLost then l.lost else l.falsePositive

structure Monitor where
  estimator : Estimator
  timers : TimerQueue TimerKey := .empty

/-- A call's outcome so far: the monitor, the events it has handed out, and its notices. -/
structure Turn where
  monitor : Monitor
  deliveries : Array Delivery := #[]
  notices : Array Notice := #[]

def TimerQueue.perform (q : TimerQueue TimerKey) : Action → TimerQueue TimerKey
  | .arm key deadline => (q.arm key deadline).2
  | .cancel key => (q.cancel key).2
  | .emit _ => q

def Action.deliver (now : Timestamp) (deliveries : Array Delivery) : Action → Array Delivery
  | .emit e => deliveries.push ⟨now, e⟩
  | _ => deliveries

theorem TimerQueue.load_foldl_perform_le (as : List Action) (q : TimerQueue TimerKey)
    (limit : Nat) :
    (as.foldl TimerQueue.perform q).load limit ≤
      q.load limit + TimerQueue.totalWeight limit (armedDeadlines as) := by
  induction as generalizing q with
  | nil => exact Nat.le_refl _
  | cons a as ih =>
    refine Nat.le_trans (ih _) ?_
    cases a with
    | arm key deadline =>
      have := q.load_arm_le key deadline limit
      simp only [TimerQueue.perform, armedDeadlines, Action.armed?, List.filterMap_cons,
        TimerQueue.totalWeight] at this ⊢
      omega
    | cancel key => rw [TimerQueue.perform, TimerQueue.load_cancel]; exact Nat.le_refl _
    | emit e => exact Nat.le_refl _

namespace Turn

def events (t : Turn) : List LossEvent := (t.deliveries.map (·.event)).toList

def withTimers (t : Turn) (timers : TimerQueue TimerKey) : Turn :=
  { t with monitor := { t.monitor with timers } }

/-- Lets the estimator act and carries out what it asks for. -/
@[inline] def settle (now : Timestamp) (act : Estimator → Step Estimator) : Turn → Turn
  | ⟨⟨estimator, timers⟩, deliveries, notices⟩ =>
    let step := act estimator
    ⟨⟨step.state, step.actions.foldl .perform timers⟩,
      step.actions.foldl (Action.deliver now) deliveries, notices ++ step.notices⟩

/-- Runs the expiry of a timer that was taken off the queue, at its own deadline. -/
def fire (key : TimerKey) (deadline : Timestamp) : Turn → Turn :=
  settle deadline (·.onTimeout deadline key)

theorem load_fire_lt {q timers : TimerQueue TimerKey} {now d : Timestamp} {key : TimerKey}
    {limit : Nat} (e : Estimator) (ds : Array Delivery) (ns : Array Notice)
    (hpop : q.popDue now = (some (key, d), timers)) (hlimit : d.micros < limit)
    (hlast : d.micros < lastMicros) :
    (fire key d ⟨⟨e, timers⟩, ds, ns⟩).monitor.timers.load limit < q.load limit := by
  obtain ⟨-, hload⟩ := TimerQueue.load_popDue limit hpop
  obtain ⟨few, ahead⟩ := e.onTimeout_armsAhead key hlast
  have hle := TimerQueue.load_foldl_perform_le (e.onTimeout d key).actions timers limit
  have hsum : TimerQueue.totalWeight limit (armedDeadlines (e.onTimeout d key).actions) <
      TimerQueue.weight limit d.micros := by
    generalize armedDeadlines (e.onTimeout d key).actions = ds at few ahead
    have two := fun {a b : Nat} => @TimerQueue.weight_two_later limit d.micros a b hlimit
    match ds, few with
    | [], _ =>
      have := two (Nat.lt_succ_self _) (Nat.lt_succ_self _)
      simp only [TimerQueue.totalWeight]; omega
    | [a], _ =>
      have := two (ahead a (by simp)) (ahead a (by simp))
      simp only [TimerQueue.totalWeight]; omega
    | [a, b], _ =>
      have := two (ahead a (by simp)) (ahead b (by simp))
      simp only [TimerQueue.totalWeight]; omega
  exact Nat.lt_of_le_of_lt hle (by omega)

/-- Fires, one after another, the timers due before `now`, each time the earliest. -/
def fireBefore (now : Timestamp) : Turn → Turn
  | ⟨⟨estimator, timers⟩, deliveries, notices⟩ =>
    match timers.nextDeadline with
    | none => ⟨⟨estimator, timers⟩, deliveries, notices⟩
    | some deadline =>
      if _hdeadline : deadline < now then
        match _hpop : timers.popDue deadline with
        | (none, timers) => ⟨⟨estimator, timers⟩, deliveries, notices⟩
        | (some (key, due), timers) =>
          fireBefore now (fire key due ⟨⟨estimator, timers⟩, deliveries, notices⟩)
      else ⟨⟨estimator, timers⟩, deliveries, notices⟩
termination_by t => t.monitor.timers.load now.micros
decreasing_by
  have hdue : due.micros < now.micros :=
    Nat.lt_of_le_of_lt (TimerQueue.load_popDue 0 _hpop).1 _hdeadline
  exact load_fire_lt estimator _ _ _hpop hdue (Nat.lt_of_lt_of_le hdue now.le_last)

/-- At the last instant a timer cannot be armed any later, so that one expiry leads to the next, and
the loop may go on for ever: then there is no outcome. -/
def fireAtLast (t : Turn) : Option Turn :=
  match t.monitor.timers.popDue .last with
  | (none, timers) => some (t.withTimers timers)
  | (some (key, due), timers) => by
    -- The loop goes on from the turn that the expiry leaves.
    apply fireAtLast
    exact fire key due (t.withTimers timers)
partial_fixpoint

/-- Fires the timers due at or before `now`. Where the loop at the last instant goes on for ever, the
turn given here is not one that anybody sees: nothing is returned. -/
def fireUntil (now : Timestamp) : Turn → Turn
  | ⟨⟨estimator, timers⟩, deliveries, notices⟩ =>
    match _hpop : timers.popDue now with
    | (none, timers) => ⟨⟨estimator, timers⟩, deliveries, notices⟩
    | (some (key, due), timers) =>
      if _hlast : due < .last then
        fireUntil now (fire key due ⟨⟨estimator, timers⟩, deliveries, notices⟩)
      else
        let t := fire key due ⟨⟨estimator, timers⟩, deliveries, notices⟩
        t.fireAtLast.getD t
termination_by t => t.monitor.timers.load (now.micros + 1)
decreasing_by
  have hdue := (TimerQueue.load_popDue 0 _hpop).1
  exact load_fire_lt estimator _ _ _hpop (Nat.lt_succ_of_le hdue) _hlast

def onArrival (now : Timestamp) (a : Arrival) (t : Turn) : Turn :=
  (t.fireBefore now).settle now (·.onArrival now a)

def onRepair (now : Timestamp) (a : Arrival) (t : Turn) : Turn :=
  (t.fireBefore now).settle now (·.onRepair a)

end Turn

namespace Monitor

def onArrival (m : Monitor) (now : Timestamp) (a : Arrival) : Turn :=
  Turn.onArrival now a { monitor := m }

def onRepair (m : Monitor) (now : Timestamp) (a : Arrival) : Turn :=
  Turn.onRepair now a { monitor := m }

def pollTimers (m : Monitor) (now : Timestamp) : Turn := Turn.fireUntil now { monitor := m }

/-- The estimator's actions are not carried out: all timers are dropped instead. -/
def abandon (m : Monitor) (step : Step Estimator) : Turn where
  monitor := { estimator := step.state, timers := m.timers.clear }
  notices := step.notices.toArray

def reset (m : Monitor) : Turn := m.abandon m.estimator.reset
def stop (m : Monitor) : Turn := m.abandon m.estimator.stop

def noteWithdrawn (m : Monitor) (seq : SeqNumber) : Monitor :=
  { m with estimator := m.estimator.noteWithdrawn seq }

def nextDeadline (m : Monitor) : Option Timestamp := m.timers.nextDeadline
def hasTimer (m : Monitor) (key : TimerKey) : Bool := m.timers.isArmed key
def timerCount (m : Monitor) : Nat := m.timers.size

end Monitor
end LossWatch
