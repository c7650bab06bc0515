import LossWatch.Proofs.Monitor.StaleAlarm
import LossWatch.Proofs.TimerQueue.Agreement

/-!
How often a monitor is polled does not show. A poll fires what the next call would fire first anyway:
the same timers in the same order, each at its own deadline. What it leaves behind differs only in
alarms of released timers, and monitors that differ in no more than that go on alike, as long as
fewer timers are armed than a slot has generations.
-/

namespace LossWatch

namespace TimerQueue

variable {q q' : TimerQueue TimerKey}

theorem nextOrder_foldl_perform (q : TimerQueue TimerKey) (as : List Action) :
    (as.foldl perform q).nextOrder = q.nextOrder + (armedDeadlines as).length := by
  induction as generalizing q with
  | nil => rfl
  | cons a as ih =>
    rw [List.foldl_cons, ih]
    cases a with
    | arm key d =>
      have hlength : (armedDeadlines (.arm key d :: as)).length =
          (armedDeadlines as).length + 1 := rfl
      rw [perform, nextOrder_arm, hlength]
      omega
    | cancel key => rw [perform, nextOrder_cancel]; rfl
    | emit e => rfl

theorem load_le {κ : Type} (q : TimerQueue κ) (limit : Nat) :
    q.load limit ≤ q.agenda.length * Nat.pow 3 limit := by
  rw [load]
  generalize q.agenda = agenda
  induction agenda with
  | nil => exact Nat.zero_le _
  | cons a agenda ih =>
    have hweight : weight limit a.deadline.micros ≤ Nat.pow 3 limit := by
      rw [weight]
      split
      · exact Nat.pow_le_pow_right (by decide) (Nat.sub_le ..)
      · exact Nat.zero_le _
    rw [agendaLoad_cons, List.length_cons, Nat.add_mul]
    omega

theorem Agrees.perform (h : q.Agrees q') (few : q'.nextOrder < generations) (a : Action) :
    (q.perform a).Agrees (q'.perform a) := by
  cases a with
  | arm key d => exact h.arm few key d
  | cancel key => exact h.cancel few key
  | emit e => exact h

theorem Agrees.foldl_perform (h : q.Agrees q') (as : List Action)
    (few : (as.foldl TimerQueue.perform q').nextOrder < generations) :
    (as.foldl TimerQueue.perform q).Agrees (as.foldl TimerQueue.perform q') := by
  induction as generalizing q q' with
  | nil => exact h
  | cons a as ih =>
    have few' : q'.nextOrder < generations := by rw [nextOrder_foldl_perform] at few; omega
    exact ih (h.perform few' a) few

end TimerQueue

/-! ### Monitors that go on alike -/

namespace Monitor

def armed (m : Monitor) : Nat := m.timers.nextOrder

structure Alike (m m' : Monitor) : Prop where
  estimator : m'.estimator = m.estimator
  timers : m.timers.Agrees m'.timers

def Agreeing (m : Monitor) : Prop := m.timers.Agrees m.timers

end Monitor

namespace Turn

variable {t t' : Turn} {now due : Timestamp} {key : TimerKey} {timers timers' : TimerQueue TimerKey}
  {ds : Array Delivery}

theorem armed_settle (t : Turn) (now : Timestamp) (f : Estimator → Step Estimator) :
    (t.settle now f).monitor.armed =
      t.monitor.armed + (armedDeadlines (f t.monitor.estimator).actions).length :=
  t.monitor.timers.nextOrder_foldl_perform _

theorem armed_le_settle (t : Turn) (now : Timestamp) (f : Estimator → Step Estimator) :
    t.monitor.armed ≤ (t.settle now f).monitor.armed := by
  rw [armed_settle]
  exact Nat.le_add_right ..

theorem Fires.armed_le {es : List Expiry} (h : Fires t es t') :
    t.monitor.armed ≤ t'.monitor.armed := by
  induction h with
  | done => exact Nat.le_refl _
  | idle hpop => exact Nat.le_of_eq (TimerQueue.nextOrder_of_popDue hpop).symm
  | @fire t t' now due key timers es hpop rest ih =>
    have hpopped : t.monitor.armed = (t.withTimers timers).monitor.armed :=
      (TimerQueue.nextOrder_of_popDue hpop).symm
    have hacted : (t.withTimers timers).monitor.armed ≤
        (Turn.fire key due (t.withTimers timers)).monitor.armed := armed_le_settle ..
    omega

theorem armed_le_fireBefore (t : Turn) (now : Timestamp) :
    t.monitor.armed ≤ (t.fireBefore now).monitor.armed := by
  obtain ⟨es, hes⟩ := fires_fireBefore now t
  exact hes.armed_le

theorem armed_le_fireUntil (t : Turn) (now : Timestamp) :
    t.monitor.armed ≤ (t.fireUntil now).monitor.armed := by
  obtain ⟨es, hes⟩ := fires_fireUntil now t
  exact hes.armed_le

theorem Fires.agreeing {es : List Expiry} (h : Fires t es t') (ht : t.monitor.Agreeing)
    (few : t'.monitor.armed < TimerQueue.generations) : t'.monitor.Agreeing := by
  have few' := Nat.lt_of_le_of_lt h.armed_le few
  induction h with
  | done => exact ht
  | idle hpop =>
    obtain ⟨-, timers', hpop', hagree⟩ := ht.popDue_none few' hpop
    obtain ⟨-, rfl⟩ := Prod.mk.inj (hpop.symm.trans hpop')
    exact hagree
  | fire hpop rest ih =>
    obtain ⟨timers', hpop', hagree⟩ := ht.popDue_same few' hpop
    obtain ⟨-, rfl⟩ := Prod.mk.inj (hpop.symm.trans hpop')
    have hfew := Nat.lt_of_le_of_lt rest.armed_le few
    exact ih (hagree.foldl_perform _ hfew) few hfew

theorem armed_fireUntil_le (t : Turn) (hlast : now < .last) :
    (t.fireUntil now).monitor.armed ≤
      t.monitor.armed + 2 * t.monitor.timers.load (now.micros + 1) := by
  fun_induction Turn.fireUntil now t with
  | case1 e q dl ns timers hpop =>
    have hpopped : timers.nextOrder = q.nextOrder := TimerQueue.nextOrder_of_popDue hpop
    exact Nat.le_trans (Nat.le_of_eq hpopped) (Nat.le_add_right ..)
  | case2 e q dl ns key due timers hpop hbefore ih =>
    have hpopped : timers.nextOrder = q.nextOrder := TimerQueue.nextOrder_of_popDue hpop
    have hdue : due.micros < now.micros + 1 :=
      Nat.lt_succ_of_le (TimerQueue.load_popDue 0 hpop).1
    have hload := load_fire_lt e dl ns hpop hdue hbefore
    have hfew := (e.onTimeout_armsAhead key hbefore).few
    have hfired := armed_settle ⟨⟨e, timers⟩, dl, ns⟩ due (·.onTimeout due key)
    simp only [fire, Monitor.armed] at ih hfired hload ⊢
    omega
  | case3 e q dl ns key due timers hpop hnever =>
    have hdue := (TimerQueue.load_popDue 0 hpop).1
    exact absurd (Nat.lt_of_le_of_lt hdue hlast) hnever

/-- The monitors are alike, and the second turn has handed out `ds` before all the first has. -/
structure Alike (ds : Array Delivery) (t t' : Turn) : Prop where
  monitor : t.monitor.Alike t'.monitor
  deliveries : t'.deliveries = ds ++ t.deliveries

theorem foldl_deliver_append (now : Timestamp) (as : List Action) (ds ds' : Array Delivery) :
    as.foldl (Action.deliver now) (ds ++ ds') = ds ++ as.foldl (Action.deliver now) ds' := by
  induction as generalizing ds' with
  | nil => rfl
  | cons a as ih =>
    have hfirst : Action.deliver now (ds ++ ds') a = ds ++ Action.deliver now ds' a := by
      cases a <;> simp [Action.deliver]
    rw [List.foldl_cons, List.foldl_cons, hfirst, ih]

namespace Alike

theorem withTimers (h : Alike ds t t') (hq : timers.Agrees timers') :
    Alike ds (t.withTimers timers) (t'.withTimers timers') :=
  ⟨⟨h.monitor.estimator, hq⟩, h.deliveries⟩

theorem settle (h : Alike ds t t') (now : Timestamp) (f : Estimator → Step Estimator)
    (few : (t'.settle now f).monitor.armed < TimerQueue.generations) :
    Alike ds (t.settle now f) (t'.settle now f) := by
  have hact : f t'.monitor.estimator = f t.monitor.estimator := congrArg f h.monitor.estimator
  have hsettled : ∀ u : Turn, u.settle now f =
      ⟨⟨(f u.monitor.estimator).state,
          (f u.monitor.estimator).actions.foldl .perform u.monitor.timers⟩,
        (f u.monitor.estimator).actions.foldl (Action.deliver now) u.deliveries,
        u.notices ++ (f u.monitor.estimator).notices⟩ := fun _ => rfl
  rw [hsettled t'] at few ⊢
  rw [hsettled t]
  rw [hact] at few ⊢
  refine ⟨⟨rfl, h.monitor.timers.foldl_perform _ few⟩, ?_⟩
  simp only [h.deliveries, foldl_deliver_append]

theorem fire (h : Alike ds t t')
    (few : (Turn.fire key due t').monitor.armed < TimerQueue.generations) :
    Alike ds (Turn.fire key due t) (Turn.fire key due t') :=
  h.settle due _ few

theorem fireBefore (h : Alike ds t t')
    (few : (t'.fireBefore now).monitor.armed < TimerQueue.generations) :
    Alike ds (t.fireBefore now) (t'.fireBefore now) := by
  have few' : t'.monitor.armed < TimerQueue.generations :=
    Nat.lt_of_le_of_lt (armed_le_fireBefore t' now) few
  fun_induction Turn.fireBefore now t generalizing t' with
  | case1 e q dl ns hnone =>
    have hnone' : t'.monitor.timers.nextDeadline = none := h.monitor.timers.nextDeadline.trans hnone
    simp only [fireBefore_eq t', hnone']
    exact h
  | case2 e q dl ns deadline hnext hlt timers hpop =>
    have hnext' := h.monitor.timers.nextDeadline.trans hnext
    obtain ⟨-, timers', hpop', hagree⟩ := h.monitor.timers.popDue_none few' hpop
    simp only [fireBefore_eq t', hnext', if_pos hlt, hpop']
    exact h.withTimers hagree
  | case3 e q dl ns deadline hnext hlt key due timers hpop ih =>
    have hnext' := h.monitor.timers.nextDeadline.trans hnext
    obtain ⟨timers', hpop', hagree⟩ := h.monitor.timers.popDue_same few' hpop
    simp only [fireBefore_eq t', hnext', if_pos hlt, hpop'] at few ⊢
    have hfew : (Turn.fire key due (t'.withTimers timers')).monitor.armed < TimerQueue.generations :=
      Nat.lt_of_le_of_lt (armed_le_fireBefore _ now) few
    exact ih ((h.withTimers hagree).fire hfew) few hfew
  | case4 e q dl ns deadline hnext hlt =>
    have hnext' := h.monitor.timers.nextDeadline.trans hnext
    simp only [fireBefore_eq t', hnext', if_neg hlt]
    exact h

theorem fireUntil (h : Alike ds t t') (hlast : now < .last)
    (few : (t'.fireUntil now).monitor.armed < TimerQueue.generations) :
    Alike ds (t.fireUntil now) (t'.fireUntil now) := by
  have few' : t'.monitor.armed < TimerQueue.generations :=
    Nat.lt_of_le_of_lt (armed_le_fireUntil t' now) few
  fun_induction Turn.fireUntil now t generalizing t' with
  | case1 e q dl ns timers hpop =>
    obtain ⟨-, timers', hpop', hagree⟩ := h.monitor.timers.popDue_none few' hpop
    simp only [fireUntil_eq t', hpop']
    exact h.withTimers hagree
  | case2 e q dl ns key due timers hpop hbefore ih =>
    obtain ⟨timers', hpop', hagree⟩ := h.monitor.timers.popDue_same few' hpop
    simp only [fireUntil_eq t', hpop', if_pos hbefore] at few ⊢
    have hfew : (Turn.fire key due (t'.withTimers timers')).monitor.armed < TimerQueue.generations :=
      Nat.lt_of_le_of_lt (armed_le_fireUntil _ now) few
    exact ih ((h.withTimers hagree).fire hfew) few hfew
  | case3 e q dl ns key due timers hpop hnever =>
    have hdue := (TimerQueue.load_popDue 0 hpop).1
    exact absurd (Nat.lt_of_le_of_lt hdue hlast) hnever

end Alike

/-! ### Firing in two stages -/

/-- Whatever `F` does, it fires the timers due at or before `first` first. -/
structure FiresFirst (first : Timestamp) (F : Turn → Turn) : Prop where
  armed_le : ∀ t, t.monitor.armed ≤ (F t).monitor.armed
  alike : ∀ {ds t t'}, Alike ds t t' → (F t').monitor.armed < TimerQueue.generations →
    Alike ds (F t) (F t')
  fires : ∀ {t key due}, due ≤ first → t.monitor.timers.nextDeadline = some due →
    (∀ now, due ≤ now → ∃ timers, t.monitor.timers.popDue now = (some (key, due), timers)) →
    ∃ now timers, due ≤ now ∧ t.monitor.timers.popDue now = (some (key, due), timers) ∧
      F t = F (fire key due (t.withTimers timers))

namespace FiresFirst

variable {first : Timestamp} {F : Turn → Turn}

theorem fireBefore (hfirst : first < now) : FiresFirst first (fireBefore now) where
  armed_le t := armed_le_fireBefore t now
  alike h few := h.fireBefore few
  fires {t key due} hdue hnext hpop := by
    obtain ⟨timers, hpop⟩ := hpop due (Nat.le_refl due.micros)
    have hlt : due < now := Nat.lt_of_le_of_lt hdue hfirst
    refine ⟨due, timers, Nat.le_refl due.micros, hpop, ?_⟩
    simp only [fireBefore_eq t, hnext, if_pos hlt, hpop]

theorem fireUntil (hfirst : first ≤ now) (hlast : now < .last) :
    FiresFirst first (fireUntil now) where
  armed_le t := armed_le_fireUntil t now
  alike h few := h.fireUntil hlast few
  fires {t key due} hdue _ hpop := by
    have hle : due ≤ now := Nat.le_trans hdue hfirst
    obtain ⟨timers, hpop⟩ := hpop now hle
    have hlt : due < .last := Nat.lt_of_le_of_lt hle hlast
    refine ⟨now, timers, hle, hpop, ?_⟩
    simp only [fireUntil_eq t, hpop, if_pos hlt]

theorem settle (h : FiresFirst first F) (now : Timestamp) (f : Estimator → Step Estimator) :
    FiresFirst first fun t => (F t).settle now f where
  armed_le t := Nat.le_trans (h.armed_le t) (armed_le_settle ..)
  alike ha few := (h.alike ha (Nat.lt_of_le_of_lt (armed_le_settle ..) few)).settle now f few
  fires hdue hnext hpop := by
    obtain ⟨asked, timers, hle, hpop, hsame⟩ := h.fires hdue hnext hpop
    exact ⟨asked, timers, hle, hpop, by rw [hsame]⟩

/-- So a poll at `first` takes nothing away from `F` but what comes first in it. -/
theorem absorbs (h : FiresFirst first F) (hlast : first < .last) (ha : Alike ds t t')
    (few : (F t').monitor.armed < TimerQueue.generations) :
    Alike ds (F (t.fireUntil first)) (F t') := by
  have few' : t'.monitor.armed < TimerQueue.generations := Nat.lt_of_le_of_lt (h.armed_le t') few
  fun_induction Turn.fireUntil first t generalizing t' with
  | case1 e q dl ns timers hpop =>
    obtain ⟨hagree, -⟩ := ha.monitor.timers.popDue_none few' hpop
    exact h.alike ⟨⟨ha.monitor.estimator, hagree⟩, ha.deliveries⟩ few
  | case2 e q dl ns key due timers hpop _ ih =>
    have hdue := (TimerQueue.load_popDue 0 hpop).1
    obtain ⟨hnext, hcomes⟩ := ha.monitor.timers.popDue_some few' hpop
    obtain ⟨asked, timers', hle, hpop', hsame⟩ := h.fires hdue hnext fun now hnow => by
      obtain ⟨timers', hpop', -⟩ := hcomes now hnow
      exact ⟨timers', hpop'⟩
    obtain ⟨_, hpop'', hagree⟩ := hcomes asked hle
    obtain ⟨-, rfl⟩ := Prod.mk.inj (hpop'.symm.trans hpop'')
    rw [hsame] at few ⊢
    have hfew : (fire key due (t'.withTimers timers')).monitor.armed < TimerQueue.generations :=
      Nat.lt_of_le_of_lt (h.armed_le _) few
    exact ih ((ha.withTimers hagree).fire hfew) few hfew
  | case3 e q dl ns key due timers hpop hnever =>
    have hdue := (TimerQueue.load_popDue 0 hpop).1
    exact absurd (Nat.lt_of_le_of_lt hdue hlast) hnever

end FiresFirst

end Turn

/-! ### Every run of calls -/

/-- A poll at `t` just before this call fires nothing that the call would not fire first. -/
def MonitorCall.Follows (t : Timestamp) : MonitorCall → Prop
  | .arrival now _ | .repair now _ => t < now
  | .poll now => t ≤ now ∧ now < .last
  | _ => False

namespace Monitor

variable {m m' : Monitor} {c : MonitorCall} {t : Timestamp}

theorem Alike.trans {m'' : Monitor} (h : m.Alike m') (h' : m'.Alike m'') : m.Alike m'' :=
  ⟨h'.estimator.trans h.estimator, h.timers.trans h'.timers⟩

theorem Alike.start (h : m.Alike m') : Turn.Alike #[] { monitor := m } { monitor := m' } :=
  ⟨h, rfl⟩

theorem Alike.abandon (h : m.Alike m') (few : m'.armed < TimerQueue.generations)
    (f : Estimator → Step Estimator) :
    Turn.Alike #[] (m.abandon (f m.estimator)) (m'.abandon (f m'.estimator)) :=
  ⟨⟨congrArg (fun e => (f e).state) h.estimator, h.timers.clear few⟩, rfl⟩

theorem armed_abandon (h : m.timers.Indexed) (step : Step Estimator) :
    (m.abandon step).monitor.armed = m.armed :=
  TimerQueue.nextOrder_clear h

theorem Alike.call (h : m.Alike m') (hc : ∀ now, c.time? = some now → now < .last)
    (few : (m'.call c).monitor.armed < TimerQueue.generations) :
    Turn.Alike #[] (m.call c) (m'.call c) := by
  cases c with
  | arrival now a =>
    have hfew : (Turn.fireBefore now { monitor := m' }).monitor.armed < TimerQueue.generations :=
      Nat.lt_of_le_of_lt (Turn.armed_le_settle ..) few
    exact (h.start.fireBefore hfew).settle now _ few
  | repair now a =>
    have hfew : (Turn.fireBefore now { monitor := m' }).monitor.armed < TimerQueue.generations :=
      Nat.lt_of_le_of_lt (Turn.armed_le_settle ..) few
    exact (h.start.fireBefore hfew).settle now _ few
  | poll now => exact h.start.fireUntil (hc now rfl) few
  | withdrawn seq =>
    exact ⟨⟨congrArg (Estimator.noteWithdrawn · seq) h.estimator, h.timers⟩, rfl⟩
  | reset => exact h.abandon (armed_abandon h.timers.indexed _ ▸ few) Estimator.reset
  | stop => exact h.abandon (armed_abandon h.timers.indexed _ ▸ few) Estimator.stop

theorem Mirrored.armed_le_call (hm : m.Mirrored) (c : MonitorCall) :
    m.armed ≤ (m.call c).monitor.armed := by
  cases c with
  | arrival now a =>
    exact Nat.le_trans (Turn.armed_le_fireBefore { monitor := m } now) (Turn.armed_le_settle ..)
  | repair now a =>
    exact Nat.le_trans (Turn.armed_le_fireBefore { monitor := m } now) (Turn.armed_le_settle ..)
  | poll now => exact Turn.armed_le_fireUntil { monitor := m } now
  | withdrawn seq => exact Nat.le_refl _
  | reset => exact Nat.le_of_eq (armed_abandon hm.tracks.indexed _).symm
  | stop => exact Nat.le_of_eq (armed_abandon hm.tracks.indexed _).symm

theorem Mirrored.armed_le_after (hm : m.Mirrored) (calls : List MonitorCall) :
    m.armed ≤ (m.after calls).armed := by
  induction calls generalizing m with
  | nil => exact Nat.le_refl _
  | cons c calls ih => exact Nat.le_trans (hm.armed_le_call c) (ih (hm.call c))

/-- What a run of calls hands out, each event with the time its handler was given. -/
def handedOut (m : Monitor) : List MonitorCall → Array Delivery
  | [] => #[]
  | c :: calls => (m.call c).deliveries ++ (m.call c).monitor.handedOut calls

theorem handedOut_append (m : Monitor) (calls later : List MonitorCall) :
    m.handedOut (calls ++ later) = m.handedOut calls ++ (m.after calls).handedOut later := by
  induction calls generalizing m with
  | nil => exact Array.empty_append.symm
  | cons c calls ih =>
    rw [List.cons_append, handedOut, ih, handedOut, Array.append_assoc]
    rfl

theorem Alike.after (h : m.Alike m') (hm' : m'.Mirrored) {calls : List MonitorCall}
    (early : ∀ now ∈ calls.filterMap MonitorCall.time?, now < .last)
    (few : (m'.after calls).armed < TimerQueue.generations) :
    (m.after calls).Alike (m'.after calls) ∧ m.handedOut calls = m'.handedOut calls := by
  induction calls generalizing m m' with
  | nil => exact ⟨h, rfl⟩
  | cons c calls ih =>
    have hcall := h.call (fun now htime => early now (List.mem_filterMap.mpr
      ⟨c, List.mem_cons_self, htime⟩)) (Nat.lt_of_le_of_lt ((hm'.call c).armed_le_after calls) few)
    have hlater : ∀ now ∈ calls.filterMap MonitorCall.time?, now < .last := fun now hnow =>
      early now (List.mem_filterMap.mpr (List.exists_mem_cons_of_exists
        (List.mem_filterMap.mp hnow)))
    obtain ⟨hafter, hrest⟩ := ih hcall.monitor (hm'.call c) hlater few
    have hfirst : (m'.call c).deliveries = (m.call c).deliveries :=
      hcall.deliveries.trans Array.empty_append
    exact ⟨hafter, by rw [handedOut, handedOut, hfirst, hrest]⟩

theorem Agreeing.call (h : m.Agreeing) (hm : m.Mirrored)
    (few : (m.call c).monitor.armed < TimerQueue.generations) : (m.call c).monitor.Agreeing := by
  have hstart : Turn.Alike #[] { monitor := m } { monitor := m } := ⟨⟨rfl, h⟩, rfl⟩
  have hfew : m.armed < TimerQueue.generations := Nat.lt_of_le_of_lt (hm.armed_le_call c) few
  cases c with
  | arrival now a =>
    obtain ⟨es, hes⟩ := Turn.fires_fireBefore now { monitor := m }
    exact (hes.agreeing h (Nat.lt_of_le_of_lt (Turn.armed_le_settle ..) few)).foldl_perform _ few
  | repair now a =>
    obtain ⟨es, hes⟩ := Turn.fires_fireBefore now { monitor := m }
    exact (hes.agreeing h (Nat.lt_of_le_of_lt (Turn.armed_le_settle ..) few)).foldl_perform _ few
  | poll now =>
    obtain ⟨es, hes⟩ := Turn.fires_fireUntil now { monitor := m }
    exact hes.agreeing h few
  | withdrawn seq => exact h
  | reset => exact h.clear hfew
  | stop => exact h.clear hfew

theorem agreeing_after {e : Estimator} (fresh : e.Fresh) (calls : List MonitorCall)
    (few : (Monitor.after { estimator := e } calls).armed < TimerQueue.generations) :
    (Monitor.after { estimator := e } calls).Agreeing := by
  have hstart : Agreeing { estimator := e } := TimerQueue.Refines.empty.agrees
  have hm := mirrored_of_fresh fresh
  generalize ({ estimator := e } : Monitor) = m at few hstart hm ⊢
  induction calls generalizing m with
  | nil => exact hstart
  | cons c calls ih =>
    have hfew := Nat.lt_of_le_of_lt ((hm.call c).armed_le_after calls) few
    exact ih (m.call c).monitor few (hstart.call hm hfew) (hm.call c)

theorem exists_firesFirst (follows : c.Follows t) : t < .last ∧
    ∃ F, Turn.FiresFirst t F ∧ ∀ m : Monitor, m.call c = F { monitor := m } := by
  cases c with
  | arrival now a =>
    exact ⟨Nat.lt_of_lt_of_le follows now.le_last, Turn.onArrival now a,
      (Turn.FiresFirst.fireBefore follows).settle now _, fun _ => rfl⟩
  | repair now a =>
    exact ⟨Nat.lt_of_lt_of_le follows now.le_last, Turn.onRepair now a,
      (Turn.FiresFirst.fireBefore follows).settle now _, fun _ => rfl⟩
  | poll now =>
    exact ⟨Nat.lt_of_le_of_lt follows.1 follows.2, Turn.fireUntil now,
      .fireUntil follows.1 follows.2, fun _ => rfl⟩
  | withdrawn _ => exact follows.elim
  | reset => exact follows.elim
  | stop => exact follows.elim

/-- The call after the poll goes on from the polled monitor, and hands out the rest. -/
theorem Alike.poll_call (h : m.Alike m) (follows : c.Follows t)
    (few : (m.call c).monitor.armed < TimerQueue.generations) :
    ((m.call (.poll t)).monitor.call c).monitor.Alike (m.call c).monitor ∧
      (m.call (.poll t)).deliveries ++ ((m.call (.poll t)).monitor.call c).deliveries =
        (m.call c).deliveries := by
  obtain ⟨hlast, F, hF, hcall⟩ := exists_firesFirst follows
  rw [hcall] at few ⊢
  rw [hcall]
  let polled := Turn.fireUntil t { monitor := m }
  have hstaged : Turn.Alike #[] (F polled) (F { monitor := m }) := hF.absorbs hlast h.start few
  have hfew : (F polled).monitor.armed < TimerQueue.generations :=
    Nat.lt_of_le_of_lt (Nat.le_of_eq hstaged.monitor.timers.order.symm) few
  have hpolled : polled.monitor.Alike polled.monitor :=
    (h.call (c := .poll t) (fun _ htime => Option.some.inj htime ▸ hlast)
      (Nat.lt_of_le_of_lt (hF.armed_le polled) hfew)).monitor
  have hcarried : Turn.Alike polled.deliveries { monitor := polled.monitor } polled :=
    ⟨hpolled, Array.append_empty.symm⟩
  have hlate := hF.alike hcarried hfew
  refine ⟨hlate.monitor.trans hstaged.monitor, ?_⟩
  exact hlate.deliveries.symm.trans (Array.empty_append.symm.trans hstaged.deliveries.symm)

/-- A poll before a call that is no earlier changes nothing but when events are handed out: the
events of the two together are those of the call alone, with the same times, and whatever follows
goes on from the same estimator and the same timers in the same order. It holds for as long as fewer
timers were armed than a slot has generations. -/
theorem poll_changes_nothing {e : Estimator} (fresh : e.Fresh) (before later : List MonitorCall)
    {t : Timestamp} {c : MonitorCall} (follows : c.Follows t)
    (early : ∀ now ∈ later.filterMap MonitorCall.time?, now < .last)
    (few : (Monitor.after { estimator := e } (before ++ c :: later)).armed <
      TimerQueue.generations) :
    let m := Monitor.after { estimator := e } before
    let alone := m.after (c :: later)
    let polled := m.after (.poll t :: c :: later)
    m.handedOut (.poll t :: c :: later) = m.handedOut (c :: later) ∧
      polled.estimator = alone.estimator ∧
      (∀ key, polled.timers.deadline? key = alone.timers.deadline? key) ∧
      ∀ n, polled.timers.upcoming n = alone.timers.upcoming n := by
  intro m alone polled
  have hfresh := mirrored_of_fresh fresh
  have hm : m.Mirrored := hfresh.after before
  have hsame : Monitor.after { estimator := e } (before ++ c :: later) = alone :=
    List.foldl_append
  rw [hsame] at few
  have hreached : m.Alike m :=
    ⟨rfl, agreeing_after fresh before (Nat.lt_of_le_of_lt (hm.armed_le_after (c :: later)) few)⟩
  obtain ⟨hcall, hevents⟩ := hreached.poll_call follows
    (Nat.lt_of_le_of_lt ((hm.call c).armed_le_after later) few)
  obtain ⟨hafter, hrest⟩ := hcall.after (hm.call c) early few
  refine ⟨?_, hafter.estimator.symm, fun key => (hafter.timers.deadline? key).symm,
    fun n => (hafter.timers.upcoming few n).symm⟩
  rw [handedOut, handedOut, handedOut, ← Array.append_assoc, hevents, hrest]

theorem poll_changes_nothing_of_two_arrivals :
    let predictor : Predictor := .movingAverage ⟨⟨1, []⟩, ⟨1, []⟩, 1, 1.0, none, 0.0, 0⟩
    let e : Estimator := .single { config := { guard := ⟨0⟩ }, predictor }
    let t : Timestamp := .ofNat 3
    let c : MonitorCall := .poll (.ofNat 4)
    let m := Monitor.after { estimator := e }
      [.arrival .zero ⟨.ofNat 1, none⟩, .arrival (.ofNat 1) ⟨.ofNat 2, none⟩]
    let alone := m.after [c]
    let polled := m.after [.poll t, c]
    m.armed = 1 ∧ m.handedOut [.poll t, c] = m.handedOut [c] ∧
      polled.estimator = alone.estimator ∧
      (∀ key, polled.timers.deadline? key = alone.timers.deadline? key) ∧
      ∀ n, polled.timers.upcoming n = alone.timers.upcoming n := by
  intro predictor e t c m alone polled
  have one : m.armed = 1 := by decide +kernel
  have alarm : m.timers.agenda.length = 1 := by decide +kernel
  have follows : c.Follows t := by constructor <;> decide
  have few : alone.armed < TimerQueue.generations := by
    have early : Timestamp.ofNat 4 < .last := by decide
    have hpoll : alone.armed ≤ m.armed + 2 * m.timers.load 5 :=
      Turn.armed_fireUntil_le { monitor := m } early
    have hload : m.timers.load 5 ≤ 1 * 243 := alarm ▸ m.timers.load_le 5
    rw [TimerQueue.generations]
    omega
  exact ⟨one, poll_changes_nothing (.single _ _) _ [] follows (by simp) few⟩

/-- Past that many timers a poll shows. It brings up the alarm of a timer long gone, which the call
alone, looking at the next deadline, leaves where it is. -/
theorem poll_wakes_stale_alarm :
    let m := Monitor.after { estimator := unsteady } (stalling ++ [reviving])
    let t : Timestamp := .ofNat 10000001000
    unsteady.Fresh ∧ warning.Follows t ∧
      m.handedOut [warning] = #[⟨.ofNat 10000002000, .falsePositive (.ofNat 5) none⟩] ∧
      m.handedOut [.poll t, warning] = #[⟨.ofNat 10000001000, .lost (.ofNat 7) none⟩,
        ⟨.ofNat 10000002000, .falsePositive (.ofNat 5) none⟩] := by
  intro m t
  have hm : m = revived := after_reviving
  have hpop : revived.timers.popDue t = (some (.basic, t), _) :=
    Prod.ext (by rw [timers_revived]; decide +kernel) rfl
  let woken := Turn.fire .basic t (Turn.withTimers { monitor := revived } (revived.timers.popDue t).2)
  have hpop' : woken.monitor.timers.popDue t = (none, _) := Prod.ext (by decide +kernel) rfl
  have hpoll : revived.call (.poll t) = _ :=
    Turn.fireUntil_of_one (t := { monitor := revived }) hpop hpop'
  have hidle : ∀ d ∈ (revived.call (.poll t)).monitor.nextDeadline,
      Timestamp.ofNat 10000002000 ≤ d := by
    rw [hpoll]
    decide +kernel
  have hfollows : warning.Follows t := by
    show Timestamp.ofNat 10000001000 < .ofNat 10000002000
    decide
  refine ⟨.single _ _, hfollows, ?_, ?_⟩
  · rw [hm, handedOut, handedOut, call_warning, deliveries_warned]
    rfl
  · rw [hm, handedOut, handedOut, handedOut, warning, call_arrival_of_idle hidle, hpoll]
    decide +kernel

end Monitor
end LossWatch
