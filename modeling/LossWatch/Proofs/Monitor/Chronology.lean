import LossWatch.Proofs.Estimator.Arming
import LossWatch.Proofs.Monitor.Polling

/-!
Time in a monitor. Firing leaves no live timer behind the call: each expiry arms no timer for an
instant before its own, and the loops go on until nothing is due. So along a run of calls whose times
do not decrease, the live timers are never due before the last call, every expiry comes after all that
was handed out before it, and the times given to the event handlers do not decrease either.
-/

namespace LossWatch

namespace TimerQueue

variable {q : TimerQueue TimerKey} {t : Timestamp}

theorem Orderly.foldl_perform (hq : q.Orderly) (as : List Action) :
    (as.foldl TimerQueue.perform q).Orderly := by
  induction as generalizing q with
  | nil => exact hq
  | cons a as ih =>
    apply ih
    cases a with
    | arm key d => exact hq.arm key d
    | cancel key => exact hq.cancel key
    | emit e => exact hq

theorem Orderly.noneBefore (hq : q.Orderly) (h : ∀ d, q.nextDeadline = some d → t ≤ d) :
    q.NoneBefore t := by
  intro key d hd
  obtain ⟨handle, hlive⟩ := hq.indexed.deadline?_eq_some_iff.mp hd
  cases hnext : q.nextDeadline with
  | none =>
    rw [hq.indexed.nextDeadline_eq_none_iff] at hnext
    simp [hnext handle] at hlive
  | some least =>
    exact Nat.le_trans (h least hnext) ((hq.indexed.nextDeadline_eq_some_iff.mp hnext).2 hlive)

theorem Orderly.exists_due (hq : q.Orderly) (h : q.nextDeadline = some t) :
    ∃ key, q.deadline? key = some t := by
  obtain ⟨⟨key, handle, hlive⟩, -⟩ := hq.indexed.nextDeadline_eq_some_iff.mp h
  exact ⟨key, hq.indexed.deadline?_eq_some_iff.mpr ⟨handle, hlive⟩⟩

theorem NoneBefore.foldl_perform (hq : q.Orderly) (h : q.NoneBefore t) {as : List Action}
    (has : ∀ d ∈ armedDeadlines as, t ≤ d) : (as.foldl TimerQueue.perform q).NoneBefore t := by
  induction as generalizing q with
  | nil => exact h
  | cons a as ih =>
    have hfirst : (q.perform a).NoneBefore t := by
      cases a with
      | arm key d => exact h.arm hq.indexed (has d (by simp [armedDeadlines, Action.armed?])) key
      | cancel key => exact h.cancel hq.indexed key
      | emit e => exact h
    refine ih (hq.foldl_perform [a]) hfirst fun d hd => has d ?_
    obtain ⟨b, hb, harmed⟩ := List.mem_filterMap.mp hd
    exact List.mem_filterMap.mpr ⟨b, List.mem_cons_of_mem _ hb, harmed⟩

end TimerQueue

/-- What the estimator hands out on the expiry, stamped with the deadline. -/
def Expiry.deliveries (x : Expiry) : List Delivery :=
  (emitted (x.monitor.estimator.onTimeout x.due x.key).actions).map (⟨x.due, ·⟩)

theorem foldl_deliver (now : Timestamp) (as : List Action) (ds : Array Delivery) :
    (as.foldl (Action.deliver now) ds).toList = ds.toList ++ (emitted as).map (⟨now, ·⟩) := by
  induction as generalizing ds with
  | nil => simp [emitted]
  | cons a as ih =>
    have hsplit : emitted (a :: as) = emitted [a] ++ emitted as := emitted_append [a] as
    rw [List.foldl_cons, ih, hsplit, List.map_append, ← List.append_assoc]
    cases a <;> simp [Action.deliver, emitted, Action.event?]

namespace Turn

variable {t t' : Turn} {es : List Expiry} {now since : Timestamp} {f : Estimator → Step Estimator}

theorem orderly_settle (ht : t.monitor.timers.Orderly) (now : Timestamp)
    (f : Estimator → Step Estimator) : (t.settle now f).monitor.timers.Orderly :=
  ht.foldl_perform _

theorem orderly_fire (ht : t.monitor.timers.Orderly) (key : TimerKey) (due : Timestamp) :
    (fire key due t).monitor.timers.Orderly :=
  orderly_settle ht due _

theorem noneBefore_settle (ht : t.monitor.timers.Orderly) (h : t.monitor.timers.NoneBefore now)
    (hf : ∀ e, (f e).ArmsFrom now) : (t.settle now f).monitor.timers.NoneBefore now :=
  h.foldl_perform ht (hf t.monitor.estimator)

theorem noneBefore_fire {key : TimerKey} {due : Timestamp} (ht : t.monitor.timers.Orderly)
    (h : t.monitor.timers.NoneBefore due) : (fire key due t).monitor.timers.NoneBefore due :=
  noneBefore_settle ht h fun e => e.onTimeout_armsFrom due key

theorem deliveries_settle (t : Turn) (now : Timestamp) (f : Estimator → Step Estimator) :
    (t.settle now f).deliveries.toList =
      t.deliveries.toList ++ (emitted (f t.monitor.estimator).actions).map (⟨now, ·⟩) :=
  foldl_deliver now _ t.deliveries

/-! ### A chain of expiries -/

namespace Fires

theorem orderly (hf : Fires t es t') (ht : t.monitor.timers.Orderly) :
    t'.monitor.timers.Orderly := by
  induction hf with
  | done t => exact ht
  | idle hpop => exact (ht.popDue_none hpop).1
  | @fire t t' now due key timers es hpop rest ih =>
    exact ih (orderly_fire (t := t.withTimers timers) (ht.popDue_some hpop).1 key due)

theorem deliveries (hf : Fires t es t') :
    t'.deliveries.toList = t.deliveries.toList ++ es.flatMap Expiry.deliveries := by
  induction hf with
  | done t => simp
  | idle hpop => simp [withTimers]
  | @fire t t' now due key timers es hpop rest ih =>
    rw [ih, Turn.fire, deliveries_settle, List.flatMap_cons, List.append_assoc]
    rfl

theorem punctual (hf : Fires t es t') (hm : t.monitor.Mirrored)
    (few : t'.monitor.armed < TimerQueue.generations) :
    ∀ x ∈ es, x.monitor.timers.deadline? x.key = some x.due := by
  induction hf with
  | done t => simp
  | idle hpop => simp
  | @fire t t' now due key timers es hpop rest ih =>
    have hone : Fires t [⟨t.monitor, key, due⟩] (Turn.fire key due (t.withTimers timers)) :=
      .fire hpop (.done _)
    have hfew : t.monitor.armed < TimerQueue.generations :=
      Nat.lt_of_le_of_lt (Fires.armed_le (.fire hpop rest)) few
    intro x hx
    rcases List.mem_cons.mp hx with rfl | hx
    · obtain ⟨d, hd, hdue⟩ := (hone.mirrored hm).2 _ List.mem_cons_self
      rw [hm.tracks.deadline, hd, hdue hfew]
    · exact ih (hone.mirrored hm).1 few x hx

theorem chronological (hf : Fires t es t') (hm : t.monitor.Mirrored)
    (ht : t.monitor.timers.Orderly) (h : t.monitor.timers.NoneBefore since)
    (few : t'.monitor.armed < TimerQueue.generations) :
    es.Pairwise (·.due ≤ ·.due) ∧ (∀ x ∈ es, since ≤ x.due) ∧
      t'.monitor.timers.NoneBefore since := by
  induction hf generalizing since with
  | done t => exact ⟨.nil, by simp, h⟩
  | idle hpop =>
    exact ⟨.nil, by simp, fun k d hd => h ((ht.indexed.popDue_none hpop).2 k ▸ hd)⟩
  | @fire t t' now due key timers es hpop rest ih =>
    have hone : Fires t [⟨t.monitor, key, due⟩] (Turn.fire key due (t.withTimers timers)) :=
      .fire hpop (.done _)
    have hdue : since ≤ due := h ((Fires.fire hpop rest).punctual hm few _ List.mem_cons_self)
    obtain ⟨hpopped, -, hleft⟩ := ht.popDue_some hpop
    obtain ⟨hsorted, hafter, hlast⟩ := ih (hone.mirrored hm).1 (hone.orderly ht)
      (noneBefore_fire (t := t.withTimers timers) hpopped hleft) few
    refine ⟨List.pairwise_cons.mpr ⟨hafter, hsorted⟩, fun x hx => ?_, hlast.mono hdue⟩
    rcases List.mem_cons.mp hx with rfl | hx
    · exact hdue
    · exact Nat.le_trans hdue (hafter x hx)

end Fires

/-! ### The loops run until nothing is due -/

theorem noneBefore_fireBefore (ht : t.monitor.timers.Orderly) (now : Timestamp) :
    (t.fireBefore now).monitor.timers.NoneBefore now := by
  fun_induction Turn.fireBefore now t with
  | case1 e q ds ns hnext =>
    apply ht.noneBefore
    rw [hnext]
    simp
  | case2 e q ds ns deadline hnext hlt timers hpop =>
    obtain ⟨key, hkey⟩ := ht.exists_due hnext
    rw [← (ht.indexed.popDue_none hpop).2] at hkey
    exact absurd ((ht.popDue_none hpop).2 hkey) (Nat.lt_irrefl _)
  | case3 e q ds ns deadline hnext hlt key due timers hpop ih =>
    exact ih (orderly_fire (t := ⟨⟨e, timers⟩, ds, ns⟩) (ht.popDue_some hpop).1 key due)
  | case4 e q ds ns deadline hnext hlt =>
    apply ht.noneBefore
    rw [hnext]
    intro d hd
    exact Option.some.inj hd ▸ Nat.le_of_not_lt hlt

theorem fires_before (now : Timestamp) (t : Turn) : ∃ es, Fires t es (t.fireBefore now) ∧
    (∀ x ∈ es, x.due < now) ∧ es.length ≤ t.monitor.timers.load (now.micros + 1) := by
  fun_induction Turn.fireBefore now t with
  | case1 => exact ⟨[], .done _, by simp, by simp⟩
  | case2 => exact ⟨[], .idle ‹_›, by simp, by simp⟩
  | case3 e q ds ns deadline hnext hlt key due timers hpop ih =>
    obtain ⟨es, hes, hdues, hlength⟩ := ih
    have hdue : due < now := Nat.lt_of_le_of_lt (TimerQueue.load_popDue 0 hpop).1 hlt
    have hload : (fire key due ⟨⟨e, timers⟩, ds, ns⟩).monitor.timers.load (now.micros + 1) <
        q.load (now.micros + 1) :=
      load_fire_lt e ds ns hpop (Nat.lt_succ_of_lt hdue) (Nat.lt_of_lt_of_le hdue now.le_last)
    refine ⟨_, .fire (t := ⟨⟨e, q⟩, ds, ns⟩) hpop hes, fun x hx => ?_,
      Nat.lt_of_le_of_lt hlength hload⟩
    rcases List.mem_cons.mp hx with rfl | hx
    · exact hdue
    · exact hdues x hx
  | case4 => exact ⟨[], .done _, by simp, by simp⟩

theorem allAfter_fireUntil (ht : t.monitor.timers.Orderly) (hlast : now < .last) :
    (t.fireUntil now).monitor.timers.AllAfter now := by
  fun_induction Turn.fireUntil now t with
  | case1 e q ds ns timers hpop => exact (ht.popDue_none hpop).2
  | case2 e q ds ns key due timers hpop _ ih =>
    exact ih (orderly_fire (t := ⟨⟨e, timers⟩, ds, ns⟩) (ht.popDue_some hpop).1 key due)
  | case3 e q ds ns key due timers hpop hnever =>
    have hdue := (TimerQueue.load_popDue 0 hpop).1
    exact absurd (Nat.lt_of_le_of_lt hdue hlast) hnever

theorem noneBefore_fireUntil (hm : t.monitor.Mirrored) (ht : t.monitor.timers.Orderly)
    (few : (t.fireUntil now).monitor.armed < TimerQueue.generations) :
    (t.fireUntil now).monitor.timers.NoneBefore now := by
  fun_induction Turn.fireUntil now t with
  | case1 e q ds ns timers hpop => exact .of_allAfter (ht.popDue_none hpop).2
  | case2 e q ds ns key due timers hpop _ ih =>
    have hone : Fires ⟨⟨e, q⟩, ds, ns⟩ [⟨⟨e, q⟩, key, due⟩] (fire key due ⟨⟨e, timers⟩, ds, ns⟩) :=
      .fire (t := ⟨⟨e, q⟩, ds, ns⟩) hpop (.done _)
    exact ih (hone.mirrored hm).1 (hone.orderly ht) few
  | case3 e q ds ns key due timers hpop hnever t =>
    have hone : Fires ⟨⟨e, q⟩, ds, ns⟩ [⟨⟨e, q⟩, key, due⟩] t :=
      .fire (t := ⟨⟨e, q⟩, ds, ns⟩) hpop (.done _)
    obtain ⟨hpopped, -, hleft⟩ := ht.popDue_some hpop
    have hfired : t.monitor.timers.NoneBefore due :=
      noneBefore_fire (t := ⟨⟨e, timers⟩, ds, ns⟩) hpopped hleft
    have hnow : now ≤ due := Nat.le_trans now.le_last (Nat.le_of_not_lt hnever)
    obtain ⟨es, hes⟩ := t.fires_getD_fireAtLast
    exact (hes.chronological (hone.mirrored hm).1 (hone.orderly ht) hfired few).2.2.mono hnow

/-- A poll comes to an end after at most as many expiries as the load of the due timers says. -/
theorem fires_until (now : Timestamp) (t : Turn) :
    ∃ es, Fires t es (t.fireUntil now) ∧ (∀ x ∈ es, x.due ≤ now) ∧
      (now < .last → es.length ≤ t.monitor.timers.load (now.micros + 1)) := by
  fun_induction Turn.fireUntil now t with
  | case1 => exact ⟨[], .idle ‹_›, by simp, by simp⟩
  | case2 e q ds ns key due timers hpop hlast ih =>
    obtain ⟨es, hes, hdues, hlength⟩ := ih
    have hdue := (TimerQueue.load_popDue 0 hpop).1
    refine ⟨_, .fire (t := ⟨⟨e, q⟩, ds, ns⟩) hpop hes, fun x hx => ?_, fun hnow => ?_⟩
    · rcases List.mem_cons.mp hx with rfl | hx
      · exact hdue
      · exact hdues x hx
    · have hload : (fire key due ⟨⟨e, timers⟩, ds, ns⟩).monitor.timers.load (now.micros + 1) <
          q.load (now.micros + 1) := load_fire_lt e ds ns hpop (Nat.lt_succ_of_le hdue) hlast
      exact Nat.lt_of_le_of_lt (hlength hnow) hload
  | case3 e q ds ns key due timers hpop hnever t =>
    have hdue := (TimerQueue.load_popDue 0 hpop).1
    have hnow : Timestamp.last ≤ now := Nat.le_trans (Nat.le_of_not_lt hnever) hdue
    obtain ⟨es, hes⟩ := t.fires_getD_fireAtLast
    exact ⟨_, .fire (t := ⟨⟨e, q⟩, ds, ns⟩) hpop hes, fun x _ => Nat.le_trans x.due.le_last hnow,
      fun hlast => absurd hnow (Nat.not_le_of_lt hlast)⟩

end Turn

/-! ### Every run of calls -/

def InOrder (calls : List MonitorCall) : Prop :=
  (calls.filterMap MonitorCall.time?).Pairwise (· ≤ ·)

namespace Monitor

variable {m : Monitor} {c : MonitorCall} {now since : Timestamp}

theorem orderly_call (hq : m.timers.Orderly) (c : MonitorCall) :
    (m.call c).monitor.timers.Orderly := by
  cases c with
  | arrival now a =>
    obtain ⟨es, hes⟩ := Turn.fires_fireBefore now { monitor := m }
    exact Turn.orderly_settle (hes.orderly hq) now _
  | repair now a =>
    obtain ⟨es, hes⟩ := Turn.fires_fireBefore now { monitor := m }
    exact Turn.orderly_settle (hes.orderly hq) now _
  | poll now =>
    obtain ⟨es, hes⟩ := Turn.fires_fireUntil now { monitor := m }
    exact hes.orderly hq
  | withdrawn seq => exact hq
  | reset => exact hq.clear
  | stop => exact hq.clear

theorem orderly_after (hq : m.timers.Orderly) (calls : List MonitorCall) :
    (m.after calls).timers.Orderly := by
  induction calls generalizing m with
  | nil => exact hq
  | cons c calls ih => exact ih (orderly_call hq c)

theorem noneBefore_onArrival (hq : m.timers.Orderly) (now : Timestamp) (a : Arrival) :
    (m.onArrival now a).monitor.timers.NoneBefore now := by
  obtain ⟨es, hes⟩ := Turn.fires_fireBefore now { monitor := m }
  exact Turn.noneBefore_settle (hes.orderly hq) (Turn.noneBefore_fireBefore hq now)
    fun e => e.onArrival_armsFrom now a

theorem noneBefore_onRepair (hq : m.timers.Orderly) (now : Timestamp) (a : Arrival) :
    (m.onRepair now a).monitor.timers.NoneBefore now := by
  obtain ⟨es, hes⟩ := Turn.fires_fireBefore now { monitor := m }
  exact Turn.noneBefore_settle (hes.orderly hq) (Turn.noneBefore_fireBefore hq now)
    fun e => e.onRepair_armsFrom now a

/-- A call hands out what its expiries bring up, each at its deadline, and then what the packet itself
does, at the time of the call. -/
structure HandsOut (m : Monitor) (c : MonitorCall) (es : List Expiry) (own : List Delivery) :
    Prop where
  expires : m.Expires es c
  deliveries : (m.call c).deliveries.toList = es.flatMap Expiry.deliveries ++ own
  own : ∀ d ∈ own, c.time? = some d.time
  due : ∀ x ∈ es, ∃ now, c.time? = some now ∧ x.due ≤ now
  length_le : ∀ now, c.time? = some now → now < .last →
    es.length ≤ m.timers.load (now.micros + 1)

theorem HandsOut.of_settle {t : Turn} {es : List Expiry} {f : Estimator → Step Estimator}
    (hcall : m.call c = t.settle now f) (htime : c.time? = some now) (hexpires : m.Expires es c)
    (hes : Turn.Fires { monitor := m } es t) (hdue : ∀ x ∈ es, x.due < now)
    (hlength : es.length ≤ m.timers.load (now.micros + 1)) :
    m.HandsOut c es ((emitted (f t.monitor.estimator).actions).map (⟨now, ·⟩)) where
  expires := hexpires
  deliveries := by
    rw [hcall, Turn.deliveries_settle, hes.deliveries]
    rfl
  own := by
    intro d hd
    obtain ⟨e, -, rfl⟩ := List.mem_map.mp hd
    exact htime
  due x hx := ⟨now, htime, Nat.le_of_lt (hdue x hx)⟩
  length_le now' htime' _ := by
    rw [htime] at htime'
    exact Option.some.inj htime' ▸ hlength

theorem HandsOut.of_untimed (hdeliveries : (m.call c).deliveries = #[])
    (hexpires : m.Expires [] c) : m.HandsOut c [] [] where
  expires := hexpires
  deliveries := by rw [hdeliveries]; rfl
  own := by simp
  due := by simp
  length_le := by simp

theorem exists_handsOut (m : Monitor) (c : MonitorCall) : ∃ es own, m.HandsOut c es own := by
  cases c with
  | arrival now a =>
    obtain ⟨es, hes, hdue, hlength⟩ := Turn.fires_before now { monitor := m }
    exact ⟨es, _, .of_settle (f := (·.onArrival now a)) rfl rfl ⟨_, hes, rfl⟩ hes hdue hlength⟩
  | repair now a =>
    obtain ⟨es, hes, hdue, hlength⟩ := Turn.fires_before now { monitor := m }
    exact ⟨es, _, .of_settle (f := (·.onRepair a)) rfl rfl ⟨_, hes, rfl⟩ hes hdue hlength⟩
  | poll now =>
    obtain ⟨es, hes, hdue, hlength⟩ := Turn.fires_until now { monitor := m }
    refine ⟨es, [], hes, ?_, by simp, fun x hx => ⟨now, rfl, hdue x hx⟩, ?_⟩
    · rw [List.append_nil]
      exact hes.deliveries
    · intro now' htime hlast
      obtain rfl := Option.some.inj htime
      exact hlength hlast
  | withdrawn seq => exact ⟨[], [], .of_untimed rfl rfl⟩
  | reset => exact ⟨[], [], .of_untimed rfl rfl⟩
  | stop => exact ⟨[], [], .of_untimed rfl rfl⟩

theorem time_of_mem_deliveries {x : Expiry} {d : Delivery} (h : d ∈ x.deliveries) :
    d.time = x.due := by
  obtain ⟨e, -, rfl⟩ := List.mem_map.mp h
  rfl

namespace HandsOut

variable {es : List Expiry} {own : List Delivery}

theorem time_le (h : m.HandsOut c es own) (htime : c.time? = some now) :
    ∀ d ∈ (m.call c).deliveries.toList, d.time ≤ now := by
  intro d hd
  rw [h.deliveries] at hd
  rcases List.mem_append.mp hd with hd | hd
  · obtain ⟨x, hx, hd⟩ := List.mem_flatMap.mp hd
    obtain ⟨now', htime', hdue⟩ := h.due x hx
    obtain rfl := Option.some.inj (htime.symm.trans htime')
    rw [time_of_mem_deliveries hd]
    exact hdue
  · exact Nat.le_of_eq (congrArg _ (Option.some.inj ((h.own d hd).symm.trans htime)))

theorem exists_fires (h : m.HandsOut c es own) (hm : m.Mirrored) :
    ∃ t, Turn.Fires { monitor := m } es t ∧ t.monitor.armed ≤ (m.call c).monitor.armed := by
  have hnone : es = [] → ∃ t, Turn.Fires { monitor := m } es t ∧
      t.monitor.armed ≤ (m.call c).monitor.armed := by
    rintro rfl
    exact ⟨_, .done _, hm.armed_le_call c⟩
  have hexpires := h.expires
  cases c with
  | arrival now a =>
    obtain ⟨t, hes, hcall⟩ := hexpires
    refine ⟨t, hes, ?_⟩
    rw [call, hcall]
    exact Turn.armed_le_settle ..
  | repair now a =>
    obtain ⟨t, hes, hcall⟩ := hexpires
    refine ⟨t, hes, ?_⟩
    rw [call, hcall]
    exact Turn.armed_le_settle ..
  | poll now => exact ⟨_, hexpires, Nat.le_refl _⟩
  | withdrawn seq => exact hnone hexpires
  | reset => exact hnone hexpires
  | stop => exact hnone hexpires

theorem punctual (h : m.HandsOut c es own) (hm : m.Mirrored)
    (few : (m.call c).monitor.armed < TimerQueue.generations) :
    ∀ x ∈ es, x.monitor.timers.deadline? x.key = some x.due := by
  obtain ⟨t, hes, harmed⟩ := h.exists_fires hm
  exact hes.punctual hm (Nat.lt_of_le_of_lt harmed few)

theorem chronological (h : m.HandsOut c es own) (hm : m.Mirrored) (hq : m.timers.Orderly)
    (hsince : m.timers.NoneBefore since) (hcall : ∀ now, c.time? = some now → since ≤ now)
    (few : (m.call c).monitor.armed < TimerQueue.generations) :
    (m.call c).deliveries.toList.Pairwise (·.time ≤ ·.time) ∧
      ∀ d ∈ (m.call c).deliveries.toList, since ≤ d.time := by
  obtain ⟨t, hes, harmed⟩ := h.exists_fires hm
  obtain ⟨hsorted, hafter, -⟩ :=
    hes.chronological hm hq hsince (Nat.lt_of_le_of_lt harmed few)
  rw [h.deliveries]
  refine ⟨List.pairwise_append.mpr ⟨List.pairwise_flatMap.mpr ⟨?_, ?_⟩, ?_, ?_⟩, ?_⟩
  · intro x hx
    apply List.pairwise_of_forall_mem_list
    intro d hd d' hd'
    rw [time_of_mem_deliveries hd, time_of_mem_deliveries hd']
    exact Nat.le_refl _
  · apply hsorted.imp
    intro x y hxy d hd d' hd'
    rw [time_of_mem_deliveries hd, time_of_mem_deliveries hd']
    exact hxy
  · apply List.pairwise_of_forall_mem_list
    intro d hd d' hd'
    exact Nat.le_of_eq (congrArg _ (Option.some.inj ((h.own d hd).symm.trans (h.own d' hd'))))
  · intro d hd d' hd'
    apply h.time_le (h.own d' hd')
    rw [h.deliveries]
    exact List.mem_append_left _ hd
  · intro d hd
    rcases List.mem_append.mp hd with hd | hd
    · obtain ⟨x, hx, hd⟩ := List.mem_flatMap.mp hd
      rw [time_of_mem_deliveries hd]
      exact hafter x hx
    · exact hcall d.time (h.own d hd)

end HandsOut

theorem noneBefore_call (hm : m.Mirrored) (hq : m.timers.Orderly)
    (few : (m.call c).monitor.armed < TimerQueue.generations) (htime : c.time? = some now) :
    (m.call c).monitor.timers.NoneBefore now := by
  cases c with
  | arrival now' a =>
    obtain rfl := Option.some.inj htime
    exact noneBefore_onArrival hq now' a
  | repair now' a =>
    obtain rfl := Option.some.inj htime
    exact noneBefore_onRepair hq now' a
  | poll now' =>
    obtain rfl := Option.some.inj htime
    exact Turn.noneBefore_fireUntil (t := { monitor := m }) hm hq few
  | withdrawn seq => cases htime
  | reset => cases htime
  | stop => cases htime

theorem noneBefore_call_of_untimed (hq : m.timers.Orderly) (h : m.timers.NoneBefore since)
    (htime : c.time? = none) : (m.call c).monitor.timers.NoneBefore since := by
  cases c with
  | arrival now a => cases htime
  | repair now a => cases htime
  | poll now => cases htime
  | withdrawn seq => exact h
  | reset => exact .clear hq.indexed
  | stop => exact .clear hq.indexed

/-- The run so far, seen from its last instant: the events are out, the timers and calls to come. -/
theorem HandsOut.exists_instant {es : List Expiry} {own : List Delivery} {calls : List MonitorCall}
    (h : m.HandsOut c es own) (hm : m.Mirrored) (hq : m.timers.Orderly)
    (hsince : m.timers.NoneBefore since) (hcalls : InOrder (c :: calls))
    (hafter : ∀ now ∈ (c :: calls).filterMap MonitorCall.time?, since ≤ now)
    (few : (m.call c).monitor.armed < TimerQueue.generations) :
    ∃ now, since ≤ now ∧ (∀ d ∈ (m.call c).deliveries.toList, d.time ≤ now) ∧
      (m.call c).monitor.timers.NoneBefore now ∧ InOrder calls ∧
      ∀ next ∈ calls.filterMap MonitorCall.time?, now ≤ next := by
  cases htime : c.time? with
  | none =>
    rw [InOrder, List.filterMap_cons_none htime] at hcalls
    rw [List.filterMap_cons_none htime] at hafter
    have hnone : ∀ d ∈ (m.call c).deliveries.toList, d.time ≤ since := by
      intro d hd
      rw [h.deliveries] at hd
      rcases List.mem_append.mp hd with hd | hd
      · obtain ⟨x, hx, -⟩ := List.mem_flatMap.mp hd
        obtain ⟨now, hnow, -⟩ := h.due x hx
        simp [htime] at hnow
      · have hown := h.own d hd
        simp [htime] at hown
    exact ⟨since, Nat.le_refl _, hnone, noneBefore_call_of_untimed hq hsince htime, hcalls, hafter⟩
  | some now =>
    rw [InOrder, List.filterMap_cons_some htime, List.pairwise_cons] at hcalls
    rw [List.filterMap_cons_some htime] at hafter
    exact ⟨now, hafter now List.mem_cons_self, h.time_le htime, noneBefore_call hm hq few htime,
      hcalls.2, hcalls.1⟩

theorem pairwise_handedOut (hm : m.Mirrored) (hq : m.timers.Orderly)
    (hsince : m.timers.NoneBefore since) {calls : List MonitorCall} (hcalls : InOrder calls)
    (hafter : ∀ now ∈ calls.filterMap MonitorCall.time?, since ≤ now)
    (few : (m.after calls).armed < TimerQueue.generations) :
    (m.handedOut calls).toList.Pairwise (·.time ≤ ·.time) ∧
      ∀ d ∈ (m.handedOut calls).toList, since ≤ d.time := by
  induction calls generalizing m since with
  | nil => simp [handedOut]
  | cons c calls ih =>
    have hfew : (m.call c).monitor.armed < TimerQueue.generations :=
      Nat.lt_of_le_of_lt ((hm.call c).armed_le_after calls) few
    obtain ⟨es, own, h⟩ := m.exists_handsOut c
    obtain ⟨now, hle, hout, hnext, hcalls', hafter'⟩ :=
      h.exists_instant hm hq hsince hcalls hafter hfew
    have hcall : ∀ now, c.time? = some now → since ≤ now := fun now htime =>
      hafter now (List.mem_filterMap.mpr ⟨c, List.mem_cons_self, htime⟩)
    obtain ⟨hsorted, hfirst⟩ := h.chronological hm hq hsince hcall hfew
    obtain ⟨hrest, hlater⟩ := ih (hm.call c) (orderly_call hq c) hnext hcalls' hafter' few
    rw [handedOut, Array.toList_append]
    refine ⟨List.pairwise_append.mpr ⟨hsorted, hrest, fun d hd d' hd' =>
      Nat.le_trans (hout d hd) (hlater d' hd')⟩, fun d hd => ?_⟩
    rcases List.mem_append.mp hd with hd | hd
    · exact hfirst d hd
    · exact Nat.le_trans hle (hlater d hd)

/-- Before the last instant every call comes to an end. It hands out what its timers bring up and then
what is its own, nothing of it stamped later than the call; a poll leaves only timers due later than
it, and a packet leaves none that was due before it. For as long as fewer timers were armed than a slot
has generations, each comes up at its own deadline, and along calls whose times do not decrease the
times given to the handlers do not decrease. -/
theorem firing_is_chronological {e : Estimator} (fresh : e.Fresh) (calls : List MonitorCall) :
    let m := Monitor.after { estimator := e } calls
    (∀ c, ∃ es own, m.HandsOut c es own) ∧
      (∀ now, now < .last → (m.pollTimers now).monitor.timers.AllAfter now) ∧
      (∀ now a, (m.onArrival now a).monitor.timers.NoneBefore now ∧
        (m.onRepair now a).monitor.timers.NoneBefore now) ∧
      (∀ c now, c.time? = some now → ∀ d ∈ (m.call c).deliveries.toList, d.time ≤ now) ∧
      (∀ c es own, m.HandsOut c es own → (m.call c).monitor.armed < TimerQueue.generations →
        ∀ x ∈ es, x.monitor.timers.deadline? x.key = some x.due) ∧
      (InOrder calls → m.armed < TimerQueue.generations →
        (Monitor.handedOut { estimator := e } calls).toList.Pairwise (·.time ≤ ·.time)) := by
  intro m
  have hfresh := mirrored_of_fresh fresh
  have hm : m.Mirrored := hfresh.after calls
  have hq : m.timers.Orderly := orderly_after .empty calls
  refine ⟨m.exists_handsOut, fun now hlast => ?_, fun now a => ?_, fun c now htime => ?_,
    fun c es own h few => h.punctual hm few, fun hcalls few => ?_⟩
  · exact Turn.allAfter_fireUntil (t := { monitor := m }) hq hlast
  · exact ⟨noneBefore_onArrival hq now a, noneBefore_onRepair hq now a⟩
  · obtain ⟨es, own, h⟩ := m.exists_handsOut c
    exact h.time_le htime
  · have hnone : (TimerQueue.empty : TimerQueue TimerKey).NoneBefore .zero :=
      fun _ d _ => Nat.zero_le d.micros
    exact (pairwise_handedOut hfresh .empty hnone hcalls (fun now _ => Nat.zero_le now.micros)
      few).1

theorem firing_is_chronological_of_two_arrivals :
    let predictor : Predictor := .movingAverage ⟨⟨1, []⟩, ⟨1, []⟩, 1, 1.0, none, 0.0, 0⟩
    let e : Estimator := .single { config := { guard := ⟨0⟩ }, predictor }
    let calls : List MonitorCall :=
      [.arrival .zero ⟨.ofNat 1, none⟩, .arrival (.ofNat 1) ⟨.ofNat 2, none⟩]
    let m := Monitor.after { estimator := e } calls
    m.armed = 1 ∧ (m.pollTimers (.ofNat 4)).monitor.timers.AllAfter (.ofNat 4) ∧
      (∀ es own, m.HandsOut (.poll (.ofNat 4)) es own →
        ∀ x ∈ es, x.monitor.timers.deadline? x.key = some x.due) ∧
      (Monitor.handedOut { estimator := e } calls).toList.Pairwise (·.time ≤ ·.time) := by
  intro predictor e calls m
  have one : m.armed = 1 := by decide +kernel
  have alarm : m.timers.agenda.length = 1 := by decide +kernel
  have early : Timestamp.ofNat 4 < .last := by decide
  have few : (m.pollTimers (.ofNat 4)).monitor.armed < TimerQueue.generations := by
    have hpoll : (m.pollTimers (.ofNat 4)).monitor.armed ≤ m.armed + 2 * m.timers.load 5 :=
      Turn.armed_fireUntil_le { monitor := m } early
    have hload : m.timers.load 5 ≤ 1 * 243 := alarm ▸ m.timers.load_le 5
    rw [TimerQueue.generations]
    omega
  have inOrder : InOrder calls := by
    show List.Pairwise (· ≤ ·) [Timestamp.zero, Timestamp.ofNat 1]
    decide
  obtain ⟨-, hpolled, -, -, hpunctual, hsorted⟩ :=
    firing_is_chronological (.single { guard := ⟨0⟩ } predictor) calls
  exact ⟨one, hpolled _ early, fun es own h => hpunctual _ es own h few,
    hsorted inOrder (one ▸ by decide)⟩

/-- The far alarm brings a timer up 726 s before its own deadline, and its event after a later one. -/
theorem stale_alarm_fires_early :
    let c : MonitorCall := .poll (.ofNat 10000002000)
    let calls := stalling ++ [reviving, warning]
    let m := Monitor.after { estimator := unsteady } calls
    unsteady.Fresh ∧ InOrder (calls ++ [c]) ∧
      (∃ es own, m.HandsOut c es own ∧ ∃ x ∈ es, x.due = .ofNat 10000001000 ∧
        x.monitor.timers.deadline? x.key = some (.ofNat 10726625392)) ∧
      ¬ (Monitor.handedOut { estimator := unsteady } (calls ++ [c])).toList.Pairwise
        (·.time ≤ ·.time) := by
  intro c calls m
  have hcalls : calls = (stalling ++ [reviving]) ++ [warning] := rfl
  have hm : m = warned.monitor := by
    rw [← call_warning, ← after_reviving, ← after_concat, ← hcalls]
  have hlost := deliveries_poll_warned
  refine ⟨.single _ _, ?_, ?_, ?_⟩
  · show List.Pairwise (· ≤ ·) ((calls ++ [c]).filterMap MonitorCall.time?)
    decide
  · rw [hm]
    obtain ⟨es, own, h⟩ := warned.monitor.exists_handsOut c
    refine ⟨es, own, h, ?_⟩
    have hdeliveries := h.deliveries
    rw [hlost] at hdeliveries
    cases es with
    | nil =>
      obtain rfl : [_] = own := hdeliveries
      exact absurd (h.own _ List.mem_cons_self) (by decide)
    | cons x es =>
      obtain ⟨hmonitor, _, _, hfirst⟩ := h.expires.popDue_of_cons
      rw [timers_warned] at hfirst
      obtain ⟨hkey, hdue⟩ := due_of_popDue_revived hfirst
      refine ⟨x, List.mem_cons_self, hdue, ?_⟩
      rw [hmonitor, hkey, timers_warned, timers_revived]
      decide +kernel
  · intro hsorted
    have hsplit : calls ++ [c] = (stalling ++ [reviving]) ++ [warning, c] := rfl
    rw [hsplit, handedOut_append, after_reviving, Array.toList_append] at hsorted
    have hlast := (List.pairwise_append.mp hsorted).2.1
    rw [handedOut, handedOut, handedOut, call_warning, hlost, deliveries_warned] at hlast
    exact absurd hlast (by decide)

end Monitor
end LossWatch
