import LossWatch.Proofs.Monitor.Mirror

/-!
An alarm that outlives the generations of its slot. An estimator that waits for a number it already has
arms its timer anew at every expiry, a microsecond later each time. The alarm of a timer that was
replaced before stays on the agenda meanwhile. Once the slot has gone through all its generations, that
alarm passes for the one of the timer armed last.
-/

namespace LossWatch

namespace TimerQueue

/-- One timer in a slot that is at its `n`-th generation, and behind its alarm that of an older one. -/
def single (key : TimerKey) (n : Nat) (deadline : Timestamp) (stale : Alarm) :
    TimerQueue TimerKey where
  slots := #[⟨n, some (key, deadline)⟩]
  free := []
  byKey := [(key, ⟨0, n⟩)]
  agenda := [⟨deadline, n, ⟨0, n⟩⟩, stale]
  nextOrder := n + 1

def vacant (n : Nat) (stale : Alarm) : TimerQueue TimerKey where
  slots := #[⟨n, none⟩]
  free := [0]
  byKey := []
  agenda := [stale]
  nextOrder := n

variable {key : TimerKey} {n : Nat} {now deadline : Timestamp} {stale : Alarm}

theorem nextDeadline_single : (single key n deadline stale).nextDeadline = some deadline := by
  simp [single, nextDeadline, deadlineOf, liveEntry, Option.merge]

theorem popDue_single (hdue : deadline ≤ now) (hn : n + 1 < generations) :
    (single key n deadline stale).popDue now = (some (key, deadline), vacant (n + 1) stale) := by
  have hnow : ¬ now < deadline := Nat.not_lt.mpr hdue
  simp [single, vacant, popDue, firstDue, liveEntry, release, forget, hnow, Nat.mod_eq_of_lt hn]

theorem arm_vacant (hstale : deadline < stale.deadline) :
    ((vacant n stale).arm key deadline).2 = single key n deadline stale := by
  have hbefore : ¬ stale.deadline ≤ deadline := Nat.not_le.mpr hstale
  simp [single, vacant, arm, cancel, handle?, claim, place, compact, enlist, hbefore]

end TimerQueue

/-! ### Expiries in vain -/

namespace SinglePath

variable {s : SinglePath} {p : ExpectedPacket}

/-- The timer waits for the number after the newest one, and that has come already. -/
structure Stalled (s : SinglePath) (p : ExpectedPacket) : Prop where
  running : s.stopped = false
  phase : s.phase = .armed
  pending : s.pending = some p
  next : s.maxSeen.map (·.next) = some p.seq
  known : s.ledger.wasReceived p.seq = true
  ready : s.predictor.isReady = true
  due : p.due = s.lastArrival.after s.predictor.prediction
  guarded : p.due.after s.config.guard ≤ p.deadline

instance (s : SinglePath) (p : ExpectedPacket) : Decidable (s.Stalled p) :=
  decidable_of_iff (s.stopped = false ∧ s.phase = .armed ∧ s.pending = some p ∧
      s.maxSeen.map (·.next) = some p.seq ∧ s.ledger.wasReceived p.seq = true ∧
      s.predictor.isReady = true ∧ p.due = s.lastArrival.after s.predictor.prediction ∧
      p.due.after s.config.guard ≤ p.deadline)
    ⟨fun ⟨running, phase, pending, next, known, ready, due, guarded⟩ =>
      ⟨running, phase, pending, next, known, ready, due, guarded⟩,
    fun h => ⟨h.running, h.phase, h.pending, h.next, h.known, h.ready, h.due, h.guarded⟩⟩

/-- After `n` expiries that led to nothing, with the timer at `deadline`. -/
def expired (s : SinglePath) (n : Nat) (deadline : Timestamp) : SinglePath :=
  { s with
    pending := s.pending.map fun p => { p with deadline }
    counters := { s.counters with
      predictions := s.counters.predictions + n, timeouts := s.counters.timeouts + n } }

theorem expired_zero (h : s.pending = some p) : s.expired 0 p.deadline = s := by
  rw [expired, h]
  exact congrArg (fun pending => { s with pending }) h.symm

theorem onTimeout_expired (h : s.Stalled p) (n : Nat) {now : Timestamp} (hnow : p.deadline ≤ now) :
    (s.expired n now).onTimeout now .basic = .act (s.expired (n + 1) (now.after (.ofMicros 1)))
      (.arm .basic (now.after (.ofMicros 1))) := by
  obtain ⟨last, hlast, hnext⟩ := Option.map_eq_some_iff.mp h.next
  have hdeadline : now.futureDeadline (p.due.after s.config.guard) = now.after (.ofMicros 1) := by
    have hle := Nat.le_trans h.guarded hnow
    have hlast := now.le_last
    apply Timestamp.ext_micros
    rw [Timestamp.futureDeadline, Timestamp.micros_max]
    simp only [Timestamp.after, Timestamp.ofNat, Duration.micros, Duration.ofMicros] at hle ⊢
    omega
  simp [expired, onTimeout, armFromPrediction, arm, disarm, count, Step.andThen, Step.act, Step.stay,
    h.running, h.pending, h.known, h.ready, ← h.due, hlast, hnext, h.phase, hdeadline, Nat.add_assoc]

end SinglePath

namespace Estimator

variable {e : Estimator} {p : ExpectedPacket}

def Stalled (p : ExpectedPacket) : Estimator → Prop
  | single s => s.Stalled p
  | cross _ => False

instance (p : ExpectedPacket) (e : Estimator) : Decidable (e.Stalled p) :=
  match e with
  | single s => inferInstanceAs (Decidable (s.Stalled p))
  | cross _ => .isFalse id

def expired (n : Nat) (deadline : Timestamp) : Estimator → Estimator
  | single s => single (s.expired n deadline)
  | cross c => cross c

theorem expired_zero (h : e.Stalled p) : e.expired 0 p.deadline = e := by
  cases e with
  | single s => exact congrArg single (SinglePath.expired_zero h.pending)
  | cross c => cases h

/-- An expiry of the stalled timer only arms it again, as late as it must. -/
theorem onTimeout_expired (h : e.Stalled p) (n : Nat) {now : Timestamp} (hnow : p.deadline ≤ now) :
    (e.expired n now).onTimeout now .basic = .act (e.expired (n + 1) (now.after (.ofMicros 1)))
      (.arm .basic (now.after (.ofMicros 1))) := by
  cases e with
  | single s => exact congrArg (·.alter single) (SinglePath.onTimeout_expired h n hnow)
  | cross c => cases h

end Estimator

namespace Monitor

variable {e : Estimator} {p : ExpectedPacket} {stale : Alarm} {n m : Nat}

def stalled (e : Estimator) (stale : Alarm) (first : Timestamp) (n : Nat) : Monitor where
  estimator := e.expired n (first.after (.ofMicros n))
  timers := .single .basic (n + 1) (first.after (.ofMicros n)) stale

theorem micros_after_micros {t u : Timestamp} (h : t.micros + n ≤ u.micros) :
    (t.after (.ofMicros n)).micros = t.micros + n := by
  have hlast := u.le_last
  simp only [Timestamp.after, Timestamp.ofNat, Duration.micros, Duration.ofMicros]
  omega

theorem fire_stalled (h : e.Stalled p) (hstale : p.deadline.micros + (n + 1) < stale.deadline.micros)
    (ds : Array Delivery) (ns : Array Notice) :
    Turn.fire .basic (p.deadline.after (.ofMicros n))
        ⟨⟨e.expired n (p.deadline.after (.ofMicros n)), .vacant (n + 2) stale⟩, ds, ns⟩ =
      ⟨stalled e stale p.deadline (n + 1), ds, ns⟩ := by
  have hmicros : ∀ k, k ≤ n + 1 →
      (p.deadline.after (.ofMicros k)).micros = p.deadline.micros + k := fun k hk =>
    micros_after_micros (u := stale.deadline) (by omega)
  have hdue : p.deadline ≤ p.deadline.after (.ofMicros n) := by
    show p.deadline.micros ≤ (p.deadline.after (.ofMicros n)).micros
    rw [hmicros n (by omega)]
    omega
  have hnext : (p.deadline.after (.ofMicros n)).after (.ofMicros 1) =
      p.deadline.after (.ofMicros (n + 1)) := by
    apply Timestamp.ext_micros
    have hnow := hmicros n (by omega)
    rw [micros_after_micros (u := stale.deadline) (by omega), hmicros _ (Nat.le_refl _), hnow]
    omega
  have hearly : p.deadline.after (.ofMicros (n + 1)) < stale.deadline := by
    show (p.deadline.after (.ofMicros (n + 1))).micros < stale.deadline.micros
    rw [hmicros _ (Nat.le_refl _)]
    exact hstale
  have hstep := Estimator.onTimeout_expired h n hdue
  rw [hnext] at hstep
  have harm : ((TimerQueue.vacant (n + 2) stale).arm .basic _).2 = _ :=
    TimerQueue.arm_vacant hearly
  simp only [Turn.fire, Turn.settle, stalled, hstep, Step.act, List.foldl_cons, List.foldl_nil,
    TimerQueue.perform, harm, Action.deliver]
  rfl

/-- The expiries follow one another by the microsecond, and the older alarm stays where it is. -/
theorem fireBefore_stalled (h : e.Stalled p) (hfew : n + m + 1 < TimerQueue.generations)
    (hstale : p.deadline.micros + (n + m) < stale.deadline.micros) (ds : Array Delivery)
    (ns : Array Notice) :
    Turn.fireBefore (p.deadline.after (.ofMicros (n + m))) ⟨stalled e stale p.deadline n, ds, ns⟩ =
      ⟨stalled e stale p.deadline (n + m), ds, ns⟩ := by
  induction m generalizing n with
  | zero =>
    have hnot : ¬ p.deadline.after (.ofMicros n) < p.deadline.after (.ofMicros (n + 0)) :=
      Nat.lt_irrefl _
    rw [Turn.fireBefore_eq]
    simp only [stalled, TimerQueue.nextDeadline_single, if_neg hnot]
    rfl
  | succ m ih =>
    have hbefore : p.deadline.after (.ofMicros n) < p.deadline.after (.ofMicros (n + (m + 1))) := by
      show (p.deadline.after (.ofMicros n)).micros < _
      rw [micros_after_micros (u := stale.deadline) (by omega),
        micros_after_micros (u := stale.deadline) (by omega)]
      omega
    have hpop : (TimerQueue.single .basic (n + 1) (p.deadline.after (.ofMicros n)) stale).popDue
        (p.deadline.after (.ofMicros n)) = (some (.basic, p.deadline.after (.ofMicros n)), _) :=
      TimerQueue.popDue_single (Nat.le_refl _) (by omega)
    have hnear : p.deadline.micros + (n + 1) < stale.deadline.micros := by omega
    have hfire := fire_stalled h hnear ds ns
    have hrest := ih (n := n + 1) (by omega) (by omega)
    rw [Turn.fireBefore_eq]
    simp only [stalled, TimerQueue.nextDeadline_single, if_pos hbefore, hpop]
    rw [show n + (m + 1) = n + 1 + m by omega]
    exact (congrArg (Turn.fireBefore _) hfire).trans hrest

/-! ### A run through all generations -/

theorem after_concat (m : Monitor) (calls : List MonitorCall) (c : MonitorCall) :
    m.after (calls ++ [c]) = ((m.after calls).call c).monitor := List.foldl_append

/-- It forecasts each interval to be as long as the one before. -/
def unsteady : Estimator := .single
  { config := {}, predictor := .movingAverage ⟨⟨1, []⟩, ⟨1, []⟩, 1, 1.0, none, 0.0, 0⟩ }

/-- After a pause of 5000 s the timer is set as far ahead, and the next packet sets it back. Then the
repair of 4 comes before its original is due. -/
def stalling : List MonitorCall :=
  [.arrival .zero ⟨.ofNat 1, none⟩, .arrival (.ofNat 5000000000) ⟨.ofNat 2, none⟩,
    .arrival (.ofNat 5000000000) ⟨.ofNat 3, none⟩, .repair (.ofNat 5000000000) ⟨.ofNat 4, none⟩]

def stuck : Monitor := Monitor.after { estimator := unsteady } stalling

def awaited : ExpectedPacket := ⟨.ofNat 4, .ofNat 5000000000, .ofNat 5000001000⟩

/-- The alarm of the timer that was set back. -/
def farAlarm : Alarm := ⟨.ofNat 10000001000, 0, ⟨0, 0⟩⟩

theorem stalled_stuck : stuck.estimator.Stalled awaited := by
  decide +kernel

theorem stuck_eq : stuck = stalled stuck.estimator farAlarm awaited.deadline 0 := by
  have hestimator : stuck.estimator = stuck.estimator.expired 0 awaited.deadline :=
    (Estimator.expired_zero stalled_stuck).symm
  have htimers : stuck.timers = .single .basic 1 awaited.deadline farAlarm := by decide +kernel
  exact congr (congrArg Monitor.mk hestimator) htimers

/-- The next packet comes when the timer has been armed for the last generation of its slot. -/
def reviving : MonitorCall := .arrival (.ofNat 9294968294) ⟨.ofNat 6, none⟩

def revived : Monitor :=
  (Turn.settle (.ofNat 9294968294) (·.onArrival (.ofNat 9294968294) ⟨.ofNat 6, none⟩)
    { monitor := stalled stuck.estimator farAlarm awaited.deadline 4294967294 }).monitor

theorem call_reviving : stuck.call reviving =
    Turn.settle (.ofNat 9294968294) (·.onArrival (.ofNat 9294968294) ⟨.ofNat 6, none⟩)
      { monitor := stalled stuck.estimator farAlarm awaited.deadline 4294967294 } := by
  have hrun : Turn.fireBefore (awaited.deadline.after (.ofMicros (0 + 4294967294)))
      { monitor := stalled stuck.estimator farAlarm awaited.deadline 0 } =
        { monitor := stalled stuck.estimator farAlarm awaited.deadline 4294967294 } :=
    fireBefore_stalled stalled_stuck (by decide) (by decide) #[] #[]
  rw [← stuck_eq] at hrun
  have htime : awaited.deadline.after (.ofMicros (0 + 4294967294)) = .ofNat 9294968294 := by decide
  rw [htime] at hrun
  exact congrArg (Turn.settle (.ofNat 9294968294)
    (·.onArrival (.ofNat 9294968294) ⟨.ofNat 6, none⟩)) hrun

theorem after_reviving :
    Monitor.after { estimator := unsteady } (stalling ++ [reviving]) = revived := by
  rw [after_concat, ← stuck, call_reviving, revived]

/-- Its timer is due at 10726.6 s, but by the generation the far alarm is its alarm too. -/
theorem timers_revived : revived.timers =
    { slots := #[⟨0, some (.basic, .ofNat 10726625392)⟩]
      free := []
      byKey := [(.basic, ⟨0, 0⟩)]
      agenda := [⟨.ofNat 9294968294, 4294967295, ⟨0, 4294967295⟩⟩, farAlarm,
        ⟨.ofNat 10726625392, 4294967296, ⟨0, 0⟩⟩]
      nextOrder := 4294967297 } := by
  decide +kernel

theorem due_of_popDue_revived {t due : Timestamp} {key : TimerKey} {timers : TimerQueue TimerKey}
    (h : revived.timers.popDue t = (some (key, due), timers)) :
    key = .basic ∧ due = .ofNat 10000001000 := by
  rw [timers_revived] at h
  by_cases hspent : t < .ofNat 9294968294
  · simp [TimerQueue.popDue, TimerQueue.firstDue, hspent] at h
  by_cases hfar : t < .ofNat 10000001000
  · simp [TimerQueue.popDue, TimerQueue.firstDue, TimerQueue.liveEntry, farAlarm, hspent,
      hfar] at h
  simp [TimerQueue.popDue, TimerQueue.firstDue, TimerQueue.liveEntry, farAlarm, hspent, hfar] at h
  exact ⟨h.1.1.symm, h.1.2.symm⟩

theorem call_arrival_of_idle {m : Monitor} {now : Timestamp}
    (h : ∀ d ∈ m.nextDeadline, now ≤ d) (a : Arrival) :
    m.call (.arrival now a) = Turn.settle now (·.onArrival now a) { monitor := m } :=
  congrArg (Turn.settle now (·.onArrival now a)) (Turn.fireBefore_of_idle h)

/-- The original of 5, right after the instant of the far alarm. -/
def warning : MonitorCall := .arrival (.ofNat 10000002000) ⟨.ofNat 5, none⟩

def warned : Turn :=
  Turn.settle (.ofNat 10000002000) (·.onArrival (.ofNat 10000002000) ⟨.ofNat 5, none⟩)
    { monitor := revived }

theorem call_warning : revived.call warning = warned := by
  have hidle : ∀ d ∈ revived.nextDeadline, Timestamp.ofNat 10000002000 ≤ d := by
    rw [nextDeadline, timers_revived]
    decide +kernel
  exact call_arrival_of_idle hidle _

theorem deliveries_warned :
    warned.deliveries = #[⟨.ofNat 10000002000, .falsePositive (.ofNat 5) none⟩] := by
  decide +kernel

theorem timers_warned : warned.monitor.timers = revived.timers := by
  decide +kernel

theorem deliveries_poll_warned : (warned.monitor.call (.poll (.ofNat 10000002000))).deliveries =
    #[⟨.ofNat 10000001000, .lost (.ofNat 7) none⟩] := by
  have hpop : warned.monitor.timers.popDue (.ofNat 10000002000) =
      (some (.basic, .ofNat 10000001000), _) :=
    Prod.ext (by rw [timers_warned, timers_revived]; decide +kernel) rfl
  let woken := Turn.fire .basic (.ofNat 10000001000) (Turn.withTimers { monitor := warned.monitor }
    (warned.monitor.timers.popDue (.ofNat 10000002000)).2)
  have hpop' : woken.monitor.timers.popDue (.ofNat 10000002000) = (none, _) :=
    Prod.ext (by decide +kernel) rfl
  have hpoll : warned.monitor.call (.poll (.ofNat 10000002000)) = _ :=
    Turn.fireUntil_of_one (t := { monitor := warned.monitor }) hpop hpop'
  rw [hpoll]
  decide +kernel

end Monitor
end LossWatch
