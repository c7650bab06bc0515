import LossWatch.Proofs.Estimator.Timers
import LossWatch.Proofs.Monitor.Expiries
import LossWatch.Proofs.TimerQueue.Agenda

/-!
The queue of a monitor mirrors its estimator's book of timers. The actions of a step change queue and
book alike; a timer that comes off the queue is taken off the book before its expiry acts. Once more
timers have been armed than a slot has generations, an expiry may come up with a deadline that is not
the booked one, but it still is that of a booked timer, and the mirror holds on.
-/

namespace LossWatch

/-! ### The queue and a book -/

namespace TimerQueue

variable {q q' : TimerQueue TimerKey} {b : TimerBook} {key : TimerKey}

structure Tracks (q : TimerQueue TimerKey) (b : TimerBook) : Prop where
  indexed : q.Indexed
  deadline : ∀ key, q.deadline? key = b.deadline key
  scheduled : q.nextOrder < generations → q.Scheduled

theorem Tracks.empty : (empty : TimerQueue TimerKey).Tracks {} :=
  ⟨.empty, fun _ => rfl, fun _ => .empty⟩

theorem Tracks.perform (h : q.Tracks b) (a : Action) : (q.perform a).Tracks (b.perform a) := by
  cases a with
  | arm key d =>
    refine ⟨h.indexed.arm key d, fun k => ?_, fun few => ?_⟩
    · rw [TimerQueue.perform, h.indexed.deadline?_arm, h.deadline]
      rfl
    · rw [TimerQueue.perform, nextOrder_arm] at few
      have few' : q.nextOrder < generations := by omega
      exact (h.scheduled few').arm h.indexed few' key d
  | cancel key =>
    refine ⟨h.indexed.cancel key, fun k => ?_, fun few => ?_⟩
    · rw [TimerQueue.perform, h.indexed.deadline?_cancel, h.deadline]
      rfl
    · rw [TimerQueue.perform, nextOrder_cancel] at few
      exact (h.scheduled few).cancel h.indexed few key
  | emit e => exact h

theorem Tracks.foldl_perform (h : q.Tracks b) (as : List Action) :
    (as.foldl TimerQueue.perform q).Tracks (as.foldl TimerBook.perform b) := by
  induction as generalizing q b with
  | nil => exact h
  | cons a as ih => exact ih (h.perform a)

theorem Tracks.clear (h : q.Tracks b) (b' : TimerBook) (hb : ∀ key, b'.deadline key = none) :
    q.clear.Tracks b' := by
  refine ⟨h.indexed.clear.1, fun key => ?_, fun few => ?_⟩
  · rw [h.indexed.clear.2, hb]
  · rw [nextOrder_clear h.indexed] at few
    exact ((h.scheduled few).clear h.indexed few).1

theorem Tracks.popDue_none {now : Timestamp} (h : q.Tracks b) (he : q.popDue now = (none, q')) :
    q'.Tracks b := by
  obtain ⟨hi, hd⟩ := h.indexed.popDue_none he
  refine ⟨hi, fun key => (hd key).trans (h.deadline key), fun few => ?_⟩
  rw [nextOrder_of_popDue he] at few
  obtain ⟨rest, rfl, hsub, hout, -⟩ := (h.scheduled few).popDue_none he
  exact (h.scheduled few).with_agenda hsub hout

theorem Tracks.popDue_some {now due : Timestamp} (h : q.Tracks b)
    (he : q.popDue now = (some (key, due), q')) :
    q'.Tracks (b.cancel key) ∧
      ∃ d, b.deadline key = some d ∧ (q.nextOrder < generations → due = d) := by
  obtain ⟨hi, hlive, hd⟩ := h.indexed.popDue_some he
  obtain ⟨d, hdue⟩ := Option.isSome_iff_exists.mp hlive
  refine ⟨⟨hi, fun k => ?_, fun few => ?_⟩, d, (h.deadline key).symm.trans hdue, fun few => ?_⟩
  · rw [hd, h.deadline]
    rfl
  · rw [nextOrder_of_popDue he] at few
    obtain ⟨n, t, rest, rfl, -, hl, -, hsub, hout, -⟩ := (h.scheduled few).popDue_some he
    exact (h.scheduled few).release_forget few hl hsub hout
  · obtain ⟨n, t, rest, -, -, hl, -⟩ := (h.scheduled few).popDue_some he
    have hbooked := h.indexed.deadline?_eq_some_iff.mpr ⟨t, hl⟩
    exact Option.some.inj (hbooked.symm.trans hdue)

end TimerQueue

/-! ### The monitor -/

namespace Monitor

/-- Queue and book agree, and a stopped estimator has no timers. -/
structure Mirrored (m : Monitor) : Prop where
  tracks : m.timers.Tracks m.estimator.book
  quiet : m.estimator.book.stopped = true → ∀ key, m.estimator.book.deadline key = none

theorem mirrored_of_fresh {e : Estimator} (h : e.Fresh) : Mirrored { estimator := e } := by
  have hb := h.book_eq
  constructor
  · rw [hb]
    exact .empty
  · intro hs
    simp [hb] at hs

end Monitor

/-- The estimator holds the timer that comes off the queue. -/
def Expiry.Held (x : Expiry) : Prop :=
  ∃ d, x.monitor.estimator.book.deadline x.key = some d ∧
    (x.monitor.timers.nextOrder < TimerQueue.generations → x.due = d)

namespace Turn

variable {t t' : Turn} {now : Timestamp}

theorem mirrored_settle {f : Estimator → Step Estimator} {b : TimerBook}
    (ht : t.monitor.timers.Tracks b) (hrun : b.stopped = false)
    (hact : (f t.monitor.estimator).Keeps Estimator.book b) :
    (t.settle now f).monitor.Mirrored := by
  have htracks := ht.foldl_perform (f t.monitor.estimator).actions
  rw [hact] at htracks
  refine ⟨htracks, fun hs => ?_⟩
  have hbook : (f t.monitor.estimator).state.book.stopped = b.stopped := by
    rw [← hact, TimerBook.stopped_foldl_perform]
  have hstate : (f t.monitor.estimator).state.book.stopped = true := hs
  simp [hbook, hrun] at hstate

theorem mirrored_settle_of_ignored {f : Estimator → Step Estimator}
    (ht : t.monitor.Mirrored)
    (hact : (f t.monitor.estimator).Keeps Estimator.book t.monitor.estimator.book)
    (hignored : t.monitor.estimator.book.stopped = true →
      f t.monitor.estimator = .stay t.monitor.estimator) :
    (t.settle now f).monitor.Mirrored := by
  cases hs : t.monitor.estimator.book.stopped with
  | false => exact mirrored_settle ht.tracks hs hact
  | true =>
    have hsame : (t.settle now f).monitor = t.monitor := by
      unfold settle
      simp only [hignored hs]
      rfl
    rw [hsame]
    exact ht

/-- Expiries find their timers booked, and the mirror holds after each of them. -/
theorem Fires.mirrored {es : List Expiry} (hf : Fires t es t') (ht : t.monitor.Mirrored) :
    t'.monitor.Mirrored ∧ ∀ x ∈ es, x.Held := by
  induction hf with
  | done t => exact ⟨ht, by simp⟩
  | idle hpop => exact ⟨⟨ht.tracks.popDue_none hpop, ht.quiet⟩, by simp⟩
  | @fire t t' now due key timers es hpop rest ih =>
    obtain ⟨htracks, d, hd, hdue⟩ := ht.tracks.popDue_some hpop
    have hrun : t.monitor.estimator.book.stopped = false := by
      cases hs : t.monitor.estimator.book.stopped with
      | false => rfl
      | true => simp [ht.quiet hs key] at hd
    have hbooked : (t.monitor.estimator.book.deadline key).isSome := by rw [hd]; rfl
    -- The book loses the timer before the expiry acts, as the queue does.
    have hkeeps := Estimator.keeps_onTimeout due hrun hbooked
    have hnext : (Turn.fire key due (t.withTimers timers)).monitor.Mirrored :=
      mirrored_settle (t := t.withTimers timers) (f := (·.onTimeout due key)) htracks hrun hkeeps
    obtain ⟨hlast, hheld⟩ := ih hnext
    refine ⟨hlast, fun x hx => ?_⟩
    rcases List.mem_cons.mp hx with rfl | hx
    · exact ⟨d, hd, hdue⟩
    · exact hheld x hx

end Turn

/-! ### Every run of calls -/

inductive MonitorCall
  | arrival (now : Timestamp) (a : Arrival)
  | repair (now : Timestamp) (a : Arrival)
  | poll (now : Timestamp)
  | withdrawn (seq : SeqNumber)
  | reset
  | stop

def MonitorCall.time? : MonitorCall → Option Timestamp
  | .arrival now _ | .repair now _ | .poll now => some now
  | .withdrawn _ | .reset | .stop => none

namespace Monitor

def call (m : Monitor) : MonitorCall → Turn
  | .arrival now a => m.onArrival now a
  | .repair now a => m.onRepair now a
  | .poll now => m.pollTimers now
  | .withdrawn seq => { monitor := m.noteWithdrawn seq }
  | .reset => m.reset
  | .stop => m.stop

def after (m : Monitor) (calls : List MonitorCall) : Monitor :=
  calls.foldl (fun m c => (m.call c).monitor) m

/-- The timers that expire in a call: all that a poll does, and what comes before an arrival acts. -/
def Expires (m : Monitor) (es : List Expiry) : MonitorCall → Prop
  | .arrival now a => ∃ t, Turn.Fires { monitor := m } es t ∧
      m.onArrival now a = t.settle now (·.onArrival now a)
  | .repair now a => ∃ t, Turn.Fires { monitor := m } es t ∧
      m.onRepair now a = t.settle now (·.onRepair a)
  | .poll now => Turn.Fires { monitor := m } es (m.pollTimers now)
  | _ => es = []

variable {m : Monitor}

theorem Mirrored.abandon (hm : m.Mirrored) {step : Step Estimator} {stopped : Bool}
    (hb : step.state.book = { stopped }) : (m.abandon step).monitor.Mirrored := by
  constructor
  · apply hm.tracks.clear _
    intro key
    show step.state.book.deadline key = none
    rw [hb]
  · intro _ key
    show step.state.book.deadline key = none
    rw [hb]

theorem Mirrored.call (hm : m.Mirrored) (c : MonitorCall) : (m.call c).monitor.Mirrored := by
  cases c with
  | arrival now a =>
    obtain ⟨es, hes⟩ := Turn.fires_fireBefore now { monitor := m }
    exact Turn.mirrored_settle_of_ignored (hes.mirrored hm).1 (Estimator.keeps_onArrival _ now a)
      fun hs => Estimator.onArrival_of_stopped (by rwa [← Estimator.stopped_book]) now a
  | repair now a =>
    obtain ⟨es, hes⟩ := Turn.fires_fireBefore now { monitor := m }
    exact Turn.mirrored_settle_of_ignored (hes.mirrored hm).1 (Estimator.keeps_onRepair _ a)
      fun hs => Estimator.onRepair_of_stopped (by rwa [← Estimator.stopped_book]) a
  | poll now =>
    obtain ⟨es, hes⟩ := Turn.fires_fireUntil now { monitor := m }
    exact (hes.mirrored hm).1
  | withdrawn seq =>
    constructor
    · show m.timers.Tracks (m.estimator.noteWithdrawn seq).book
      rw [Estimator.book_noteWithdrawn]
      exact hm.tracks
    · show (m.estimator.noteWithdrawn seq).book.stopped = true →
        ∀ key, (m.estimator.noteWithdrawn seq).book.deadline key = none
      rw [Estimator.book_noteWithdrawn]
      exact hm.quiet
  | reset => exact hm.abandon m.estimator.book_reset
  | stop => exact hm.abandon m.estimator.book_stop

theorem exists_expires (m : Monitor) (c : MonitorCall) : ∃ es, m.Expires es c := by
  cases c with
  | arrival now a =>
    obtain ⟨es, hes⟩ := Turn.fires_fireBefore now { monitor := m }
    exact ⟨es, _, hes, rfl⟩
  | repair now a =>
    obtain ⟨es, hes⟩ := Turn.fires_fireBefore now { monitor := m }
    exact ⟨es, _, hes, rfl⟩
  | poll now => exact Turn.fires_fireUntil now { monitor := m }
  | withdrawn seq => exact ⟨[], rfl⟩
  | reset => exact ⟨[], rfl⟩
  | stop => exact ⟨[], rfl⟩

theorem Mirrored.held_of_expires (hm : m.Mirrored) {c : MonitorCall} {es : List Expiry}
    (h : m.Expires es c) : ∀ x ∈ es, x.Held := by
  have hnone : es = [] → ∀ x ∈ es, x.Held := by
    intro he
    simp [he]
  cases c with
  | arrival now a =>
    obtain ⟨t, hes, -⟩ := h
    exact (hes.mirrored hm).2
  | repair now a =>
    obtain ⟨t, hes, -⟩ := h
    exact (hes.mirrored hm).2
  | poll now => exact (Turn.Fires.mirrored h hm).2
  | withdrawn seq => exact hnone h
  | reset => exact hnone h
  | stop => exact hnone h

theorem Mirrored.after (hm : m.Mirrored) (calls : List MonitorCall) : (m.after calls).Mirrored := by
  induction calls generalizing m with
  | nil => exact hm
  | cons c calls ih => exact ih (hm.call c)

def isSole (key : TimerKey) : Bool := key = .basic || key = .short

theorem sole_unique (e : Estimator) {k k' : TimerKey} (hk : isSole k) (hk' : isSole k')
    (hd : (e.book.deadline k).isSome) (hd' : (e.book.deadline k').isSome) : k = k' := by
  cases e <;> cases k <;> cases k' <;>
    simp_all [isSole, Estimator.book, SinglePath.book, CrossPath.book]

theorem Mirrored.mem_keys_iff (hm : m.Mirrored) {key : TimerKey} :
    key ∈ m.timers.keys ↔ (m.estimator.book.deadline key).isSome := by
  rw [hm.tracks.indexed.mem_keys_iff_deadline?, hm.tracks.deadline]

theorem Mirrored.sole (hm : m.Mirrored) : (m.timers.keys.filter isSole).length ≤ 1 := by
  have hnodup := hm.tracks.indexed.keys_nodup.filter isSole
  have hmem : ∀ k ∈ m.timers.keys.filter isSole,
      isSole k ∧ (m.estimator.book.deadline k).isSome := by
    intro k hk
    obtain ⟨hin, hsole⟩ := List.mem_filter.mp hk
    exact ⟨hsole, hm.mem_keys_iff.mp hin⟩
  match hl : m.timers.keys.filter isSole with
  | [] => simp
  | [k] => simp
  | k :: k' :: l =>
    rw [hl] at hnodup hmem
    obtain ⟨hk, hd⟩ := hmem k (by simp)
    obtain ⟨hk', hd'⟩ := hmem k' (by simp)
    have hsame := sole_unique m.estimator hk hk' hd hd'
    simp [hsame] at hnodup

/-- From a fresh estimator on, the live timers are the booked ones after every call, and the timers
that expire in the next call are booked when they come up. -/
theorem timers_mirror_estimator {e : Estimator} (he : e.Fresh) (calls : List MonitorCall) :
    let m := Monitor.after { estimator := e } calls
    (∀ key, m.timers.deadline? key = m.estimator.book.deadline key) ∧
      (∀ key, key ∈ m.timers.keys ↔ (m.estimator.book.deadline key).isSome) ∧
      m.timers.keys.Nodup ∧ (m.timers.keys.filter isSole).length ≤ 1 ∧
      ∀ c, (∃ es, m.Expires es c) ∧ ∀ es, m.Expires es c → ∀ x ∈ es, x.Held := by
  have hm := (mirrored_of_fresh he).after calls
  exact ⟨hm.tracks.deadline, fun _ => hm.mem_keys_iff, hm.tracks.indexed.keys_nodup, hm.sole,
    fun c => ⟨exists_expires _ c, fun _ => hm.held_of_expires⟩⟩

theorem timers_mirror_estimator_of_ready :
    let samples : Window := { capacity := 1 }
    let e : Estimator := .single
      { config := {}, predictor := .movingAverage
          { samples, errors := samples, biasSamples := 1, marginFactor := 1.0 } }
    let m := Monitor.after { estimator := e }
      [.arrival .zero { seq := .ofNat 1 }, .arrival (.ofMillis 20) { seq := .ofNat 2 }]
    e.Fresh ∧ (∀ key, m.timers.deadline? key = m.estimator.book.deadline key) ∧
      (m.timers.keys.filter isSole).length ≤ 1 ∧
      ∀ es, m.Expires es (.poll (.ofMillis 60)) → ∀ x ∈ es, x.Held := by
  have he : Estimator.Fresh (.single { config := {}, predictor := .movingAverage _ }) :=
    .single {} (.movingAverage
      { samples := { capacity := 1 }, errors := { capacity := 1 }, biasSamples := 1
        marginFactor := 1.0 })
  have hm := timers_mirror_estimator he
    [.arrival .zero { seq := .ofNat 1 }, .arrival (.ofMillis 20) { seq := .ofNat 2 }]
  exact ⟨he, hm.1, hm.2.2.2.1, (hm.2.2.2.2 (.poll (.ofMillis 60))).2⟩

end Monitor
end LossWatch
