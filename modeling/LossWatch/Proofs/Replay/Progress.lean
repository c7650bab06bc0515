import LossWatch.Proofs.Feedback.Clocks
import LossWatch.Proofs.Replay.Calls
import LossWatch.Proofs.Time.Cadence

/-!
Time in a replay goes on. Every report sets the next one later, and after a poll the next timer is due
later, so whatever is due before a delivery has happened when it is made. So a run is a chain of
happenings and deliveries in which nothing is due before what is delivered.
-/

namespace LossWatch

namespace Replay

variable {r r' : Replay} {h : Happening} {limit d : Timestamp} {s : Shipment}

/-! ### What is due -/

/-- The happening is the first of all that are due before `limit`. -/
inductive Due (r : Replay) (limit : Timestamp) : Happening → Prop
  | timers {d : Timestamp} (next : r.feedback.nextDeadline = some d) (early : d < limit)
      (first : d < r.cadence.next) : Due r limit (.timers d)
  | report (early : r.cadence.next < limit)
      (first : ∀ d, r.feedback.nextDeadline = some d → r.cadence.next ≤ d) :
      Due r limit (.report r.cadence.next)

theorem due_of_upcoming (hu : r.upcoming limit = some h) : r.Due limit h := by
  rw [upcoming] at hu
  split at hu
  · rename_i d hd
    by_cases hfirst : d < r.cadence.next
    · rw [if_pos hfirst] at hu
      by_cases hearly : d < limit
      · rw [if_pos hearly] at hu
        exact Option.some.inj hu ▸ .timers hd hearly hfirst
      · simp [hearly] at hu
    · rw [if_neg hfirst] at hu
      by_cases hearly : r.cadence.next < limit
      · rw [if_pos hearly] at hu
        refine Option.some.inj hu ▸ .report hearly fun d' hd' => ?_
        exact Option.some.inj (hd.symm.trans hd') ▸ Nat.le_of_not_lt hfirst
      · simp [hearly] at hu
  · rename_i hd
    by_cases hearly : r.cadence.next < limit
    · rw [if_pos hearly] at hu
      exact Option.some.inj hu ▸ .report hearly fun d' hd' => by simp [hd] at hd'
    · simp [hearly] at hu

structure Idle (r : Replay) (limit : Timestamp) : Prop where
  report : limit ≤ r.cadence.next
  timers : ∀ d, r.feedback.nextDeadline = some d → limit ≤ d

theorem idle_of_upcoming (hu : r.upcoming limit = none) : r.Idle limit := by
  have hle : ∀ {a b : Timestamp}, ¬ a < b → b ≤ a := fun h => Nat.le_of_not_lt h
  rw [upcoming] at hu
  split at hu
  · rename_i d hd
    by_cases hfirst : d < r.cadence.next
    · have hlate : ¬ d < limit := fun hearly => by simp [hfirst, hearly] at hu
      refine ⟨Nat.le_trans (hle hlate) (Nat.le_of_lt hfirst), fun d' hd' => ?_⟩
      exact Option.some.inj (hd.symm.trans hd') ▸ hle hlate
    · have hlate : ¬ r.cadence.next < limit := fun hearly => by simp [hfirst, hearly] at hu
      refine ⟨hle hlate, fun d' hd' => Nat.le_trans (hle hlate) ?_⟩
      exact Option.some.inj (hd.symm.trans hd') ▸ hle hfirst
  · rename_i hd
    have hlate : ¬ r.cadence.next < limit := fun hearly => by simp [hearly] at hu
    exact ⟨hle hlate, fun d' hd' => by simp [hd] at hd'⟩

/-! ### What happens moves on -/

structure Ticking (r : Replay) : Prop where
  interval : ∃ n, 0 < n ∧ r.cadence.interval = .ofMicros n
  timed : r.feedback.Timed

theorem quiet_happeningCalls {now : Timestamp} :
    ∀ c ∈ r.happeningCalls (.report now), c.turn? = none ∧ c ≠ .shutDown ∧ c ≠ .reset := by
  intro c hc
  rw [happeningCalls] at hc
  split at hc
  · rcases List.mem_append.mp hc with hc | hc
    · rcases List.mem_pair.mp hc with rfl | rfl <;> exact ⟨rfl, by simp, by simp⟩
    · obtain ⟨seq, -, rfl⟩ := List.mem_map.mp hc
      exact ⟨rfl, by simp, by simp⟩
  · exact absurd hc List.not_mem_nil

namespace Ticking

theorem of_calls (hr : r.Ticking) (hsame : r.SameTrace r') {calls : List FeedbackCall}
    (hafter : r'.feedback = r.feedback.after calls)
    (hcalls : ∀ c ∈ calls, c ≠ .shutDown ∧ c ≠ .reset) : r'.Ticking := by
  obtain ⟨n, hn, hi⟩ := hr.interval
  exact ⟨⟨n, hn, hsame.interval.trans hi⟩, hafter ▸ hr.timed.after hcalls⟩

theorem perform (hr : r.Ticking) (h : Happening) : (r.perform h).Ticking := by
  refine hr.of_calls (r.sameTrace_perform h) (r.feedback_perform h) fun c hc => ?_
  cases h with
  | timers now =>
    rw [List.mem_singleton.mp hc]
    simp
  | report now => exact (quiet_happeningCalls c hc).2

theorem take (hr : r.Ticking) (queue : List Shipment) : Ticking { r with queue } :=
  ⟨hr.interval, hr.timed⟩

theorem deliver (hr : r.Ticking) (s : Shipment) : (r.deliver s).Ticking := by
  refine hr.of_calls (r.sameTrace_deliver s) (r.feedback_deliver s) fun c hc => ?_
  rw [deliveryCalls] at hc
  split at hc
  · exact absurd hc List.not_mem_nil
  · rw [List.mem_singleton.mp hc]
    split <;> simp

theorem fire_next (hr : r.Ticking) (hlast : r.cadence.next < .last) :
    r.cadence.fire r.cadence.next = (true, r.cadence.reset r.cadence.next) := by
  obtain ⟨n, hn, hi⟩ := hr.interval
  exact Cadence.fire_next hi hn hlast

theorem happeningCalls_report (hr : r.Ticking) (hlast : r.cadence.next < .last) :
    r.happeningCalls (.report r.cadence.next) = [.takeReceived, .takeLost] ++
      r.requestCalls r.cadence.next r.feedback.pending.lost := by
  rw [happeningCalls, hr.fire_next hlast, if_pos rfl]

theorem feedback_report (hr : r.Ticking) (hlast : r.cadence.next < .last) :
    (r.perform (.report r.cadence.next)).feedback =
      (r.feedback.after [.takeReceived, .takeLost]).after
        (r.requestCalls r.cadence.next r.feedback.pending.lost) := by
  rw [feedback_perform, hr.happeningCalls_report hlast, Feedback.after_append]

theorem timed_drained (hr : r.Ticking) : (r.feedback.after [.takeReceived, .takeLost]).Timed :=
  hr.timed.after (by simp)

theorem pending_report (hr : r.Ticking) (hlast : r.cadence.next < .last) :
    (r.perform (.report r.cadence.next)).feedback.pending = {} := by
  rw [hr.feedback_report hlast, requestCalls, hr.timed_drained.pending_requests]
  rfl

theorem cadence_report (hr : r.Ticking) (hlast : r.cadence.next < .last) :
    (r.perform (.report r.cadence.next)).cadence = r.cadence.reset r.cadence.next := by
  rw [Replay.perform, cadence_sendReport, hr.fire_next hlast]

theorem nextDeadline_report (hr : r.Ticking) :
    (r.perform (.report r.cadence.next)).feedback.nextDeadline = r.feedback.nextDeadline := by
  rw [feedback_perform, hr.timed.nextDeadline_after quiet_happeningCalls]

theorem lt_next_report (hr : r.Ticking) (hlast : r.cadence.next < .last) :
    r.cadence.next < (r.perform (.report r.cadence.next)).cadence.next := by
  obtain ⟨n, hn, hi⟩ := hr.interval
  rw [hr.cadence_report hlast]
  exact Cadence.lt_next_reset hi hn hlast

end Ticking

theorem lt_nextDeadline_timers (hr : r.Ticking) (early : d < limit) {d' : Timestamp}
    (hd' : (r.perform (.timers d)).feedback.nextDeadline = some d') : d < d' := by
  rw [feedback_perform] at hd'
  exact hr.timed.lt_nextDeadline_poll (Nat.lt_of_lt_of_le early limit.le_last) hd'

/-- Whatever happens moves the next one of its kind on. -/
theorem distance_perform_lt (hr : r.Ticking) (hdue : r.Due limit h) :
    (r.perform h).distance limit < r.distance limit := by
  cases hdue with
  | @timers d next early first =>
    have hbefore : d.micros < limit.micros := early
    have hcadence : (r.perform (.timers d)).cadence = r.cadence := rfl
    rw [distance, distance, next, hcadence]
    cases hnext : (r.perform (.timers d)).feedback.nextDeadline with
    | none =>
      dsimp only
      omega
    | some d' =>
      have hlater : d.micros < d'.micros := lt_nextDeadline_timers hr early hnext
      dsimp only
      omega
  | report early first =>
    have hbefore : r.cadence.next.micros < limit.micros := early
    have hlast : r.cadence.next < .last := Nat.lt_of_lt_of_le hbefore limit.le_last
    have hlater : r.cadence.next.micros <
        (r.perform (.report r.cadence.next)).cadence.next.micros := hr.lt_next_report hlast
    rw [distance, distance, hr.nextDeadline_report]
    omega

theorem distance_le (r : Replay) (limit : Timestamp) : r.distance limit ≤ 2 * limit.micros := by
  rw [distance]
  split <;> omega

/-! ### The wait for a delivery -/

/-- The loop up to `limit` with no bound on its rounds has ended: these have happened, each when it
was the next, and nothing is due any more. -/
inductive Waits (limit : Timestamp) : Replay → List Happening → Replay → Prop
  | done {r : Replay} (quiet : r.upcoming limit = none) : Waits limit r [] r
  | happen {r r' : Replay} {h : Happening} {hs : List Happening} (next : r.upcoming limit = some h)
      (rest : Waits limit (r.perform h) hs r') : Waits limit r (h :: hs) r'

theorem waits_advanceBy {n : Nat} (hr : r.Ticking) (hn : r.distance limit ≤ n) :
    ∃ hs, Waits limit r hs (advanceBy limit n r) := by
  induction n generalizing r with
  | zero =>
    refine ⟨[], .done ?_⟩
    cases hu : r.upcoming limit with
    | none => rfl
    | some h =>
      have := distance_perform_lt hr (due_of_upcoming hu)
      omega
  | succ n ih =>
    rw [advanceBy]
    cases hu : r.upcoming limit with
    | none => exact ⟨[], .done hu⟩
    | some h =>
      have := distance_perform_lt hr (due_of_upcoming hu)
      obtain ⟨hs, hwaits⟩ := ih (hr.perform h) (by omega)
      exact ⟨h :: hs, .happen hu hwaits⟩

theorem waits_advance (hr : r.Ticking) (limit : Timestamp) :
    ∃ hs, Waits limit r hs (r.advance limit) :=
  waits_advanceBy hr (Nat.le_refl _)

theorem Waits.idle {hs : List Happening} (hw : Waits limit r hs r') : r'.Idle limit := by
  induction hw with
  | done quiet => exact idle_of_upcoming quiet
  | happen _ _ ih => exact ih

theorem idle_advance (hr : r.Ticking) (limit : Timestamp) : (r.advance limit).Idle limit := by
  obtain ⟨hs, hwaits⟩ := waits_advance hr limit
  exact hwaits.idle

def Happening.poll? : Happening → Option Timestamp
  | .timers time => some time
  | .report _ => none

def Happening.report? : Happening → Option Timestamp
  | .timers _ => none
  | .report time => some time

/-- Little happens in a wait: every poll and every report is later than the one before and
earlier than `limit`. -/
structure GoesOn (limit : Timestamp) (hs : List Happening) : Prop where
  length : hs.length ≤ 2 * limit.micros
  polls : (hs.filterMap Happening.poll?).Pairwise (· < ·)
  reports : (hs.filterMap Happening.report?).Pairwise (· < ·)
  polled : ∀ t ∈ hs.filterMap Happening.poll?, t < limit
  reported : ∀ t ∈ hs.filterMap Happening.report?, t < limit

namespace Waits

variable {hs : List Happening}

theorem ticking (hr : r.Ticking) (hw : Waits limit r hs r') : r'.Ticking := by
  induction hw with
  | done => exact hr
  | happen _ _ ih => exact ih (hr.perform _)

theorem length_le (hr : r.Ticking) (hw : Waits limit r hs r') :
    hs.length ≤ r.distance limit := by
  induction hw with
  | done => exact Nat.zero_le _
  | happen next _ ih =>
    exact Nat.lt_of_le_of_lt (ih (hr.perform _)) (distance_perform_lt hr (due_of_upcoming next))

theorem nextDeadline_le (hr : r.Ticking) (hw : Waits limit r hs r') :
    ∀ t ∈ hs.filterMap Happening.poll?, ∃ d, r.feedback.nextDeadline = some d ∧ d ≤ t := by
  induction hw with
  | done => exact nofun
  | @happen r _ h hs next rest ih =>
    have hrest := ih (hr.perform h)
    cases due_of_upcoming next with
    | @timers d hnext early _ =>
      intro t ht
      rcases List.mem_cons.mp ht with rfl | ht
      · exact ⟨_, hnext, Nat.le_refl _⟩
      · obtain ⟨d', hd', hle⟩ := hrest t ht
        exact ⟨d, hnext, Nat.le_trans (Nat.le_of_lt (lt_nextDeadline_timers hr early hd')) hle⟩
    | report _ _ => exact hr.nextDeadline_report ▸ hrest

theorem next_le (hr : r.Ticking) (hw : Waits limit r hs r') :
    ∀ t ∈ hs.filterMap Happening.report?, r.cadence.next ≤ t := by
  induction hw with
  | done => exact nofun
  | @happen r _ h hs next rest ih =>
    have hrest := ih (hr.perform h)
    cases due_of_upcoming next with
    | timers _ _ _ => exact hrest
    | report early _ =>
      have hlater := hr.lt_next_report (Nat.lt_of_lt_of_le early limit.le_last)
      intro t ht
      rcases List.mem_cons.mp ht with rfl | ht
      · exact Nat.le_refl _
      · exact Nat.le_trans (Nat.le_of_lt hlater) (hrest t ht)

theorem goesOn (hr : r.Ticking) (hw : Waits limit r hs r') : GoesOn limit hs := by
  induction hw with
  | done => exact ⟨Nat.zero_le _, .nil, .nil, nofun, nofun⟩
  | @happen r _ h hs next rest ih =>
    have hlength := Nat.le_trans ((Waits.happen next rest).length_le hr) (r.distance_le limit)
    have hrest := ih (hr.perform h)
    have hpolls := rest.nextDeadline_le (hr.perform h)
    have hreports := rest.next_le (hr.perform h)
    cases due_of_upcoming next with
    | @timers d _ early _ =>
      refine ⟨hlength, List.pairwise_cons.mpr ⟨fun t ht => ?_, hrest.polls⟩, hrest.reports,
        List.forall_mem_cons.mpr ⟨early, hrest.polled⟩, hrest.reported⟩
      obtain ⟨d', hd', hle⟩ := hpolls t ht
      exact Nat.lt_of_lt_of_le (lt_nextDeadline_timers hr early hd') hle
    | report early _ =>
      refine ⟨hlength, hrest.polls, List.pairwise_cons.mpr ⟨fun t ht => ?_, hrest.reports⟩,
        hrest.polled, List.forall_mem_cons.mpr ⟨early, hrest.reported⟩⟩
      have hlater := hr.lt_next_report (Nat.lt_of_lt_of_le early limit.le_last)
      exact Nat.lt_of_lt_of_le hlater (hreports t ht)

end Waits

/-! ### A run step by step -/

def handOver (r : Replay) (s : Shipment) : Replay :=
  { r.deliver s with horizon := max (r.deliver s).horizon (s.time.after drainTail) }

theorem Ticking.handOver (hr : r.Ticking) (s : Shipment) : (r.handOver s).Ticking :=
  ⟨(hr.deliver s).interval, (hr.deliver s).timed⟩

/-- How far a run from `r₀` has come: the shipment in hand, the calls made so far and the replay. -/
inductive Reached (r₀ : Replay) : Option Shipment → List FeedbackCall → Replay → Prop
  | start : Reached r₀ none [] r₀
  | happen {hand : Option Shipment} {calls : List FeedbackCall} {r : Replay} {limit : Timestamp}
      {h : Happening} (prior : Reached r₀ hand calls r) (due : r.Due limit h) :
      Reached r₀ hand (calls ++ r.happeningCalls h) (r.perform h)
  | take {calls : List FeedbackCall} {r : Replay} {s : Shipment} {queue : List Shipment}
      (prior : Reached r₀ none calls r) (first : r.queue = s :: queue) :
      Reached r₀ (some s) calls { r with queue }
  | deliver {calls : List FeedbackCall} {r : Replay} {s : Shipment}
      (prior : Reached r₀ (some s) calls r) (idle : r.Idle s.time) :
      Reached r₀ none (calls ++ r.deliveryCalls s) (r.handOver s)

namespace Reached

variable {r₀ : Replay} {hand : Option Shipment} {calls : List FeedbackCall}

theorem sameTrace (h : Reached r₀ hand calls r) : r₀.SameTrace r := by
  induction h with
  | start => exact .refl r₀
  | happen _ _ ih => exact ih.trans (sameTrace_perform _ _)
  | take _ _ ih => exact ih.trans ⟨rfl, rfl, rfl, rfl, rfl⟩
  | deliver _ _ ih => exact (ih.trans (sameTrace_deliver _ _)).trans ⟨rfl, rfl, rfl, rfl, rfl⟩

theorem feedback (h : Reached r₀ hand calls r) : r.feedback = r₀.feedback.after calls := by
  induction h with
  | start => rfl
  | happen _ _ ih => rw [feedback_perform, ih, Feedback.after_append]
  | take _ _ ih => exact ih
  | deliver _ _ ih =>
    rw [Feedback.after_append, ← ih]
    exact feedback_deliver _ _

theorem ticking (h : Reached r₀ hand calls r) (hr : r₀.Ticking) : r.Ticking := by
  induction h with
  | start => exact hr
  | happen _ _ ih => exact ih.perform _
  | take _ _ ih => exact ih.take _
  | deliver _ _ ih => exact ih.handOver _

theorem advance (h : Reached r₀ hand calls r) (limit : Timestamp) :
    Reached r₀ hand (calls ++ r.advanceCalls limit) (r.advance limit) := by
  rw [Replay.advance, advanceCalls]
  generalize r.distance limit = n
  induction n generalizing r calls with
  | zero =>
    rw [callsBefore, List.append_nil]
    exact h
  | succ n ih =>
    rw [advanceBy, callsBefore]
    cases hu : r.upcoming limit with
    | none =>
      dsimp only
      rw [List.append_nil]
      exact h
    | some happening =>
      have hnext := ih (h.happen (due_of_upcoming hu))
      rwa [List.append_assoc] at hnext

theorem deliverAll {n : Nat} (h : Reached r₀ none calls r) (hr : r₀.Ticking) :
    Reached r₀ none (calls ++ deliverAllCalls n r) (deliverAll n r) := by
  induction n generalizing r calls with
  | zero =>
    rw [deliverAllCalls, List.append_nil]
    exact h
  | succ n ih =>
    rw [Replay.deliverAll, deliverAllCalls, nextCalls, next?]
    cases hqueue : r.queue with
    | nil =>
      dsimp only
      rw [List.append_nil]
      exact h
    | cons s queue =>
      dsimp only
      have htaken := h.take hqueue
      have hnext := ih ((htaken.advance s.time).deliver
        (idle_advance (htaken.ticking hr) s.time))
      rw [← List.append_assoc, ← List.append_assoc]
      exact hnext

end Reached

def ended (r : Replay) : Replay :=
  let last := deliverAll r.deliveryLimit r
  last.advance last.horizon

theorem run_eq (r : Replay) : r.run = r.ended.finish := rfl

theorem reached_ended (hr : r.Ticking) : Reached r none r.calls r.ended := by
  have hlast : Reached r none ([] ++ deliverAllCalls r.deliveryLimit r)
      (deliverAll r.deliveryLimit r) := Reached.deliverAll .start hr
  rw [List.nil_append] at hlast
  exact hlast.advance _

end Replay
end LossWatch
