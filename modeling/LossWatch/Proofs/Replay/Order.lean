import LossWatch.Proofs.Replay.Completion

/-!
The order in which packets are handed over. Every packet that arrives is, and the order is that of their
times, but for one case: a delivery is taken off the queue before the reports due before it go out, so
that an original that ends a pause of more than a round trip comes before the repairs ordered in it.
-/

namespace LossWatch

structure Handover where
  time : Timestamp
  isRepair : Bool
deriving DecidableEq

def Shipment.handover (s : Shipment) : Handover := ⟨s.time, s.isRepair⟩

def FeedbackCall.handover? : FeedbackCall → Option Handover
  | .arrival now _ => some ⟨now, false⟩
  | .repair now _ => some ⟨now, true⟩
  | _ => none

/-- At `t` the first packet arrives that comes more than a round trip after those before it. -/
structure EndsPause (arrivals : List Timestamp) (rtt : Duration) (t : Timestamp) : Prop where
  begun : ∃ x ∈ arrivals, x < t
  quiet : ∀ x ∈ arrivals, x < t → x.after rtt < t

/-- In the order of time, or an original that ends a pause and then a repair. -/
def Handover.Precedes (arrivals : List Timestamp) (rtt : Duration) (a b : Handover) : Prop :=
  a.time ≤ b.time ∨ a.isRepair = false ∧ b.isRepair = true ∧ EndsPause arrivals rtt a.time

theorem Timestamp.after_mono {a b : Timestamp} (h : a ≤ b) (d : Duration) :
    a.after d ≤ b.after d := by
  have hle : a.micros ≤ b.micros := h
  show min (a.micros + d.micros) lastMicros ≤ min (b.micros + d.micros) lastMicros
  omega

theorem Timestamp.le_after (a : Timestamp) (d : Duration) : a ≤ a.after d := by
  have hlast := a.le_last
  show a.micros ≤ min (a.micros + d.micros) lastMicros
  omega

namespace Replay

variable {r₀ r : Replay} {hand : Option Shipment} {calls : List FeedbackCall}
  {tie : Timestamp → SeqNumber → Nat}
  {now limit : Timestamp} {arrivals : List Timestamp} {s : Shipment} {h : Happening}

def handovers (r : Replay) : List Handover := r.calls.filterMap FeedbackCall.handover?

theorem handovers_happeningCalls (r : Replay) (h : Happening) :
    (r.happeningCalls h).filterMap FeedbackCall.handover? = [] := by
  cases h with
  | timers now => rfl
  | report now =>
    refine List.filterMap_eq_nil_iff.mpr fun c hc => ?_
    rw [happeningCalls] at hc
    split at hc
    · rcases List.mem_append.mp hc with hc | hc
      · rcases List.mem_pair.mp hc with rfl | rfl <;> rfl
      · obtain ⟨seq, -, rfl⟩ := List.mem_map.mp hc
        rfl
    · exact absurd hc List.not_mem_nil

theorem handovers_advanceCalls (r : Replay) (limit : Timestamp) :
    (r.advanceCalls limit).filterMap FeedbackCall.handover? = [] := by
  rw [advanceCalls]
  generalize r.distance limit = n
  induction n generalizing r with
  | zero => rfl
  | succ n ih =>
    rw [callsBefore]
    cases r.upcoming limit with
    | none => rfl
    | some h =>
      dsimp only
      rw [List.filterMap_append, handovers_happeningCalls, ih, List.append_nil]

theorem handovers_deliveryCalls (r : Replay) (s : Shipment) :
    ((r.deliveryCalls s).filterMap FeedbackCall.handover?).Sublist [s.handover] := by
  rw [deliveryCalls]
  cases r.trace[s.index]? with
  | none => exact List.nil_sublist _
  | some packet =>
    cases hrepair : s.isRepair <;> simp [FeedbackCall.handover?, Shipment.handover, hrepair]

/-- What is still to be handed over, and how it stands to what has been. -/
structure InOrder (arrivals : List Timestamp) (hand : Option Shipment) (calls : List FeedbackCall)
    (r : Replay) : Prop where
  sorted : r.queue.Pairwise (·.time ≤ ·.time)
  done : (calls.filterMap FeedbackCall.handover?).Pairwise
    (Handover.Precedes arrivals r.rtxRtt)
  next : ∀ a ∈ calls.filterMap FeedbackCall.handover?, ∀ s ∈ underway hand r,
    a.Precedes arrivals r.rtxRtt s.handover
  first : ∀ s ∈ hand, ∀ t ∈ r.queue, s.handover.Precedes arrivals r.rtxRtt t.handover
  passed : ∀ a ∈ calls.filterMap FeedbackCall.handover?, a.time ≤ r.cadence.next
  ordered : ∀ s ∈ underway hand r, s.isRepair = true → s.time ≤ r.cadence.next.after r.rtxRtt
  genuine : ∀ s ∈ originals hand r, s.time ∈ arrivals
  awaited : ∀ x ∈ arrivals, x ≤ r.cadence.next ∨ ∃ s ∈ originals hand r, s.time = x
  calm : (∃ x ∈ arrivals, x ≤ r.cadence.next) ∨
    r.feedback.pending.lost = [] ∧ r.feedback.nextDeadline = none ∧
      ∀ s ∈ underway hand r, s.isRepair = false

namespace InOrder

theorem le_of_arrival (h : InOrder arrivals (some s) calls r) {x : Timestamp} (hx : x ∈ arrivals)
    (hlt : x < s.time) : x ≤ r.cadence.next := by
  rcases h.awaited x hx with hpassed | ⟨t, ht, rfl⟩
  · exact hpassed
  · obtain ⟨ht, horiginal⟩ := mem_originals.mp ht
    rcases List.mem_cons.mp ht with rfl | ht
    · exact absurd hlt (Nat.lt_irrefl _)
    · rcases h.first s rfl t ht with hle | ⟨-, hrepair, -⟩
      · exact absurd hlt (Nat.not_lt.mpr hle)
      · exact absurd hrepair (by simp [Shipment.handover, horiginal])

/-- What a report orders while a shipment is in hand comes after it, unless that ends a pause. -/
theorem precedes_ordered (h : InOrder arrivals (some s) calls r) {t : Shipment}
    (hlost : r.feedback.pending.lost ≠ []) (ht : t.isRepair = true)
    (htime : t.time = r.cadence.next.after r.rtxRtt) :
    s.handover.Precedes arrivals r.rtxRtt t.handover := by
  have hs : s ∈ underway (some s) r := List.mem_cons_self
  by_cases hle : s.time ≤ t.time
  · exact Or.inl hle
  · rw [htime] at hle
    cases hrepair : s.isRepair with
    | true => exact absurd (h.ordered s hs hrepair) hle
    | false =>
      refine Or.inr ⟨hrepair, ht, ?_, fun x hx hlt => ?_⟩
      · rcases h.calm with ⟨x, hx, hpassed⟩ | ⟨hnone, -⟩
        · refine ⟨x, hx, ?_⟩
          have hbefore := Nat.le_trans hpassed (Timestamp.le_after r.cadence.next r.rtxRtt)
          exact Nat.lt_of_le_of_lt hbefore (Nat.lt_of_not_le hle)
        · exact absurd hnone hlost
      · have hpassed := h.le_of_arrival hx hlt
        exact Nat.lt_of_le_of_lt (Timestamp.after_mono hpassed _) (Nat.lt_of_not_le hle)

theorem take {queue : List Shipment} (h : InOrder arrivals none calls r)
    (hqueue : r.queue = s :: queue) : InOrder arrivals (some s) calls { r with queue } := by
  have hsame := underway_take hqueue
  have hsorted := h.sorted
  rw [hqueue] at hsorted
  obtain ⟨hfirst, hrest⟩ := List.pairwise_cons.mp hsorted
  have horiginals := originals_take hqueue
  refine ⟨hrest, h.done, hsame ▸ h.next, ?_, h.passed, hsame ▸ h.ordered,
    horiginals ▸ h.genuine, horiginals ▸ h.awaited, hsame ▸ h.calm⟩
  intro s' hs' t ht
  exact Or.inl (Option.some.inj hs' ▸ hfirst t ht)

theorem handOver (h : InOrder arrivals (some s) calls r) (idle : r.Idle s.time) :
    InOrder arrivals none (calls ++ r.deliveryCalls s) (r.handOver s) := by
  have hsame : r.SameTrace (r.handOver s) := (r.sameTrace_deliver s).trans ⟨rfl, rfl, rfl, rfl, rfl⟩
  have hqueue : (r.handOver s).queue = r.queue := (r.kept_deliver s).1
  have hunderway : underway none (r.handOver s) = r.queue := hqueue
  have hcadence : (r.handOver s).cadence = r.cadence := (r.kept_deliver s).2
  have hmem : ∀ {t}, t ∈ r.queue → t ∈ underway (some s) r := List.mem_cons_of_mem s
  have horiginal : ∀ {t}, t ∈ originals none r → t ∈ originals (some s) r := fun ht =>
    mem_originals.mpr (And.imp_left hmem (mem_originals.mp ht))
  have hs : s ∈ underway (some s) r := List.mem_cons_self
  have hown := r.handovers_deliveryCalls s
  have hone : ∀ a ∈ (r.deliveryCalls s).filterMap FeedbackCall.handover?, a = s.handover :=
    fun a ha => List.mem_singleton.mp (hown.mem ha)
  refine ⟨hqueue ▸ h.sorted, ?_, ?_, by simp, ?_, ?_, ?_, ?_, ?_⟩ <;>
    simp only [hsame.rtxRtt, hcadence, hunderway, originals_handOver, List.filterMap_append]
  · refine List.pairwise_append.mpr ⟨h.done, (List.pairwise_singleton _ _).sublist hown, ?_⟩
    exact fun a ha b hb => hone b hb ▸ h.next a ha s hs
  · intro a ha t ht
    rcases List.mem_append.mp ha with ha | ha
    · exact h.next a ha t (hmem ht)
    · exact hone a ha ▸ h.first s rfl t ht
  · intro a ha
    rcases List.mem_append.mp ha with ha | ha
    · exact h.passed a ha
    · exact hone a ha ▸ idle.report
  · exact fun t ht => h.ordered t (hmem ht)
  · exact fun t ht => h.genuine t (horiginal ht)
  · intro x hx
    rcases h.awaited x hx with hpassed | ⟨t, ht, rfl⟩
    · exact Or.inl hpassed
    · obtain ⟨ht, hrepair⟩ := mem_originals.mp ht
      rcases List.mem_cons.mp ht with rfl | ht
      · exact Or.inl idle.report
      · exact Or.inr ⟨t, mem_originals.mpr ⟨ht, hrepair⟩, rfl⟩
  · rcases h.calm with hstarted | ⟨-, -, horiginals⟩
    · exact Or.inl hstarted
    · have hgenuine := h.genuine s (mem_originals.mpr ⟨hs, horiginals s hs⟩)
      exact Or.inl ⟨s.time, hgenuine, idle.report⟩

theorem timers {d : Timestamp} (h : InOrder arrivals hand calls r)
    (next : r.feedback.nextDeadline = some d) :
    InOrder arrivals hand (calls ++ r.happeningCalls (.timers d)) (r.perform (.timers d)) := by
  have hdone : (calls ++ r.happeningCalls (.timers d)).filterMap FeedbackCall.handover? =
      calls.filterMap FeedbackCall.handover? := by
    rw [List.filterMap_append, handovers_happeningCalls, List.append_nil]
  refine ⟨h.sorted, hdone ▸ h.done, hdone ▸ h.next, h.first, hdone ▸ h.passed, h.ordered,
    h.genuine, h.awaited, ?_⟩
  rcases h.calm with hstarted | ⟨-, hnone, -⟩
  · exact Or.inl hstarted
  · exact absurd (next.symm.trans hnone) (by simp)

theorem report (h : InOrder arrivals hand calls r) (hr : r.Ticking)
    (hlast : r.cadence.next < .last) :
    InOrder arrivals hand (calls ++ r.happeningCalls (.report r.cadence.next))
      (r.perform (.report r.cadence.next)) := by
  have hdone : (calls ++ r.happeningCalls (.report r.cadence.next)).filterMap
      FeedbackCall.handover? = calls.filterMap FeedbackCall.handover? := by
    rw [List.filterMap_append, handovers_happeningCalls, List.append_nil]
  have hsame := r.sameTrace_perform (.report r.cadence.next)
  have horiginals := r.originals_perform (.report r.cadence.next) hand
  have hpending := hr.pending_report hlast
  have hdeadline := hr.nextDeadline_report
  have hlater : r.cadence.next ≤ (r.perform (.report r.cadence.next)).cadence.next :=
    Nat.le_of_lt (hr.lt_next_report hlast)
  obtain ⟨ss, hss⟩ := r.ships_report r.cadence.next
  generalize r.perform (.report r.cadence.next) = r' at *
  refine ⟨hss.sorted h.sorted, ?_, ?_, ?_, ?_, ?_, ?_, ?_, ?_⟩
  · rw [hdone, hsame.rtxRtt]
    exact h.done
  · rw [hdone, hsame.rtxRtt]
    intro a ha t ht
    rcases hss.mem_underway.mp ht with ht | ht
    · -- Everything handed over so far is no later than the report.
      obtain ⟨-, htime, -⟩ := hss.repairs t ht
      refine Or.inl (Nat.le_trans (h.passed a ha) ?_)
      show r.cadence.next ≤ t.time
      rw [htime]
      exact Timestamp.le_after _ _
    · exact h.next a ha t ht
  · rw [hsame.rtxRtt]
    intro s hs t ht
    obtain rfl : hand = some s := hs
    rcases List.mem_append.mp (hss.perm.mem_iff.mp ht) with ht | ht
    · obtain ⟨hrepair, htime, seq, hseq, -⟩ := hss.repairs t ht
      exact h.precedes_ordered (List.ne_nil_of_mem hseq) hrepair htime
    · exact h.first s rfl t ht
  · rw [hdone]
    exact fun a ha => Nat.le_trans (h.passed a ha) hlater
  · rw [hsame.rtxRtt]
    intro t ht hrepair
    rcases hss.mem_underway.mp ht with ht | ht
    · obtain ⟨-, htime, -⟩ := hss.repairs t ht
      exact htime ▸ Timestamp.after_mono hlater _
    · exact Nat.le_trans (h.ordered t ht hrepair) (Timestamp.after_mono hlater _)
  · exact fun t ht => h.genuine t (horiginals.mem_iff.mp ht)
  · intro x hx
    rcases h.awaited x hx with hpassed | ⟨t, ht, rfl⟩
    · exact Or.inl (Nat.le_trans hpassed hlater)
    · exact Or.inr ⟨t, horiginals.mem_iff.mpr ht, rfl⟩
  · rcases h.calm with ⟨x, hx, hpassed⟩ | ⟨hlost, hnone, hfirst⟩
    · exact Or.inl ⟨x, hx, Nat.le_trans hpassed hlater⟩
    · refine Or.inr ⟨by rw [hpending], hdeadline.trans hnone, fun t ht => ?_⟩
      rcases hss.mem_underway.mp ht with ht | ht
      · obtain ⟨-, -, seq, hseq, -⟩ := hss.repairs t ht
        exact absurd hseq (by simp [hlost])
      · exact hfirst t ht

end InOrder

theorem Reached.inOrder (h : Reached r₀ hand calls r) (hr : r₀.Ticking)
    (hstart : InOrder arrivals none [] r₀) : InOrder arrivals hand calls r := by
  induction h with
  | start => exact hstart
  | happen prior due ih =>
    cases due with
    | timers next _ _ => exact ih.timers next
    | report early _ =>
      exact ih.report (prior.ticking hr) (Nat.lt_of_lt_of_le early (Timestamp.le_last _))
  | take _ first ih => exact ih.take first
  | deliver _ idle ih => exact ih.handOver idle

/-! ### All of them -/

def originalTimes (as : List Handover) : List Timestamp :=
  (as.filter (!·.isRepair)).map (·.time)

theorem originalTimes_append (as bs : List Handover) :
    originalTimes (as ++ bs) = originalTimes as ++ originalTimes bs := by
  rw [originalTimes, List.filter_append, List.map_append]
  rfl

theorem originalTimes_deliveryCalls (known : Known (some s) r) :
    originalTimes ((r.deliveryCalls s).filterMap FeedbackCall.handover?) ++
      (originals none r).map (·.time) = (originals (some s) r).map (·.time) := by
  cases hrepair : s.isRepair with
  | true =>
    have hnone : originalTimes ((r.deliveryCalls s).filterMap FeedbackCall.handover?) = [] := by
      refine List.map_eq_nil_iff.mpr (List.filter_eq_nil_iff.mpr fun a ha => ?_)
      rw [List.mem_singleton.mp ((r.handovers_deliveryCalls s).mem ha), Shipment.handover, hrepair]
      simp
    rw [hnone, originals_of_repair hrepair, List.nil_append]
  | false =>
    obtain ⟨p, hp⟩ := known s (mem_originals.mpr ⟨List.mem_cons_self, hrepair⟩)
    rw [originals_of_original hrepair]
    simp [deliveryCalls, hp, hrepair, FeedbackCall.handover?, originalTimes]

theorem Reached.originalTimes_perm (h : Reached r₀ hand calls r) (known : Known none r₀) :
    (originalTimes (calls.filterMap FeedbackCall.handover?) ++
      (originals hand r).map (·.time)).Perm ((originals none r₀).map (·.time)) := by
  induction h with
  | start => exact .rfl
  | @happen hand _ r _ h _ _ ih =>
    rw [List.filterMap_append, handovers_happeningCalls, List.append_nil]
    exact (((r.originals_perform h hand).map _).append_left _).trans ih
  | take _ first ih => exact originals_take first ▸ ih
  | deliver prior _ ih =>
    rw [List.filterMap_append, originalTimes_append, originals_handOver, List.append_assoc,
      originalTimes_deliveryCalls (prior.known known)]
    exact ih

theorem inOrder_start {s : Scenario} {f : Feedback} (opened : f.Opened s.feedback)
    (packets : List TracePacket) :
    InOrder (packets.filterMap (·.arrival)) none [] (start s f packets tie) := by
  refine ⟨sorted_queue_start, .nil, by simp, by simp, by simp, ?_, ?_, ?_, Or.inr ⟨?_, ?_, ?_⟩⟩
  · intro x hx hrepair
    simp [(mem_underway_start.mp hx).1] at hrepair
  · intro x hx
    obtain ⟨-, p, hp, htime⟩ := mem_underway_start.mp (mem_originals.mp hx).1
    exact List.mem_filterMap.mpr ⟨p, List.mem_of_getElem? hp, htime⟩
  · intro time htime
    obtain ⟨p, hp, harrival⟩ := List.mem_filterMap.mp htime
    obtain ⟨i, hi⟩ := List.mem_iff_getElem?.mp hp
    have hx : ⟨time, i, false⟩ ∈ underway none (start s f packets tie) :=
      mem_underway_start.mpr ⟨rfl, p, hi, harrival⟩
    exact Or.inr ⟨_, mem_originals.mpr ⟨hx, rfl⟩, rfl⟩
  · exact congrArg PendingLists.lost opened.pending
  · exact opened.nextDeadline_eq_none
  · exact fun x hx => (mem_underway_start.mp hx).1

/-- Every packet that arrives is handed over, and all packets, original and repaired, come in the order
of their times, unless an original ends a pause of more than a round trip: the repairs ordered in the
pause then come after it. -/
theorem handed_over_in_order {s : Scenario} (valid : s.validate = .ok ())
    (packets : List TracePacket) (tie : Timestamp → SeqNumber → Nat) : ∃ f, s.opened = .ok f ∧
      s.replay packets tie = .ok (start s f packets tie).run ∧
      (originalTimes (start s f packets tie).handovers).Perm (packets.filterMap (·.arrival)) ∧
      (start s f packets tie).handovers.Pairwise
        (Handover.Precedes (packets.filterMap (·.arrival)) s.rtxRtt) := by
  obtain ⟨f, hf, hopened, hreplay⟩ := Scenario.exists_opened valid
  have hticking := ticking_start valid hopened packets tie
  have hended := reached_ended hticking
  have hall := hended.originalTimes_perm known_start
  rw [originals_ended valid hopened packets, List.map_nil, List.append_nil] at hall
  have hdone := (hended.inOrder hticking (inOrder_start hopened packets)).done
  rw [hended.sameTrace.rtxRtt] at hdone
  exact ⟨f, hf, hreplay packets tie, hall.trans times_originals_start, hdone⟩

theorem handed_over_in_order_of_sample :
    let packets : List TracePacket :=
      [⟨.ofNat 0, 0, .ofNat 0, .zero, .ofMillis 20, some (.ofMillis 25)⟩,
        ⟨.ofNat 1, 1, .ofNat 0, .ofMillis 10, .ofMillis 55, none⟩,
        ⟨.ofNat 2, 0, .ofNat 1, .ofMillis 20, .ofMillis 40, some (.ofMillis 40)⟩]
    Scenario.sample.validate = .ok () ∧ ∃ f, Scenario.sample.opened = .ok f ∧
      Scenario.sample.replay packets = .ok (start Scenario.sample f packets).run ∧
      (originalTimes (start Scenario.sample f packets).handovers).Perm
        (packets.filterMap (·.arrival)) ∧
      (start Scenario.sample f packets).handovers.Pairwise
        (Handover.Precedes (packets.filterMap (·.arrival)) Scenario.sample.rtxRtt) := by
  intro packets
  have valid : Scenario.sample.validate = .ok () := Except.eq_ok_of_toOption (by decide +kernel)
  exact ⟨valid, handed_over_in_order valid packets fun _ _ => 0⟩

/-! ### A run that is out of order -/

theorem advance_of_none (h : r.upcoming limit = none) : r.advance limit = r := by
  rw [advance]
  cases r.distance limit with
  | zero => rfl
  | succ n => rw [advanceBy, h]

theorem advance_of_last (hr : r.Ticking) (hu : r.upcoming limit = some h)
    (hlast : (r.perform h).upcoming limit = none) : r.advance limit = r.perform h := by
  have hlt := distance_perform_lt hr (due_of_upcoming hu)
  rw [advance]
  obtain ⟨n, hn⟩ := Nat.exists_eq_succ_of_ne_zero (Nat.ne_of_gt (Nat.zero_lt_of_lt hlt))
  rw [hn, advanceBy, hu]
  dsimp only
  cases n with
  | zero => rfl
  | succ n => rw [advanceBy, hlast]

theorem handovers_deliverAllCalls {queue : List Shipment} {p : TracePacket} (n : Nat)
    (hqueue : r.queue = s :: queue) (hp : r.trace[s.index]? = some p) :
    (deliverAllCalls (n + 1) r).filterMap FeedbackCall.handover? = s.handover ::
      (deliverAllCalls n (({ r with queue }.advance s.time).handOver s)).filterMap
        FeedbackCall.handover? := by
  have htaken : Reached { r with queue } none [] { r with queue } := .start
  have hsame := (htaken.advance s.time).sameTrace
  have hown : (({ r with queue }.advance s.time).deliveryCalls s).filterMap
      FeedbackCall.handover? = [s.handover] := by
    rw [deliveryCalls, hsame.trace, hp]
    cases hrepair : s.isRepair <;> simp [FeedbackCall.handover?, Shipment.handover, hrepair]
  rw [deliverAllCalls, nextCalls, next?, hqueue]
  dsimp only
  rw [List.filterMap_append, List.filterMap_append, handovers_advanceCalls, hown]
  rfl

theorem handovers_quiet {queue : List Shipment} {p : TracePacket} (hr : r.Ticking)
    (hqueue : r.queue = s :: queue)
    (hp : r.trace[s.index]? = some p) (horiginal : s.isRepair = false)
    (hdeadline : r.feedback.nextDeadline = none) (hnext : s.time ≤ r.cadence.next) :
    ∃ r' : Replay, r'.Ticking ∧ r.SameTrace r' ∧ r'.queue = queue ∧ r'.cadence = r.cadence ∧
      r'.feedback = r.feedback.call (.arrival s.time (.onFlow p.seq p.flow p.flowSeq)) ∧
      ∀ n, (deliverAllCalls (n + 1) r).filterMap FeedbackCall.handover? =
        s.handover :: (deliverAllCalls n r').filterMap FeedbackCall.handover? := by
  have hidle : { r with queue }.upcoming s.time = none := by
    simp only [upcoming, hdeadline]
    exact if_neg (Nat.not_lt.mpr hnext)
  have hsame : { r with queue }.SameTrace ({ r with queue }.handOver s) :=
    (sameTrace_deliver _ s).trans ⟨rfl, rfl, rfl, rfl, rfl⟩
  have hkept := kept_deliver { r with queue } s
  refine ⟨{ r with queue }.handOver s, (hr.take queue).handOver s,
    ⟨hsame.trace, hsame.places, hsame.rtxRtt, hsame.interval, hsame.tie⟩, hkept.1, hkept.2, ?_, fun n => ?_⟩
  · refine (feedback_deliver { r with queue } s).trans ?_
    simp only [deliveryCalls, hp, horiginal]
    rfl
  · rw [handovers_deliverAllCalls n hqueue hp, advance_of_none hidle]

theorem queue_report {seq : SeqNumber} {index : Nat} (hr : r.Ticking)
    (hlast : r.cadence.next < .last) (hmode : r.feedback.mode = .nack)
    (hlost : r.feedback.pending.lost = [seq]) (hplace : r.place? seq = some index) :
    (r.perform (.report r.cadence.next)).queue =
      Shipment.enqueue ⟨r.cadence.next.after r.rtxRtt, index, true⟩ r.queue := by
  have hdue : (r.cadence.fire r.cadence.next).1 = true := by rw [hr.fire_next hlast]
  have hkept : (r.drained r.cadence.next).place? seq = some index := hplace
  have hdrained : (r.drained r.cadence.next).feedback.mode = .nack := hmode
  have hrun : (r.drained r.cadence.next).feedback.isShutDown = false := hr.timed.running
  rw [perform, sendReport_of_due hdue, hlost, List.foldl_cons, List.foldl_nil, nack, hkept]
  simp only [tally, Feedback.onRequest_eq hdrained hrun]
  rfl

/-- The only shipment on its way comes after the next report, and the report orders a repair: the
repair is handed over after it, however early it is. -/
theorem handovers_pause {p q : TracePacket} {seq : SeqNumber} {index : Nat} (hr : r.Ticking)
    (hqueue : r.queue = [s]) (hp : r.trace[s.index]? = some p) (hmode : r.feedback.mode = .nack)
    (hdeadline : r.feedback.nextDeadline = none) (hlost : r.feedback.pending.lost = [seq])
    (hplace : r.place? seq = some index) (hq : r.trace[index]? = some q)
    (hdue : r.cadence.next < s.time) (hquiet : s.time ≤ (r.cadence.reset r.cadence.next).next)
    (n : Nat) : ∃ rest, (deliverAllCalls (n + 2) r).filterMap FeedbackCall.handover? =
      s.handover :: ⟨r.cadence.next.after r.rtxRtt, true⟩ :: rest := by
  have htaken : Ticking { r with queue := [] } := hr.take _
  have hlast : r.cadence.next < .last := Nat.lt_of_lt_of_le hdue s.time.le_last
  have hreport : { r with queue := [] }.upcoming s.time = some (.report r.cadence.next) := by
    simp only [upcoming, hdeadline]
    exact if_pos hdue
  have hcadence := htaken.cadence_report hlast
  have hsame := sameTrace_perform { r with queue := [] } (.report r.cadence.next)
  have hordered := queue_report htaken hlast hmode hlost hplace
  have hidle :
      ({ r with queue := [] }.perform (.report r.cadence.next)).upcoming s.time = none := by
    have hnone := htaken.nextDeadline_report.trans hdeadline
    simp only [upcoming, hnone, hcadence]
    exact if_neg (Nat.not_lt.mpr hquiet)
  rw [handovers_deliverAllCalls (n + 1) hqueue hp, advance_of_last htaken hreport hidle]
  generalize { r with queue := [] }.perform (.report r.cadence.next) = r' at *
  have hnext : (r'.handOver s).queue = [⟨r.cadence.next.after r.rtxRtt, index, true⟩] :=
    (r'.kept_deliver s).1.trans hordered
  have hpacket : (r'.handOver s).trace[index]? = some q := by
    rw [show (r'.handOver s).trace = r.trace from (r'.sameTrace_deliver s).trace.trans hsame.trace]
    exact hq
  rw [handovers_deliverAllCalls n hnext hpacket]
  exact ⟨_, rfl⟩

/-- Number 2 is missed when 3 arrives at 60 ms. The report at 100 ms has it repaired, which takes
10 ms, but the original arrives at 195 ms, and its repair is handed over after that. -/
theorem repair_after_later_packet :
    let s : Scenario :=
      { estimator := EstimatorKind.singlePath.name, rtxRttMillis := 10, packets := 3
        flows := [{ id := 0, interval := .ofDecimal false 20 0, delay := .ofDecimal false 20 0 }] }
    let packet (seq sent : Nat) (arrival : Nat) : TracePacket :=
      { seq := .ofNat seq, flow := 0, flowSeq := .ofNat (seq - 1), sent := .ofMillis sent
        nominal := .ofMillis (sent + 20), arrival := some (.ofMillis arrival) }
    let packets := [packet 1 0 20, packet 2 20 195, packet 3 40 60]
    s.validate = .ok () ∧ ∃ f, s.opened = .ok f ∧
      s.replay packets = .ok (start s f packets).run ∧
      ¬ (start s f packets).handovers.Pairwise (·.time ≤ ·.time) := by
  intro s packet packets
  have valid : s.validate = .ok () := Except.eq_ok_of_toOption (by decide +kernel)
  obtain ⟨f, hf, hopened, hreplay⟩ := Scenario.exists_opened valid
  refine ⟨valid, f, hf, hreplay packets _, ?_⟩
  have hheard : s.opened.toOption.map (fun f =>
      let f₁ := f.call (.arrival (.ofMillis 20) (.onFlow (.ofNat 1) 0 (.ofNat 0)))
      let f₂ := f₁.call (.arrival (.ofMillis 60) (.onFlow (.ofNat 3) 0 (.ofNat 2)))
      (f₁.nextDeadline, f₂.nextDeadline, f₂.mode, f₂.pending.lost)) =
        some (none, none, .nack, [.ofNat 2]) := by
    decide +kernel
  rw [hf] at hheard
  obtain ⟨hfirst, hsecond, hmode, hlost⟩ : _ ∧ _ ∧ _ ∧ _ := by
    simpa only [Except.toOption, Option.map_some, Option.some.injEq, Prod.mk.injEq] using hheard
  have hqueue : (start s f packets).queue = [⟨.ofMillis 20, 0, false⟩, ⟨.ofMillis 60, 2, false⟩,
      ⟨.ofMillis 195, 1, false⟩] := by
    have hle : Timestamp.ofMillis 20 ≤ .ofMillis 195 ∧ Timestamp.ofMillis 20 ≤ .ofMillis 60 ∧
        ¬ Timestamp.ofMillis 195 ≤ .ofMillis 60 := by decide
    show List.mergeSort [(⟨.ofMillis 20, 0, false⟩ : Shipment), ⟨.ofMillis 195, 1, false⟩,
      ⟨.ofMillis 60, 2, false⟩] (·.time ≤ ·.time) = _
    simp [List.mergeSort, List.MergeSort.Internal.splitInTwo, hle]
  have hplace : (start s f packets).place? (.ofNat 2) = some 1 := by
    show (((∅ : Std.HashMap Nat Nat).insert 1 0 |>.insert 2 1).insert 3 2)[2]? = some 1
    rw [Std.HashMap.getElem?_insert, Std.HashMap.getElem?_insert_self]
    rfl
  have hcadence : (start s f packets).cadence = ⟨.ofMillis 100, .zero⟩ := rfl
  have htrace : (start s f packets).trace = packets.toArray := rfl
  obtain ⟨r₁, hr₁, hsame₁, hqueue₁, hcadence₁, hf₁, hnext₁⟩ := handovers_quiet
    (ticking_start valid hopened packets _) hqueue (show _ = some (packet 1 0 20) from rfl) rfl
    hopened.nextDeadline_eq_none (hcadence ▸ by decide)
  rw [hcadence] at hcadence₁
  obtain ⟨r₂, hr₂, hsame₂, hqueue₂, hcadence₂, hf₂, hnext₂⟩ := handovers_quiet hr₁ hqueue₁
    (show _ = some (packet 3 40 60) by rw [hsame₁.trace, htrace]; rfl) rfl
    ((congrArg Feedback.nextDeadline hf₁).trans hfirst) (hcadence₁ ▸ by decide)
  rw [hf₁] at hf₂
  rw [hcadence₁] at hcadence₂
  have hsame := hsame₁.trans hsame₂
  have htrace₂ := hsame.trace.trans htrace
  obtain ⟨rest, hrest⟩ := handovers_pause hr₂ hqueue₂
    (show _ = some (packet 2 20 195) by rw [htrace₂]; rfl)
    ((congrArg Feedback.mode hf₂).trans hmode) ((congrArg Feedback.nextDeadline hf₂).trans hsecond)
    ((congrArg (·.pending.lost) hf₂).trans hlost) (hsame.place? ▸ hplace)
    (show _ = some (packet 2 20 195) by rw [htrace₂]; rfl)
    (hcadence₂ ▸ by decide) (hcadence₂ ▸ by decide) ((start s f packets).deliveryLimit - 4)
  have hlimit : (start s f packets).deliveryLimit = (start s f packets).deliveryLimit - 4 + 4 := by
    have hsize : (start s f packets).trace.size = 3 := rfl
    have : 4 ≤ (start s f packets).deliveryLimit := by
      rw [deliveryLimit, hsize]
      omega
    omega
  intro horder
  rw [handovers, calls, List.filterMap_append, hlimit, hnext₁, hnext₂, hrest] at horder
  obtain ⟨-, hafter⟩ := List.pairwise_cons.mp horder
  obtain ⟨-, hafter⟩ := List.pairwise_cons.mp hafter
  obtain ⟨hafter, -⟩ := List.pairwise_cons.mp hafter
  have hlate := hafter _ List.mem_cons_self
  have hrtt : r₂.rtxRtt = .ofMillis 10 := hsame.rtxRtt
  rw [hcadence₂, hrtt] at hlate
  exact absurd hlate (by decide)

end Replay
end LossWatch
