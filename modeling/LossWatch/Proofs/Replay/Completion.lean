import LossWatch.Proofs.Feedback.LossDebt
import LossWatch.Proofs.Replay.Opening
import LossWatch.Proofs.Replay.Queue

/-!
A run delivers everything and ends. Each delivery takes one shipment off the queue, and new ones are
repairs of losses that are reported. So what is underway and the losses that may still be reported, now
and for each original that is still to come, grow less with every delivery, and no run can make more
than `deliveryLimit`.
-/

namespace LossWatch.Replay

variable {r : Replay} {hand : Option Shipment} {limit : Timestamp} {s : Shipment} {h : Happening}
  {tie : Timestamp → SeqNumber → Nat}
  {n : Nat}

/-- The deliveries that may still be made. -/
def owed (hand : Option Shipment) (r : Replay) : Nat :=
  (underway hand r).length + r.feedback.lossDebt +
    (originals hand r).length * r.feedback.lossesPerArrival

theorem length_queue_le_owed (r : Replay) : r.queue.length ≤ owed none r :=
  Nat.le_trans (Nat.le_add_right _ _) (Nat.le_add_right _ _)

theorem owed_timers (hr : r.Ticking) (hand : Option Shipment) (now : Timestamp) :
    owed hand (r.perform (.timers now)) ≤ owed hand r := by
  have hspends : r.feedback.Spends 0 (r.perform (.timers now)).feedback :=
    Feedback.spends_call (c := .poll now) hr.timed.running (by simp)
  have hdebt := hspends.debt
  have hunderway : underway hand (r.perform (.timers now)) = underway hand r := rfl
  rw [owed, owed, originals, originals, hunderway, hspends.perArrival]
  omega

theorem owed_report (hr : r.Ticking) (hand : Option Shipment) (hlast : r.cadence.next < .last) :
    owed hand (r.perform (.report r.cadence.next)) ≤ owed hand r := by
  obtain ⟨ss, hss⟩ := r.ships_report r.cadence.next
  have hfew := hss.length_le
  have hspends : (r.feedback.after [.takeReceived, .takeLost]).Spends 0
      (r.perform (.report r.cadence.next)).feedback :=
    hr.feedback_report hlast ▸ hr.timed_drained.spends_requests _
  have hdebt := hspends.debt
  have htaken := r.feedback.lossDebt_takes
  have hperArrival : (r.perform (.report r.cadence.next)).feedback.lossesPerArrival =
      r.feedback.lossesPerArrival := hspends.perArrival
  rw [owed, owed, hperArrival, (hss.underway_perm hand).length_eq, List.length_append,
    (hss.originals_perm hand).length_eq]
  omega

theorem owed_perform (hr : r.Ticking) (hdue : r.Due limit h) :
    owed hand (r.perform h) ≤ owed hand r := by
  cases hdue with
  | timers => exact owed_timers hr hand _
  | report early => exact owed_report hr hand (Nat.lt_of_lt_of_le early limit.le_last)

theorem Waits.owed_le {r' : Replay} {hs : List Happening} (hr : r.Ticking)
    (hw : Waits limit r hs r') : owed hand r' ≤ owed hand r := by
  induction hw with
  | done => exact Nat.le_refl _
  | happen next _ ih =>
    exact Nat.le_trans (ih (hr.perform _)) (owed_perform hr (due_of_upcoming next))

theorem owed_handOver (hr : r.Ticking) (s : Shipment) :
    owed none (r.handOver s) < owed (some s) r := by
  have hafter : (r.handOver s).feedback = r.feedback.after (r.deliveryCalls s) :=
    r.feedback_deliver s
  obtain ⟨d, hcount, hspends⟩ : ∃ d, (originals (some s) r).length = (originals none r).length + d ∧
      r.feedback.Spends (d * r.feedback.lossesPerArrival) (r.handOver s).feedback := by
    rw [hafter, deliveryCalls]
    cases hrepair : s.isRepair with
    | true =>
      refine ⟨0, congrArg List.length (originals_of_repair hrepair), ?_⟩
      rw [Nat.zero_mul]
      cases r.trace[s.index]? with
      | none => exact .of_same (.refl _) 0
      | some p =>
        exact Feedback.spends_call hr.timed.running
          (c := .repair s.time (.onFlow p.seq p.flow p.flowSeq)) (by simp)
    | false =>
      refine ⟨1, congrArg List.length (originals_of_original hrepair), ?_⟩
      rw [Nat.one_mul]
      cases r.trace[s.index]? with
      | none => exact .of_same (.refl _) _
      | some p =>
        exact Feedback.spends_call hr.timed.running
          (c := .arrival s.time (.onFlow p.seq p.flow p.flowSeq)) (by simp)
  have hdebt := hspends.debt
  have hunderway : (underway (some s) r).length = (underway none r).length + 1 := rfl
  rw [owed, owed, underway_handOver, originals_handOver, hspends.perArrival, hunderway, hcount,
    Nat.add_mul]
  omega

/-! ### Round after round -/

structure Round where
  shipment : Shipment
  waited : List Happening

/-- The loop of deliveries with no bound on its rounds has ended, with an empty queue. -/
inductive Delivers : Replay → List Round → Replay → Prop
  | done {r : Replay} (empty : r.queue = []) : Delivers r [] r
  | round {r ready last : Replay} {s : Shipment} {queue : List Shipment} {hs : List Happening}
      {rounds : List Round} (first : r.queue = s :: queue)
      (waits : Waits s.time { r with queue } hs ready)
      (rest : Delivers (ready.handOver s) rounds last) : Delivers r (⟨s, hs⟩ :: rounds) last

theorem owed_take {queue : List Shipment} (first : r.queue = s :: queue) :
    owed (some s) { r with queue } = owed none r := by
  rw [owed, owed, underway_take first, originals_take first]

theorem owed_round {ready : Replay} {queue : List Shipment} {hs : List Happening} (hr : r.Ticking)
    (first : r.queue = s :: queue) (waits : Waits s.time { r with queue } hs ready) :
    owed none (ready.handOver s) < owed none r :=
  calc owed none (ready.handOver s)
      < owed (some s) ready := owed_handOver (waits.ticking (hr.take queue)) s
    _ ≤ owed (some s) { r with queue } := waits.owed_le (hr.take queue)
    _ = owed none r := owed_take first

/-- With as many rounds as deliveries are owed, the bound is none. -/
theorem exists_delivers (hr : r.Ticking) (hn : owed none r ≤ n) :
    ∃ rounds, Delivers r rounds (deliverAll n r) := by
  induction n generalizing r with
  | zero =>
    have hnone := length_queue_le_owed r
    exact ⟨[], .done (List.eq_nil_of_length_eq_zero (by omega))⟩
  | succ n ih =>
    rw [deliverAll, next?]
    cases hqueue : r.queue with
    | nil => exact ⟨[], .done hqueue⟩
    | cons s queue =>
      obtain ⟨hs, hwaits⟩ := waits_advance (hr.take queue) s.time
      have hless := owed_round hr hqueue hwaits
      have hready := hwaits.ticking (hr.take queue)
      obtain ⟨rounds, hrounds⟩ := ih (hready.handOver s) (by omega)
      exact ⟨⟨s, hs⟩ :: rounds, .round hqueue hwaits hrounds⟩

namespace Delivers

variable {rounds : List Round} {last : Replay}

theorem queue (hd : Delivers r rounds last) : last.queue = [] := by
  induction hd with
  | done empty => exact empty
  | round _ _ _ ih => exact ih

theorem ticking (hr : r.Ticking) (hd : Delivers r rounds last) : last.Ticking := by
  induction hd with
  | done => exact hr
  | @round r _ _ s queue _ _ _ waits _ ih => exact ih ((waits.ticking (hr.take queue)).handOver s)

theorem length_le (hr : r.Ticking) (hd : Delivers r rounds last) :
    rounds.length + owed none last ≤ owed none r := by
  induction hd with
  | done => exact Nat.le_of_eq (Nat.zero_add _)
  | @round r _ _ s queue _ rounds first waits _ ih =>
    have hless := owed_round hr first waits
    have hrest := ih ((waits.ticking (hr.take queue)).handOver s)
    rw [List.length_cons]
    omega

theorem goesOn (hr : r.Ticking) (hd : Delivers r rounds last) :
    ∀ x ∈ rounds, GoesOn x.shipment.time x.waited := by
  induction hd with
  | done => exact nofun
  | @round r _ _ s queue _ _ _ waits _ ih =>
    have hrest := ih ((waits.ticking (hr.take queue)).handOver s)
    exact List.forall_mem_cons.mpr ⟨waits.goesOn (hr.take queue), hrest⟩

theorem originals_perm (hd : Delivers r rounds last) :
    ((rounds.map (·.shipment)).filter (!·.isRepair)).Perm (originals none r) := by
  induction hd with
  | done empty =>
    rw [originals, underway, empty]
    exact .rfl
  | @round r ready _ s queue _ rounds first waits _ ih =>
    rw [originals_handOver] at ih
    rw [List.map_cons, ← originals_take first]
    refine .trans ?_ (waits.originals_perm (some s))
    cases hrepair : s.isRepair with
    | true =>
      rw [originals_of_repair hrepair, List.filter_cons_of_neg (by simp [hrepair])]
      exact ih
    | false =>
      rw [originals_of_original hrepair, List.filter_cons_of_pos (by simp [hrepair])]
      exact ih.cons s

end Delivers

/-! ### From the start on -/

theorem lossDebt_of_opened {f : Feedback} {mode : FeedbackMode} (opened : f.Opened mode) :
    f.lossDebt = 0 := by
  rw [Feedback.lossDebt, opened.pending]
  by_cases hmode : mode = .nack
  · obtain ⟨he, comparison, rtxLateAfter⟩ := opened.reports hmode
    cases he <;> rfl
  · rw [opened.silent hmode]
    rfl

theorem owed_start_eq {s : Scenario} {f : Feedback} (opened : f.Opened s.feedback)
    (packets : List TracePacket) :
    owed none (start s f packets tie) = (shipmentsOf packets).length * (f.lossesPerArrival + 1) := by
  have hqueue : (start s f packets tie).queue.length = (shipmentsOf packets).length :=
    queue_start_perm.length_eq
  have hdebt : (start s f packets tie).feedback.lossDebt = 0 := lossDebt_of_opened opened
  have hperArrival : (start s f packets tie).feedback.lossesPerArrival = f.lossesPerArrival := rfl
  have hunderway : underway none (start s f packets tie) = (start s f packets tie).queue := rfl
  rw [owed, originals_start, hunderway, hqueue, hdebt, hperArrival, Nat.mul_succ]
  omega

theorem owed_start {s : Scenario} {f : Feedback} (opened : f.Opened s.feedback)
    (packets : List TracePacket) :
    owed none (start s f packets tie) ≤ (start s f packets tie).deliveryLimit := by
  have hperArrival : f.lossesPerArrival ≤
      (f.primary.map (·.estimator.lossCeiling)).getD 0 + 32767 := by
    rw [Feedback.lossesPerArrival]
    cases f.primary with
    | none => exact Nat.zero_le _
    | some m =>
      show 32766 + max 1 m.estimator.lossCeiling ≤ m.estimator.lossCeiling + 32767
      omega
  have hshipments : (shipmentsOf packets).length ≤ packets.length := by
    rw [shipmentsOf]
    exact Nat.le_trans (List.length_filterMap_le _ _) (Nat.le_of_eq List.length_zipIdx)
  have hsize : (start s f packets tie).trace.size = packets.length := List.size_toArray
  calc owed none (start s f packets tie)
      = (shipmentsOf packets).length * (f.lossesPerArrival + 1) := owed_start_eq opened packets
    _ ≤ packets.length * ((f.primary.map (·.estimator.lossCeiling)).getD 0 + 65537) :=
        Nat.mul_le_mul hshipments (by omega)
    _ = (start s f packets tie).deliveryLimit := by
        rw [deliveryLimit, hsize]
        rfl

theorem exists_ended (hr : r.Ticking) (hlimit : owed none r ≤ r.deliveryLimit) :
    ∃ rounds last drain, Delivers r rounds last ∧ Waits last.horizon last drain r.ended := by
  obtain ⟨rounds, hdelivers⟩ := exists_delivers hr hlimit
  obtain ⟨drain, hdrains⟩ := waits_advance (hdelivers.ticking hr)
    (deliverAll r.deliveryLimit r).horizon
  exact ⟨rounds, _, drain, hdelivers, hdrains⟩

theorem originals_ended {s : Scenario} {f : Feedback} (valid : s.validate = .ok ())
    (opened : f.Opened s.feedback) (packets : List TracePacket) :
    originals none (start s f packets tie).ended = [] := by
  obtain ⟨rounds, last, drain, hdelivers, hdrains⟩ :=
    exists_ended (ticking_start valid opened packets tie) (owed_start opened packets)
  refine List.Perm.eq_nil ((hdrains.originals_perm none).trans ?_)
  rw [originals, underway, hdelivers.queue]
  exact .rfl

/-- Whatever is replayed, the loops end by themselves and give the report: in every wait polls and
reports go on in time, every packet that arrives is delivered once, no more repairs are sent than
losses can be declared for these, and the queue runs empty. -/
theorem run_ends {s : Scenario} (valid : s.validate = .ok ()) (packets : List TracePacket)
    (tie : Timestamp → SeqNumber → Nat) : ∃ f, s.opened = .ok f ∧ ∃ rounds last drain ended,
      Delivers (start s f packets tie) rounds last ∧ last.queue = [] ∧
      Waits last.horizon last drain ended ∧ s.replay packets tie = .ok ended.finish ∧
      (∀ x ∈ rounds, GoesOn x.shipment.time x.waited) ∧ GoesOn last.horizon drain ∧
      ((rounds.map (·.shipment)).filter (!·.isRepair)).Perm (shipmentsOf packets) ∧
      (rounds.map (·.shipment)).countP (·.isRepair) + ended.queue.length ≤
        (shipmentsOf packets).length * f.lossesPerArrival := by
  obtain ⟨f, hf, opened, hreplay⟩ := Scenario.exists_opened valid
  have hr := ticking_start valid opened packets tie
  obtain ⟨rounds, last, drain, hdelivers, hdrains⟩ := exists_ended hr (owed_start opened packets)
  have hlast := hdelivers.ticking hr
  have horiginals : ((rounds.map (·.shipment)).filter (!·.isRepair)).Perm
      (shipmentsOf packets) := by
    refine hdelivers.originals_perm.trans ?_
    rw [originals_start]
    exact queue_start_perm
  have hreport : s.replay packets tie = .ok (start s f packets tie).ended.finish := by
    rw [hreplay, run_eq]
  refine ⟨f, hf, rounds, last, drain, _, hdelivers, hdelivers.queue, hdrains, hreport,
    hdelivers.goesOn hr, hdrains.goesOn hlast, horiginals, ?_⟩
  have hrounds := hdelivers.length_le hr
  have hdrained : owed none (start s f packets tie).ended ≤ owed none last := hdrains.owed_le hlast
  have hleft := length_queue_le_owed (start s f packets tie).ended
  have hsplit := (rounds.map (·.shipment)).length_eq_length_filter_add (·.isRepair)
  rw [List.length_map, horiginals.length_eq] at hsplit
  rw [owed_start_eq opened, Nat.mul_succ] at hrounds
  rw [List.countP_eq_length_filter]
  omega

theorem run_ends_of_sample :
    let packets : List TracePacket :=
      [⟨.ofNat 0, 0, .ofNat 0, .zero, .ofMillis 20, some (.ofMillis 25)⟩,
        ⟨.ofNat 1, 1, .ofNat 0, .ofMillis 10, .ofMillis 55, none⟩,
        ⟨.ofNat 2, 0, .ofNat 1, .ofMillis 20, .ofMillis 40, some (.ofMillis 40)⟩]
    Scenario.sample.validate = .ok () ∧ ∃ f, Scenario.sample.opened = .ok f ∧
      ∃ rounds last drain ended, Delivers (start Scenario.sample f packets) rounds last ∧
        last.queue = [] ∧ Waits last.horizon last drain ended ∧
        Scenario.sample.replay packets = .ok ended.finish ∧
        ((rounds.map (·.shipment)).filter (!·.isRepair)).Perm (shipmentsOf packets) := by
  intro packets
  have valid : Scenario.sample.validate = .ok () := Except.eq_ok_of_toOption (by decide +kernel)
  obtain ⟨f, hf, rounds, last, drain, ended, hdelivers, hqueue, hdrains, hreplay, -, -, hall, -⟩ :=
    run_ends valid packets fun _ _ => 0
  exact ⟨valid, f, hf, rounds, last, drain, ended, hdelivers, hqueue, hdrains, hreplay, hall⟩

end LossWatch.Replay
