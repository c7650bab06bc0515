import LossWatch.Proofs.Feedback.Service
import LossWatch.Proofs.Replay.Opening
import LossWatch.Proofs.Replay.Queue

/-!
The counters of a run beside those of the feedback. They are filled in by deliveries, timers and reports
while the feedback keeps its own accounts, and agree with them after every step.
-/

namespace LossWatch

structure Report.Unjudged (t : Report) : Prop where
  trueLosses : t.trueLosses = 0
  detectedLosses : t.detectedLosses = 0
  missedLosses : t.missedLosses = 0
  falsePositives : t.falsePositives = 0

namespace Replay

variable {r r' r₀ : Replay} {now : Timestamp} {s : Shipment} {p : TracePacket}
  {tie : Timestamp → SeqNumber → Nat}
  {hand : Option Shipment} {calls : List FeedbackCall}

/-! ### What a step counts -/

theorem report_nack (now : Timestamp) (r : Replay) (seq : SeqNumber) :
    ∃ sent stray, sent + stray = 1 ∧ (r.nack now seq).report = { r.report with
      nacksSent := r.report.nacksSent + sent, strayNacks := r.report.strayNacks + stray } := by
  rw [nack]
  cases r.place? seq with
  | none => exact ⟨0, 1, rfl, rfl⟩
  | some index =>
    dsimp only
    split <;> exact ⟨1, 0, rfl, rfl⟩

theorem report_foldl_nack (now : Timestamp) (seqs : List SeqNumber) (r : Replay) :
    ∃ sent stray, sent + stray = seqs.length ∧ (seqs.foldl (nack now) r).report = { r.report with
      nacksSent := r.report.nacksSent + sent, strayNacks := r.report.strayNacks + stray } := by
  induction seqs generalizing r with
  | nil => exact ⟨0, 0, rfl, rfl⟩
  | cons seq seqs ih =>
    obtain ⟨sent, stray, hone, hfirst⟩ := report_nack now r seq
    obtain ⟨sent', stray', hall, hrest⟩ := ih (r.nack now seq)
    refine ⟨sent + sent', stray + stray', by rw [List.length_cons]; omega, hrest.trans ?_⟩
    rw [hfirst]
    simp only [Nat.add_assoc]

theorem declared_foldl_nack (now : Timestamp) (seqs : List SeqNumber) (r : Replay) :
    (seqs.foldl (nack now) r).declared = r.declared := by
  obtain ⟨feedback, queue, report, h⟩ := exists_foldl_nack_eq now seqs r
  rw [h]

theorem mem_record (now : Timestamp) (r : Replay) (es : List LossEvent) (i : Nat) :
    i ∈ (r.record now es).declared ↔
      i ∈ r.declared ∨ ∃ e ∈ es, e.isLost ∧ r.place? e.seq = some i := by
  rw [record]
  dsimp only
  generalize r.declared = declared
  induction es generalizing declared with
  | nil => simp
  | cons e es ih =>
    cases hlost : e.isLost with
    | false => simp [hlost, ih]
    | true =>
      rw [List.filter_cons_of_pos hlost, List.foldl_cons, ih]
      cases hplace : r.place? e.seq with
      | none => simp [hplace]
      | some index =>
        simp only [Std.HashMap.mem_insertIfNew, List.mem_cons, exists_eq_or_imp, hlost, hplace,
          true_and, Option.some.injEq, beq_iff_eq]
        rw [or_assoc, or_left_comm]

structure Serves (r : Replay) (s : Shipment) (d n : Nat) : Prop where
  originals : (originals (some s) r).length = (originals none r).length + d
  report : (r.deliver s).report = { r.report with
    delivered := r.report.delivered + d, repaired := r.report.repaired + n }
  mode : (r.deliver s).feedback.mode = r.feedback.mode
  packets : (r.deliver s).feedback.stats.packets = r.feedback.stats.packets + d
  recovered : (r.deliver s).feedback.stats.rtxRecovered = r.feedback.stats.rtxRecovered + n
  received : r.feedback.mode = .ack → (r.deliver s).feedback.pending.received.size =
    r.feedback.pending.received.size + d
  accounts : ∀ {drained}, r.feedback.Accounts drained 0 0 0 →
    (r.deliver s).feedback.Accounts drained 0 0 0
  declared : ∀ i, i ∈ (r.deliver s).declared ↔ i ∈ r.declared ∨
    ∃ e ∈ r.feedback.hears (r.deliveryCalls s), e.isLost ∧ r.place? e.seq = some i

theorem serves_original (hr : r.Ticking) (hp : r.trace[s.index]? = some p)
    (horiginal : s.isRepair = false) : r.Serves s 1 0 := by
  have hcall : r.deliveryCalls s = [.arrival s.time (.onFlow p.seq p.flow p.flowSeq)] := by
    simp [deliveryCalls, hp, horiginal]
  have hfeedback := r.feedback_deliver s
  have hreceived := r.feedback.received_arrival hr.timed.running s.time
    (.onFlow p.seq p.flow p.flowSeq)
  have hfilled : (r.deliver s).report = { r.report with delivered := r.report.delivered + 1 } ∧
      (r.deliver s).declared = (r.record s.time (r.feedback.heard
        (.arrival s.time (.onFlow p.seq p.flow p.flowSeq)))).declared := by
    simp only [deliver, hp, horiginal, Feedback.heard, tally, Bool.false_eq_true, if_false]
    cases r.feedback.onArrival s.time (.onFlow p.seq p.flow p.flowSeq) <;> exact ⟨rfl, rfl⟩
  rw [hcall] at hfeedback
  refine ⟨congrArg List.length (originals_of_original horiginal), hfilled.1, ?_, ?_, ?_, ?_, ?_,
    fun i => ?_⟩
  · exact hfeedback ▸ hreceived.mode
  · exact hfeedback ▸ hreceived.packets
  · exact hfeedback ▸ hreceived.recovered
  · exact hfeedback ▸ hreceived.received
  · exact fun h => hfeedback ▸ h.onArrival _ _
  · rw [hcall, hfilled.2, mem_record, Feedback.hears, Feedback.hears, List.append_nil]

theorem serves_unknown (hp : r.trace[s.index]? = none) (hrepair : s.isRepair = true) :
    r.Serves s 0 0 := by
  have hcall : r.deliveryCalls s = [] := by simp [deliveryCalls, hp]
  have hidle : r.deliver s = r := by simp [deliver, hp]
  have hsame := congrArg Replay.feedback hidle
  refine ⟨congrArg List.length (originals_of_repair hrepair), congrArg Replay.report hidle,
    congrArg Feedback.mode hsame,
    congrArg (·.stats.packets) hsame, congrArg (·.stats.rtxRecovered) hsame,
    fun _ => congrArg (·.pending.received.size) hsame, fun h => hsame ▸ h, fun i => ?_⟩
  rw [hidle, hcall]
  simp [Feedback.hears]

/-- Nothing was due before the repair, so it reveals no losses. -/
theorem hears_repair (idle : r.Idle now) (a : Arrival) :
    r.feedback.hears [.repair now a] = [] := by
  rw [Feedback.hears, Feedback.hears, List.append_nil, Feedback.heard]
  cases r.feedback.onRepair now a with
  | error e => rfl
  | ok reply =>
    cases hm : r.feedback.primary with
    | none => rfl
    | some m =>
      refine m.events_onRepair_of_idle (fun d hd => ?_) a
      obtain ⟨x, hx, hle⟩ := Feedback.nextDeadline_le hm hd
      exact Nat.le_trans (idle.timers x hx) hle

theorem serves_repair (hr : r.Ticking) (idle : r.Idle s.time) (hp : r.trace[s.index]? = some p)
    (hrepair : s.isRepair = true) :
    r.Serves s 0 (r.feedback.recoveries s.time (.onFlow p.seq p.flow p.flowSeq)) := by
  have hcall : r.deliveryCalls s = [.repair s.time (.onFlow p.seq p.flow p.flowSeq)] := by
    simp [deliveryCalls, hp, hrepair]
  have hfeedback := r.feedback_deliver s
  have hrepaired := r.feedback.repaired_repair hr.timed.running s.time
    (.onFlow p.seq p.flow p.flowSeq)
  generalize hn : r.feedback.recoveries s.time (.onFlow p.seq p.flow p.flowSeq) = n at *
  have hfilled : (r.deliver s).report = { r.report with repaired := r.report.repaired + n } ∧
      (r.deliver s).declared = r.declared := by
    rw [← hn]
    simp only [deliver, hp, hrepair, Feedback.recoveries]
    cases r.feedback.onRepair s.time (.onFlow p.seq p.flow p.flowSeq) with
    | error e => exact ⟨rfl, rfl⟩
    | ok reply =>
      simp only [if_true, tally]
      cases reply.value <;> exact ⟨rfl, rfl⟩
  rw [hcall] at hfeedback
  refine ⟨congrArg List.length (originals_of_repair hrepair), hfilled.1, ?_, ?_, ?_, fun _ => ?_,
    ?_, fun i => ?_⟩
  · exact hfeedback ▸ hrepaired.mode
  · exact hfeedback ▸ hrepaired.packets
  · exact hfeedback ▸ hrepaired.recovered
  · exact congrArg Array.size (hfeedback ▸ hrepaired.received)
  · exact fun h => hfeedback ▸ h.onRepair _ _
  · rw [hcall, hears_repair idle, hfilled.2]
    simp

/-! ### What agrees after every step -/

/-- The counters of a run that started with `total` packets to be delivered. -/
structure Tallied (r₀ : Replay) (total : Nat) (hand : Option Shipment) (calls : List FeedbackCall)
    (r : Replay) : Prop where
  mode : r.feedback.mode = r₀.feedback.mode
  delivered : r.report.delivered + (originals hand r).length = total
  packets : r.feedback.stats.packets = r.report.delivered
  repaired : r.feedback.stats.rtxRecovered = r.report.repaired
  accounts : r.feedback.Accounts (r.report.nacksSent + r.report.strayNacks) 0 0 0
  acks : r.feedback.mode = .ack →
    r.report.acksSent + r.feedback.pending.received.size = r.report.delivered
  unjudged : r.report.Unjudged
  declared : ∀ i, i ∈ r.declared ↔
    ∃ e ∈ r₀.feedback.hears calls, e.isLost ∧ r.place? e.seq = some i

namespace Tallied

variable {total : Nat}

theorem declared_append (h : Tallied r₀ total hand calls r)
    (hcalls : r.feedback = r₀.feedback.after calls) (hsame : r.SameTrace r')
    {new : List FeedbackCall} (hadded : ∀ i, i ∈ r'.declared ↔ i ∈ r.declared ∨
      ∃ e ∈ r.feedback.hears new, e.isLost ∧ r.place? e.seq = some i) (i : Nat) :
    i ∈ r'.declared ↔
      ∃ e ∈ r₀.feedback.hears (calls ++ new), e.isLost ∧ r'.place? e.seq = some i := by
  simp only [hadded, h.declared, Feedback.hears_append, ← hcalls, hsame.place?, List.mem_append,
    or_and_right, exists_or]

theorem timers (h : Tallied r₀ total hand calls r)
    (hcalls : r.feedback = r₀.feedback.after calls) (d : Timestamp) :
    Tallied r₀ total hand (calls ++ r.happeningCalls (.timers d)) (r.perform (.timers d)) := by
  have hservice : r.feedback.SameService (r.perform (.timers d)).feedback :=
    r.feedback.sameService_poll d
  have hheard : r.feedback.hears (r.happeningCalls (.timers d)) = r.feedback.heard (.poll d) :=
    List.append_nil _
  refine ⟨hservice.mode.trans h.mode, h.delivered, hservice.packets.trans h.packets,
    hservice.recovered.trans h.repaired, h.accounts.pollTimers d, fun hack => ?_, h.unjudged,
    h.declared_append hcalls (r.sameTrace_perform (.timers d)) fun i => ?_⟩
  · rw [hservice.mode] at hack
    rw [hservice.received]
    exact h.acks hack
  · rw [hheard]
    exact mem_record d { r with feedback := (r.feedback.pollTimers d).feedback } _ i

theorem report (h : Tallied r₀ total hand calls r)
    (hcalls : r.feedback = r₀.feedback.after calls) (hr : r.Ticking)
    (hlast : r.cadence.next < .last) :
    Tallied r₀ total hand (calls ++ r.happeningCalls (.report r.cadence.next))
      (r.perform (.report r.cadence.next)) := by
  have hsame := r.sameTrace_perform (.report r.cadence.next)
  have horiginals := (r.originals_perform (.report r.cadence.next) hand).length_eq
  have hfeedback := hr.feedback_report hlast
  have hservice : (r.feedback.after [.takeReceived, .takeLost]).SameService
      (r.perform (.report r.cadence.next)).feedback :=
    hfeedback ▸ hr.timed_drained.sameService_requests _
  have hpending := hr.pending_report hlast
  have hdue : (r.cadence.fire r.cadence.next).1 = true := by rw [hr.fire_next hlast]
  have hnacked : r.perform (.report r.cadence.next) =
      r.feedback.pending.lost.foldl (nack r.cadence.next) (r.drained r.cadence.next) :=
    sendReport_of_due hdue
  obtain ⟨sent, stray, hall, hreport⟩ :=
    report_foldl_nack r.cadence.next r.feedback.pending.lost (r.drained r.cadence.next)
  have hdeclared := declared_foldl_nack r.cadence.next r.feedback.pending.lost
    (r.drained r.cadence.next)
  rw [← hnacked] at hreport hdeclared
  have haccounts : (r.feedback.after [.takeReceived, .takeLost]).Accounts
      (r.report.nacksSent + r.report.strayNacks + (0 + r.feedback.pending.lost.length)) 0 0 0 :=
    h.accounts.after (by simp)
  have hrequested : (r.perform (.report r.cadence.next)).feedback.Accounts
      (r.report.nacksSent + r.report.strayNacks + (0 + r.feedback.pending.lost.length)) 0 0 0 :=
    hfeedback ▸ haccounts.requests _
  have hheard : r.feedback.hears (r.happeningCalls (.report r.cadence.next)) = [] :=
    Feedback.hears_eq_nil fun c hc => (quiet_happeningCalls c hc).1
  generalize r.perform (.report r.cadence.next) = r' at *
  refine ⟨hservice.mode.trans h.mode, ?_, ?_, ?_, ?_, ?_, ?_,
    h.declared_append hcalls hsame fun i => ?_⟩
  · rw [hreport, horiginals]
    exact h.delivered
  · rw [hservice.packets, hreport]
    exact h.packets
  · rw [hservice.recovered, hreport]
    exact h.repaired
  · have hsum : r'.report.nacksSent + r'.report.strayNacks =
        r.report.nacksSent + r.report.strayNacks + (0 + r.feedback.pending.lost.length) := by
      rw [hreport]
      show r.report.nacksSent + sent + (r.report.strayNacks + stray) = _
      omega
    rw [hsum]
    exact hrequested
  · rw [hservice.mode, hpending, hreport]
    exact h.acks
  · rw [hreport]
    exact ⟨h.unjudged.1, h.unjudged.2, h.unjudged.3, h.unjudged.4⟩
  · rw [hdeclared, hheard]
    simp [drained, tally]

theorem handOver (h : Tallied r₀ total (some s) calls r)
    (hcalls : r.feedback = r₀.feedback.after calls) (hr : r.Ticking) (known : Known (some s) r)
    (idle : r.Idle s.time) :
    Tallied r₀ total none (calls ++ r.deliveryCalls s) (r.handOver s) := by
  have hserves : ∃ d n, r.Serves s d n := by
    cases hp : r.trace[s.index]? with
    | some p =>
      cases hrepair : s.isRepair with
      | false => exact ⟨_, _, serves_original hr hp hrepair⟩
      | true => exact ⟨_, _, serves_repair hr idle hp hrepair⟩
    | none =>
      refine ⟨_, _, serves_unknown hp ?_⟩
      cases hrepair : s.isRepair with
      | true => rfl
      | false =>
        obtain ⟨p, hknown⟩ := known s (mem_originals.mpr ⟨List.mem_cons_self, hrepair⟩)
        simp [hp] at hknown
  obtain ⟨d, n, hserves⟩ := hserves
  have hsame : r.SameTrace (r.handOver s) := (r.sameTrace_deliver s).trans ⟨rfl, rfl, rfl, rfl, rfl⟩
  have hfilled : (r.handOver s).report = _ := hserves.report
  have hcount := hserves.originals
  have hdelivered := h.delivered
  refine ⟨hserves.mode.trans h.mode, ?_, ?_, ?_, ?_, ?_, ?_,
    h.declared_append hcalls hsame hserves.declared⟩
  · rw [originals_handOver, hfilled]
    show r.report.delivered + d + _ = total
    omega
  · rw [hfilled]
    exact hserves.packets.trans (congrArg (· + d) h.packets)
  · rw [hfilled]
    exact hserves.recovered.trans (congrArg (· + n) h.repaired)
  · rw [hfilled]
    exact hserves.accounts h.accounts
  · intro hack
    have hmode : r.feedback.mode = .ack := hserves.mode.symm.trans hack
    have hreceived : (r.handOver s).feedback.pending.received.size = _ := hserves.received hmode
    rw [hreceived, hfilled, ← Nat.add_assoc]
    exact congrArg (· + d) (h.acks hmode)
  · rw [hfilled]
    exact ⟨h.unjudged.1, h.unjudged.2, h.unjudged.3, h.unjudged.4⟩

end Tallied

theorem Reached.tallied {total : Nat} (h : Reached r₀ hand calls r) (hr : r₀.Ticking)
    (known : Known none r₀) (hstart : Tallied r₀ total none [] r₀) :
    Tallied r₀ total hand calls r := by
  induction h with
  | start => exact hstart
  | happen prior due ih =>
    cases due with
    | timers => exact ih.timers prior.feedback _
    | report early =>
      exact ih.report prior.feedback (prior.ticking hr)
        (Nat.lt_of_lt_of_le early (Timestamp.le_last _))
  | take _ first ih =>
    exact ⟨ih.mode, originals_take first ▸ ih.delivered, ih.packets, ih.repaired, ih.accounts,
      ih.acks, ih.unjudged, ih.declared⟩
  | deliver prior idle ih =>
    exact ih.handOver prior.feedback (prior.ticking hr) (prior.known known) idle

theorem length_originals_start {s : Scenario} {f : Feedback} {packets : List TracePacket} :
    (originals none (start s f packets tie)).length = packets.countP (·.arrival.isSome) := by
  rw [← List.length_map (·.time), times_originals_start.length_eq,
    List.length_filterMap_eq_countP]

theorem tallied_start {s : Scenario} {f : Feedback} (opened : f.Opened s.feedback)
    (packets : List TracePacket) :
    Tallied (start s f packets tie) (packets.countP (·.arrival.isSome)) none []
      (start s f packets tie) := by
  have hreceived : f.pending.received.size = 0 := by rw [opened.pending]; rfl
  refine ⟨rfl, (Nat.zero_add _).trans length_originals_start, ?_, ?_, opened.accounts,
    fun _ => (Nat.zero_add _).trans hreceived, ⟨rfl, rfl, rfl, rfl⟩, fun i => ?_⟩
  · exact congrArg FeedbackStats.packets opened.stats
  · exact congrArg FeedbackStats.rtxRecovered opened.stats
  · simp [start, Feedback.hears]

end Replay
end LossWatch
