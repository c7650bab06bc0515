import LossWatch.Proofs.Feedback.Reconciliation
import LossWatch.Replay

/-!
A replay as a session. All it does to the feedback are calls: an arrival or a repair for each packet it
delivers, a poll when timers are due, and with every report both lists drained and a request for each
lost number that was sent. The trace and its places stay, and so does the rhythm of the reports.
-/

namespace LossWatch

theorem Cadence.interval_fire (c : Cadence) (now : Timestamp) :
    (c.fire now).2.interval = c.interval := by
  rw [Cadence.fire]
  split
  · dsimp only
    split <;> rfl
  · rfl

namespace Replay

variable {r r' r'' : Replay} {s : Shipment} {now limit : Timestamp}

/-! ### The calls -/

def isSent (r : Replay) (seq : SeqNumber) : Bool := (r.place? seq).isSome

def requestCalls (r : Replay) (now : Timestamp) (seqs : List SeqNumber) : List FeedbackCall :=
  Feedback.requestsFor now (r.tie now) (seqs.filter r.isSent)

def happeningCalls (r : Replay) : Happening → List FeedbackCall
  | .timers now => [.poll now]
  | .report now =>
    if (r.cadence.fire now).1 then
      [.takeReceived, .takeLost] ++ r.requestCalls now r.feedback.pending.lost
    else []

def deliveryCalls (r : Replay) (s : Shipment) : List FeedbackCall :=
  match r.trace[s.index]? with
  | none => []
  | some packet =>
    let arrival := Arrival.onFlow packet.seq packet.flow packet.flowSeq
    [if s.isRepair then .repair s.time arrival else .arrival s.time arrival]

def callsBefore (limit : Timestamp) : Nat → Replay → List FeedbackCall
  | 0, _ => []
  | n + 1, r =>
    match r.upcoming limit with
    | none => []
    | some happening =>
      r.happeningCalls happening ++ callsBefore limit n (r.perform happening)

def advanceCalls (r : Replay) (limit : Timestamp) : List FeedbackCall :=
  callsBefore limit (r.distance limit) r

def nextCalls (r : Replay) : List FeedbackCall :=
  match r.queue with
  | [] => []
  | s :: queue =>
    let r := { r with queue }
    r.advanceCalls s.time ++ (r.advance s.time).deliveryCalls s

def deliverAllCalls : Nat → Replay → List FeedbackCall
  | 0, _ => []
  | n + 1, r =>
    match r.next? with
    | none => []
    | some (_, r') => r.nextCalls ++ deliverAllCalls n r'

/-- All calls of a run, up to the end of its last drain. -/
def calls (r : Replay) : List FeedbackCall :=
  let last := deliverAll r.deliveryLimit r
  deliverAllCalls r.deliveryLimit r ++ last.advanceCalls last.horizon

/-! ### What stays -/

structure SameTrace (r r' : Replay) : Prop where
  trace : r'.trace = r.trace
  places : r'.places = r.places
  rtxRtt : r'.rtxRtt = r.rtxRtt
  interval : r'.cadence.interval = r.cadence.interval
  tie : r'.tie = r.tie

namespace SameTrace

theorem refl (r : Replay) : r.SameTrace r := ⟨rfl, rfl, rfl, rfl, rfl⟩

theorem trans (h : r.SameTrace r') (h' : r'.SameTrace r'') : r.SameTrace r'' :=
  ⟨h'.trace.trans h.trace, h'.places.trans h.places, h'.rtxRtt.trans h.rtxRtt,
    h'.interval.trans h.interval, h'.tie.trans h.tie⟩

theorem place? (h : r.SameTrace r') : r'.place? = r.place? := by
  funext seq
  rw [Replay.place?, Replay.place?, h.places]

theorem isSent (h : r.SameTrace r') : r'.isSent = r.isSent := by
  funext seq
  rw [Replay.isSent, Replay.isSent, h.place?]

end SameTrace

theorem exists_nack_eq (now : Timestamp) (r : Replay) (seq : SeqNumber) :
    ∃ feedback queue report, r.nack now seq = { r with feedback, queue, report } := by
  rw [nack]
  cases r.place? seq with
  | none => exact ⟨_, _, _, rfl⟩
  | some index =>
    dsimp only
    split <;> exact ⟨_, _, _, rfl⟩

theorem exists_foldl_nack_eq (now : Timestamp) (seqs : List SeqNumber) (r : Replay) :
    ∃ feedback queue report,
      seqs.foldl (nack now) r = { r with feedback, queue, report } := by
  induction seqs generalizing r with
  | nil => exact ⟨_, _, _, rfl⟩
  | cons seq seqs ih =>
    obtain ⟨feedback, queue, report, hfirst⟩ := exists_nack_eq now r seq
    obtain ⟨feedback', queue', report', hrest⟩ := ih (r.nack now seq)
    exact ⟨feedback', queue', report', by rw [List.foldl_cons, hrest, hfirst]⟩

theorem sameTrace_nack (now : Timestamp) (r : Replay) (seq : SeqNumber) :
    r.SameTrace (r.nack now seq) := by
  obtain ⟨feedback, queue, report, h⟩ := exists_nack_eq now r seq
  exact h ▸ ⟨rfl, rfl, rfl, rfl, rfl⟩

theorem sameTrace_foldl_nack (now : Timestamp) (seqs : List SeqNumber) (r : Replay) :
    r.SameTrace (seqs.foldl (nack now) r) := by
  obtain ⟨feedback, queue, report, h⟩ := exists_foldl_nack_eq now seqs r
  exact h ▸ ⟨rfl, rfl, rfl, rfl, rfl⟩

def drained (r : Replay) (now : Timestamp) : Replay :=
  { r with
    cadence := (r.cadence.fire now).2
    feedback := r.feedback.after [.takeReceived, .takeLost] }.tally fun t =>
      { t with reports := t.reports + 1, acksSent := t.acksSent + r.feedback.pending.received.size }

theorem sendReport_of_due (hdue : (r.cadence.fire now).1 = true) :
    r.sendReport now = r.feedback.pending.lost.foldl (nack now) (r.drained now) := by
  rw [sendReport]
  generalize hfire : r.cadence.fire now = fired at *
  obtain ⟨fires, cadence⟩ := fired
  cases hdue
  rw [drained, hfire]
  rfl

theorem sendReport_of_not_due (hdue : (r.cadence.fire now).1 = false) : r.sendReport now = r := by
  rw [sendReport]
  generalize r.cadence.fire now = fired at *
  obtain ⟨fires, cadence⟩ := fired
  cases hdue
  rfl

theorem cadence_sendReport (r : Replay) (now : Timestamp) :
    (r.sendReport now).cadence = (r.cadence.fire now).2 := by
  cases hdue : (r.cadence.fire now).1 with
  | true =>
    obtain ⟨feedback, queue, report, h⟩ :=
      exists_foldl_nack_eq now r.feedback.pending.lost (r.drained now)
    rw [sendReport_of_due hdue, h]
    rfl
  | false =>
    rw [sendReport_of_not_due hdue]
    rw [Cadence.fire] at hdue ⊢
    split at hdue
    · cases hdue
    · rename_i hearly
      rw [if_neg hearly]

theorem sameTrace_drained (r : Replay) (now : Timestamp) : r.SameTrace (r.drained now) :=
  ⟨rfl, rfl, rfl, r.cadence.interval_fire now, rfl⟩

theorem sameTrace_perform (r : Replay) (h : Happening) : r.SameTrace (r.perform h) := by
  cases h with
  | timers now => exact ⟨rfl, rfl, rfl, rfl, rfl⟩
  | report now =>
    cases hdue : (r.cadence.fire now).1 with
    | true =>
      rw [perform, sendReport_of_due hdue]
      exact (r.sameTrace_drained now).trans (sameTrace_foldl_nack now _ _)
    | false =>
      rw [perform, sendReport_of_not_due hdue]
      exact .refl r

theorem exists_deliver_eq (r : Replay) (s : Shipment) :
    ∃ feedback report declared, r.deliver s = { r with feedback, report, declared } := by
  rw [deliver]
  split
  · exact ⟨_, _, _, rfl⟩
  · dsimp only
    split
    · split
      · split <;> exact ⟨_, _, _, rfl⟩
      · exact ⟨_, _, _, rfl⟩
    · split <;> exact ⟨_, _, _, rfl⟩

theorem sameTrace_deliver (r : Replay) (s : Shipment) : r.SameTrace (r.deliver s) := by
  obtain ⟨feedback, report, declared, h⟩ := r.exists_deliver_eq s
  exact h ▸ ⟨rfl, rfl, rfl, rfl, rfl⟩

/-! ### What the calls do -/

theorem feedback_nack (now : Timestamp) (r : Replay) (seq : SeqNumber) :
    (r.nack now seq).feedback = r.feedback.after (r.requestCalls now [seq]) := by
  cases hplace : r.place? seq with
  | none => simp [nack, requestCalls, Feedback.requestsFor, isSent, hplace, tally, Feedback.after]
  | some index =>
    have hrequest : r.requestCalls now [seq] = [.request now seq none (r.tie now seq)] := by
      simp [requestCalls, Feedback.requestsFor, isSent, hplace]
    rw [hrequest]
    cases hreply : r.feedback.onRequest now seq none (r.tie now seq) <;>
      simp [nack, hplace, tally, hreply, ship, Feedback.after, Feedback.call]

theorem feedback_foldl_nack (now : Timestamp) (seqs : List SeqNumber) (r : Replay) :
    (seqs.foldl (nack now) r).feedback = r.feedback.after (r.requestCalls now seqs) := by
  induction seqs generalizing r with
  | nil => rfl
  | cons seq seqs ih =>
    have hsplit : r.requestCalls now (seq :: seqs) =
        r.requestCalls now [seq] ++ r.requestCalls now seqs := by
      simp only [requestCalls, Feedback.requestsFor]
      rw [← List.map_append, ← List.filter_append]
      rfl
    have hrest : (r.nack now seq).requestCalls now seqs = r.requestCalls now seqs := by
      rw [requestCalls, requestCalls, (sameTrace_nack now r seq).isSent,
        (sameTrace_nack now r seq).tie]
    rw [List.foldl_cons, ih, feedback_nack, hsplit, Feedback.after_append, hrest]

theorem feedback_perform (r : Replay) (h : Happening) :
    (r.perform h).feedback = r.feedback.after (r.happeningCalls h) := by
  cases h with
  | timers now => rfl
  | report now =>
    cases hdue : (r.cadence.fire now).1 with
    | true =>
      rw [perform, sendReport_of_due hdue, feedback_foldl_nack, happeningCalls, if_pos hdue,
        Feedback.after_append]
      rfl
    | false =>
      rw [perform, sendReport_of_not_due hdue, happeningCalls, hdue]
      rfl

theorem feedback_deliver (r : Replay) (s : Shipment) :
    (r.deliver s).feedback = r.feedback.after (r.deliveryCalls s) := by
  rw [deliver, deliveryCalls]
  cases r.trace[s.index]? with
  | none => rfl
  | some packet =>
    cases hrepair : s.isRepair with
    | true =>
      cases hreply : r.feedback.onRepair s.time (.onFlow packet.seq packet.flow packet.flowSeq) with
      | error e => simp [hreply, Feedback.after, Feedback.call]
      | ok reply =>
        simp only [hreply, if_true, Feedback.after, List.foldl_cons, List.foldl_nil, Feedback.call]
        cases reply.value <;> rfl
    | false =>
      cases hreply : r.feedback.onArrival s.time (.onFlow packet.seq packet.flow packet.flowSeq) <;>
        simp [tally, hreply, record, Feedback.after, Feedback.call]

end Replay
end LossWatch
