import LossWatch.Proofs.Feedback.Balance
import LossWatch.Proofs.Feedback.Clocks

/-!
What a feedback counts of the packets it is handed, whatever its estimators make of them: arrivals, the
numbers to acknowledge, and repairs that answer a request.
-/

namespace LossWatch.Feedback

variable {f f' : Feedback} {now : Timestamp} {a : Arrival}

/-- The feedback less all that its estimators and their events write. -/
def service (f : Feedback) : Feedback :=
  { f.unwatched with
    primary := none
    pending := { f.pending with lost := [] }
    stats := { f.stats.unwatched with
      lossesReported := 0, falsePositives := 0, withdrawn := 0, alreadySent := 0 } }

theorem service_handleEvent (f : Feedback) (e : LossEvent) :
    (f.handleEvent e).service = f.service := by
  cases e with
  | lost seq position =>
    by_cases hmem : seq ∈ f.pending.lost
    · simp only [handleEvent, PendingLists.addLost_of_mem hmem]
    · simp only [handleEvent, PendingLists.addLost_of_not_mem hmem]
      rfl
  | falsePositive seq position =>
    by_cases hmem : seq ∈ f.pending.lost
    · simp only [handleEvent, PendingLists.removeLost_of_mem hmem, count]
      rfl
    · simp only [handleEvent, PendingLists.removeLost_of_not_mem hmem, count]
      rfl

theorem service_handleEvents (f : Feedback) (es : List LossEvent) :
    (f.handleEvents es).service = f.service := by
  induction es generalizing f with
  | nil => rfl
  | cons e es ih => exact (ih _).trans (f.service_handleEvent e)

theorem service_runPrimary (f : Feedback) (act : Monitor → Turn) :
    (f.runPrimary act).feedback.service = f.service := by
  rw [runPrimary]
  cases f.primary with
  | none => rfl
  | some m => exact service_handleEvents _ _

theorem service_congr (h : f.unwatched = f'.unwatched) : f.service = f'.service :=
  (congrArg service h :)

theorem service_runBoth (f : Feedback) (act : Monitor → Turn) :
    (f.runBoth act).feedback.service = f.service :=
  (service_congr ((f.runPrimary act).feedback.unwatched_runComparison act)).trans
    (f.service_runPrimary act)

structure SameService (f f' : Feedback) : Prop where
  mode : f'.mode = f.mode
  packets : f'.stats.packets = f.stats.packets
  recovered : f'.stats.rtxRecovered = f.stats.rtxRecovered
  received : f'.pending.received = f.pending.received

theorem SameService.refl (f : Feedback) : f.SameService f := ⟨rfl, rfl, rfl, rfl⟩

theorem SameService.of_service (h : f'.service = f.service) : f.SameService f' where
  mode := (congrArg Feedback.mode h :)
  packets := (congrArg (·.stats.packets) h :)
  recovered := (congrArg (·.stats.rtxRecovered) h :)
  received := (congrArg (·.pending.received) h :)

theorem sameService_runBoth (f : Feedback) (act : Monitor → Turn) :
    f.SameService (f.runBoth act).feedback :=
  .of_service (f.service_runBoth act)

theorem sameService_poll (f : Feedback) (now : Timestamp) : f.SameService (f.call (.poll now)) := by
  rw [call, pollTimers]
  split
  · exact .refl f
  · exact f.sameService_runBoth _

theorem Timed.sameService_requests {seqs : List SeqNumber} (h : f.Timed)
    (tie : SeqNumber → Nat) : f.SameService (f.after (requestsFor now tie seqs)) := by
  obtain ⟨requests, rtxRequested, hafter⟩ := exists_requests_eq h.running now tie seqs
  exact hafter ▸ ⟨rfl, rfl, rfl, rfl⟩

theorem Accounts.requests {drained collected : Nat} {seqs : List SeqNumber}
    (h : f.Accounts drained collected 0 0) (tie : SeqNumber → Nat) :
    (f.after (requestsFor now tie seqs)).Accounts drained collected 0 0 := by
  induction seqs generalizing f with
  | nil => exact h
  | cons seq seqs ih => exact ih (h.onRequest now seq none (tie seq))

/-- An arrival counts, and with acknowledgements it is queued. -/
structure Received (f f' : Feedback) : Prop where
  mode : f'.mode = f.mode
  packets : f'.stats.packets = f.stats.packets + 1
  recovered : f'.stats.rtxRecovered = f.stats.rtxRecovered
  received : f.mode = .ack → f'.pending.received.size = f.pending.received.size + 1

theorem received_arrival (hrun : f.isShutDown = false) (now : Timestamp) (a : Arrival) :
    f.Received (f.call (.arrival now a)) := by
  cases hmode : f.mode with
  | nack =>
    simp only [call, onArrival_of_running hmode hrun]
    have hran := sameService_runBoth (f.count fun s => { s with packets := s.packets + 1 })
      (·.onArrival now a)
    exact ⟨hran.mode, hran.packets, hran.recovered, fun hack => by simp [hmode] at hack⟩
  | ack =>
    simp only [call, onArrival_of_ack hmode hrun]
    exact ⟨rfl, rfl, rfl, fun _ => Array.size_push _⟩
  | none =>
    simp only [call, onArrival_of_none hmode hrun]
    exact ⟨rfl, rfl, rfl, fun hack => by simp [hmode] at hack⟩

def recoveries (f : Feedback) (now : Timestamp) (a : Arrival) : Nat :=
  match f.onRepair now a with
  | .ok reply =>
    match reply.value with
    | .recovered _ => 1
    | _ => 0
  | .error _ => 0

structure Repaired (f : Feedback) (n : Nat) (f' : Feedback) : Prop where
  mode : f'.mode = f.mode
  packets : f'.stats.packets = f.stats.packets
  recovered : f'.stats.rtxRecovered = f.stats.rtxRecovered + n
  received : f'.pending.received = f.pending.received

theorem repaired_repair (hrun : f.isShutDown = false) (now : Timestamp) (a : Arrival) :
    f.Repaired (f.recoveries now a) (f.call (.repair now a)) := by
  by_cases hmode : f.mode = .nack
  · simp only [recoveries, call, onRepair_eq hmode hrun]
    have hran := sameService_runBoth (f.count fun s => { s with rtxPackets := s.rtxPackets + 1 })
      (·.onRepair now a)
    generalize (f.count fun s => { s with rtxPackets := s.rtxPackets + 1 }).runBoth _ = ran at hran
    have hrecovered : ran.feedback.stats.rtxRecovered = f.stats.rtxRecovered := hran.recovered
    rw [reconcile]
    generalize ran.feedback.requests.answer now a.seq f.rtxLateAfter = answer
    rcases answer with ⟨_ | _ | _ | _, requests⟩ <;>
      exact ⟨hran.mode, hran.packets, by simp [count, countOutcome, hrecovered], hran.received⟩
  · simp only [recoveries, call, onRepair_of_ne hmode hrun]
    exact ⟨rfl, rfl, rfl, rfl⟩

end LossWatch.Feedback
