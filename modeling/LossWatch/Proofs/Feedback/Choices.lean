import LossWatch.Proofs.Feedback.Listing
import LossWatch.Proofs.Feedback.Requests

/-!
The choice among equally old requests. When a request finds the table full, the oldest has to go, and if
several are as old, nothing in the session says which. Two runs that choose differently differ in what
is remembered and in what repairs find there, and in nothing else.
-/

namespace LossWatch

inductive FeedbackResult
  | events (r : Except FeedbackFault (List LossEvent))
  | outcome (r : Except FeedbackFault RepairOutcome)
  | accepted (r : Except FeedbackFault Unit)
  | lost (seqs : List SeqNumber)
  | received (seqs : Array SeqNumber)
  | comparison (events : Array ComparisonEvent)
  | done

/-- The statistics less what repairs found among the requests. -/
def FeedbackStats.unasked (s : FeedbackStats) : FeedbackStats :=
  { s with
    rtxRecovered := 0, rtxLate := 0, rtxDuplicate := 0, rtxUnrequested := 0, rtxLatencyMicros := 0 }

namespace RepairRequests

variable {rs : RepairRequests} {now : Timestamp} {horizon : Duration}

/-- There is room for one more request, or it is plain which one has to go. -/
def Settled (rs : RepairRequests) (now : Timestamp) (horizon : Duration) : Prop :=
  (rs.young now horizon).length < capacity ∨
    (rs.young now horizon).length = capacity ∧ ∃ r, (rs.young now horizon).oldests = [r]

end RepairRequests

namespace Feedback

variable {f g : Feedback} {c d : FeedbackCall}

def result (f : Feedback) : FeedbackCall → FeedbackResult
  | .arrival now a => .events ((f.onArrival now a).map (·.value))
  | .repair now a => .outcome ((f.onRepair now a).map (·.value))
  | .request now seq flow tie => .accepted ((f.onRequest now seq flow tie).map fun _ => ())
  | .poll now => .events (.ok (f.pollTimers now).value)
  | .takeLost => .lost f.takeLost.1
  | .takeReceived => .received f.takeReceived.1
  | .takeComparison count => .comparison (f.takeComparison count).1
  | .shutDown | .reset => .done

/-- The reply to a repair once both estimators have seen it: the requests are consulted last. -/
def reconcile (ran : FeedbackReply (List LossEvent)) (now : Timestamp) (seq : SeqNumber)
    (lateAfter : Duration) : FeedbackReply RepairOutcome :=
  let answer := ran.feedback.requests.answer now seq lateAfter
  { feedback := { ran.feedback with requests := answer.2 }.count (countOutcome answer.1)
    value := answer.1, notices := ran.notices }

theorem onRepair_eq (hmode : f.mode = .nack) (hrun : f.isShutDown = false) (now : Timestamp)
    (a : Arrival) : f.onRepair now a =
      .ok (reconcile ((f.count fun s => { s with rtxPackets := s.rtxPackets + 1 }).runBoth
        (·.onRepair now a)) now a.seq f.rtxLateAfter) := by
  simp only [onRepair, requireRunning, requireMode, hmode, hrun]
  rfl

theorem onRequest_eq (hmode : f.mode = .nack) (hrun : f.isShutDown = false) (now : Timestamp)
    (seq : SeqNumber) (flow : Option Nat) (tie : Nat) : f.onRequest now seq flow tie =
      .ok (({ f with requests :=
        (f.requests.prune tie now (f.rtxLateAfter.times horizonFactor)).request now seq flow } :
          Feedback).count fun s => { s with rtxRequested := s.rtxRequested + 1 }) := by
  simp only [onRequest, requireRunning, requireMode, hmode, hrun]
  rfl

/-! ### Choices that make no difference -/

def unasked (f : Feedback) : Feedback := { f with requests := [], stats := f.stats.unasked }

/-- Two attempts: both refused for one reason, or both accepted with related outcomes. -/
inductive Answers {α : Type} (related : α → α → Prop) :
    Except FeedbackFault α → Except FeedbackFault α → Prop
  | refused (fault : FeedbackFault) : Answers related (.error fault) (.error fault)
  | accepted {r r' : α} (h : related r r') : Answers related (.ok r) (.ok r')

section SameButRequests

variable (h : f.unasked = g.unasked)
include h

end SameButRequests

end Feedback
end LossWatch
