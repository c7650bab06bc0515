import LossWatch.Proofs.Feedback.Comparison
import Mathlib.Algebra.GroupWithZero.Nat

/-!
The accounts of the feedback. A reported loss is drained, withdrawn or still pending; a late packet
finds its report pending or sent; a repair has one of four outcomes; and an event of the comparison
estimator is collected, waits in the channel or was dropped. The counters are kept in different
places, some before an estimator runs and some after, so in the middle of a call some events are
counted and not sent yet and a repair is counted and not matched yet.
-/

namespace LossWatch

def FeedbackResult.lostSize : FeedbackResult → Nat
  | .lost seqs => seqs.length
  | _ => 0

def FeedbackResult.comparisonSize : FeedbackResult → Nat
  | .comparison taken => taken.size
  | _ => 0

namespace PendingLists

variable {p : PendingLists} {seq : SeqNumber}

theorem addLost_of_mem (h : seq ∈ p.lost) : p.addLost seq = (false, p) := if_pos h

theorem addLost_of_not_mem (h : seq ∉ p.lost) :
    p.addLost seq = (true, { p with lost := p.lost ++ [seq] }) := if_neg h

theorem removeLost_of_mem (h : seq ∈ p.lost) :
    p.removeLost seq = (true, { p with lost := p.lost.erase seq }) := if_pos h

theorem removeLost_of_not_mem (h : seq ∉ p.lost) : p.removeLost seq = (false, p) := if_neg h

end PendingLists

namespace Feedback

variable {f : Feedback} {c : FeedbackCall} {calls : List FeedbackCall} {drained collected : Nat}
  {unsent unmatched : Nat}

def results : Feedback → List FeedbackCall → List FeedbackResult
  | _, [] => []
  | f, c :: calls => f.result c :: results (f.call c) calls

/-- The accounts with `drained` losses and `collected` comparison events given away so far, while
`unsent` comparison events and `unmatched` repairs are counted and not dealt with yet. -/
structure Accounts (f : Feedback) (drained collected unsent unmatched : Nat) : Prop where
  nodup : f.pending.lost.Nodup
  reported : f.stats.lossesReported = drained + f.stats.withdrawn + f.pending.lost.length
  falsePositives : f.stats.falsePositives = f.stats.withdrawn + f.stats.alreadySent
  repairs : f.stats.rtxPackets = f.stats.rtxRecovered + f.stats.rtxLate + f.stats.rtxDuplicate +
    f.stats.rtxUnrequested + unmatched
  comparison : f.stats.comparisonEvents =
    collected + f.channel.size + f.stats.comparisonDropped + unsent

structure Balanced (f : Feedback) (drained collected : Nat) : Prop where
  nodup : f.pending.lost.Nodup
  reported : f.stats.lossesReported = drained + f.stats.withdrawn + f.pending.lost.length
  falsePositives : f.stats.falsePositives = f.stats.withdrawn + f.stats.alreadySent
  repairs : f.stats.rtxPackets = f.stats.rtxRecovered + f.stats.rtxLate + f.stats.rtxDuplicate +
    f.stats.rtxUnrequested
  comparison : f.stats.comparisonEvents = collected + f.channel.size + f.stats.comparisonDropped

namespace Accounts

theorem balanced (h : f.Accounts drained collected 0 0) : f.Balanced drained collected :=
  ⟨h.nodup, h.reported, h.falsePositives, h.repairs, h.comparison⟩

theorem handleEvent (h : f.Accounts drained collected unsent unmatched) (e : LossEvent) :
    (f.handleEvent e).Accounts drained collected unsent unmatched := by
  cases e with
  | lost seq position =>
    by_cases hmem : seq ∈ f.pending.lost
    · have hsame : f.handleEvent (.lost seq position) = f := by
        simp only [Feedback.handleEvent, PendingLists.addLost_of_mem hmem]
      rwa [hsame]
    · have hnodup := PendingLists.nodup_addLost h.nodup seq
      have hreported := h.reported
      simp only [PendingLists.addLost_of_not_mem hmem] at hnodup
      simp only [Feedback.handleEvent, PendingLists.addLost_of_not_mem hmem, count]
      refine ⟨hnodup, ?_, h.falsePositives, h.repairs, h.comparison⟩
      simp only [List.length_append, List.length_singleton]
      omega
  | falsePositive seq position =>
    have hreported := h.reported
    have hfalse := h.falsePositives
    by_cases hmem : seq ∈ f.pending.lost
    · have hnodup := PendingLists.nodup_removeLost h.nodup seq
      have hlength := List.length_erase_of_mem hmem
      have hpos : 0 < f.pending.lost.length := List.length_pos_of_mem hmem
      simp only [PendingLists.removeLost_of_mem hmem] at hnodup
      simp only [Feedback.handleEvent, PendingLists.removeLost_of_mem hmem, count]
      refine ⟨hnodup, ?_, ?_, h.repairs, h.comparison⟩
      · simp only
        omega
      · simp only
        omega
    · simp only [Feedback.handleEvent, PendingLists.removeLost_of_not_mem hmem, count]
      refine ⟨h.nodup, h.reported, ?_, h.repairs, h.comparison⟩
      simp only
      omega

theorem handleEvents (h : f.Accounts drained collected unsent unmatched) (es : List LossEvent) :
    (f.handleEvents es).Accounts drained collected unsent unmatched := by
  induction es generalizing f with
  | nil => exact h
  | cons e es ih => exact ih (h.handleEvent e)

theorem forward (h : f.Accounts drained collected (unsent + 1) unmatched) (kind : EstimatorKind)
    (d : Delivery) : (f.forward kind d).Accounts drained collected unsent unmatched := by
  have hcomparison := h.comparison
  unfold Feedback.forward
  split
  · refine ⟨h.nodup, h.reported, h.falsePositives, h.repairs, ?_⟩
    simp only [Array.size_push]
    omega
  · refine ⟨h.nodup, h.reported, h.falsePositives, h.repairs, ?_⟩
    simp only [count]
    omega

theorem foldl_forward (kind : EstimatorKind) (ds : List Delivery)
    (h : f.Accounts drained collected ds.length unmatched) :
    (ds.foldl (Feedback.forward kind) f).Accounts drained collected 0 unmatched := by
  induction ds generalizing f with
  | nil => exact h
  | cons d ds ih => exact ih (h.forward kind d)

theorem runComparison (h : f.Accounts drained collected 0 unmatched) (act : Monitor → Turn) :
    (f.runComparison act).feedback.Accounts drained collected 0 unmatched := by
  unfold Feedback.runComparison
  cases f.comparison with
  | none => exact h
  | some m =>
    simp only [← Array.foldl_toList]
    refine foldl_forward _ _ ⟨h.nodup, h.reported, h.falsePositives, h.repairs, ?_⟩
    have hcomparison := h.comparison
    simp only [count, Array.length_toList]
    omega

theorem runPrimary (h : f.Accounts drained collected 0 unmatched) (act : Monitor → Turn) :
    (f.runPrimary act).feedback.Accounts drained collected 0 unmatched := by
  unfold Feedback.runPrimary
  cases f.primary with
  | none => exact h
  | some m =>
    have hturn : ({ f with primary := some (act m).monitor } : Feedback).Accounts drained collected
        0 unmatched := ⟨h.nodup, h.reported, h.falsePositives, h.repairs, h.comparison⟩
    exact hturn.handleEvents _

theorem runBoth (h : f.Accounts drained collected 0 unmatched) (act : Monitor → Turn) :
    (f.runBoth act).feedback.Accounts drained collected 0 unmatched :=
  (h.runPrimary act).runComparison act

theorem reconcile {ran : FeedbackReply (List LossEvent)}
    (h : ran.feedback.Accounts drained collected 0 1) (now : Timestamp) (seq : SeqNumber)
    (lateAfter : Duration) :
    (Feedback.reconcile ran now seq lateAfter).feedback.Accounts drained collected 0 0 := by
  have hrepairs := h.repairs
  unfold Feedback.reconcile
  generalize ran.feedback.requests.answer now seq lateAfter = answer
  rcases answer with ⟨_ | _ | _ | _, requests⟩ <;>
    refine ⟨h.nodup, h.reported, h.falsePositives, ?_, h.comparison⟩ <;>
    simp only [count, countOutcome] <;> omega

/-! ### Every call -/

theorem onArrival (h : f.Accounts drained collected 0 0) (now : Timestamp) (a : Arrival) :
    (f.call (.arrival now a)).Accounts drained collected 0 0 := by
  have hcounted : (f.count fun s => { s with packets := s.packets + 1 }).Accounts drained
      collected 0 0 := ⟨h.nodup, h.reported, h.falsePositives, h.repairs, h.comparison⟩
  cases hrun : f.isShutDown with
  | true =>
    simp only [call, onArrival_of_shutDown hrun]
    exact h
  | false =>
    cases hmode : f.mode with
    | nack =>
      simp only [call, onArrival_of_running hmode hrun]
      exact hcounted.runBoth _
    | ack =>
      simp only [call, onArrival_of_ack hmode hrun]
      exact ⟨hcounted.nodup, hcounted.reported, h.falsePositives, h.repairs, h.comparison⟩
    | none =>
      simp only [call, onArrival_of_none hmode hrun]
      exact hcounted

theorem onRepair (h : f.Accounts drained collected 0 0) (now : Timestamp) (a : Arrival) :
    (f.call (.repair now a)).Accounts drained collected 0 0 := by
  cases hrun : f.isShutDown with
  | true =>
    simp only [call, onRepair_of_shutDown hrun]
    exact h
  | false =>
    by_cases hmode : f.mode = .nack
    · have hcounted : (f.count fun s => { s with rtxPackets := s.rtxPackets + 1 }).Accounts
          drained collected 0 1 :=
        ⟨h.nodup, h.reported, h.falsePositives, congrArg (· + 1) h.repairs, h.comparison⟩
      simp only [call, onRepair_eq hmode hrun]
      exact (hcounted.runBoth _).reconcile now a.seq _
    · simp only [call, onRepair_of_ne hmode hrun]
      exact h

theorem onRequest (h : f.Accounts drained collected 0 0) (now : Timestamp) (seq : SeqNumber)
    (flow : Option Nat) (tie : Nat) :
    (f.call (.request now seq flow tie)).Accounts drained collected 0 0 := by
  cases hrun : f.isShutDown with
  | true =>
    simp only [call, onRequest_of_shutDown hrun]
    exact h
  | false =>
    by_cases hmode : f.mode = .nack
    · simp only [call, onRequest_eq hmode hrun]
      generalize (f.requests.prune _ _ _).request _ _ _ = requests
      exact ⟨h.nodup, h.reported, h.falsePositives, h.repairs, h.comparison⟩
    · simp only [call, onRequest_of_ne hmode hrun]
      exact h

theorem pollTimers (h : f.Accounts drained collected 0 0) (now : Timestamp) :
    (f.call (.poll now)).Accounts drained collected 0 0 := by
  simp only [call, Feedback.pollTimers]
  split
  · exact h
  · exact h.runBoth _

theorem shutDown (h : f.Accounts drained collected 0 0) :
    (f.call .shutDown).Accounts drained collected 0 0 := by
  simp only [call, Feedback.shutDown]
  split
  · exact h
  · exact ⟨h.nodup, h.reported, h.falsePositives, h.repairs, h.comparison⟩

theorem call (h : f.Accounts drained collected 0 0) (hc : c ≠ .reset) :
    (f.call c).Accounts (drained + (f.result c).lostSize)
      (collected + (f.result c).comparisonSize) 0 0 := by
  have hreported := h.reported
  have hcomparison := h.comparison
  cases c with
  | arrival now a => exact h.onArrival now a
  | repair now a => exact h.onRepair now a
  | request now seq flow tie => exact h.onRequest now seq flow tie
  | poll now => exact h.pollTimers now
  | takeLost =>
    refine ⟨List.nodup_nil, ?_, h.falsePositives, h.repairs, h.comparison⟩
    simp only [Feedback.call, Feedback.takeLost, PendingLists.takeLost, Feedback.result,
      FeedbackResult.lostSize, List.length_nil]
    omega
  | takeReceived => exact ⟨h.nodup, h.reported, h.falsePositives, h.repairs, h.comparison⟩
  | takeComparison count =>
    have hsplit : (f.channel.take count).size + (f.channel.drop count).size = f.channel.size := by
      simp
      omega
    refine ⟨h.nodup, h.reported, h.falsePositives, h.repairs, ?_⟩
    simp only [Feedback.call, Feedback.takeComparison, Feedback.result,
      FeedbackResult.comparisonSize]
    omega
  | shutDown => exact h.shutDown
  | reset => exact absurd rfl hc

theorem after (h : f.Accounts drained collected 0 0) (unreset : ∀ c ∈ calls, c ≠ .reset) :
    (f.after calls).Accounts (drained + ((f.results calls).map FeedbackResult.lostSize).sum)
      (collected + ((f.results calls).map FeedbackResult.comparisonSize).sum) 0 0 := by
  induction calls generalizing f drained collected with
  | nil => exact h
  | cons c calls ih =>
    have hfirst := h.call (unreset c List.mem_cons_self)
    have hrest := ih hfirst fun d hd => unreset d (List.mem_cons_of_mem c hd)
    rw [results, List.map_cons, List.map_cons, List.sum_cons, List.sum_cons, ← Nat.add_assoc,
      ← Nat.add_assoc]
    exact hrest

end Accounts

/-! ### From the start on -/

variable {caps : Capabilities} {primary comparison : Option Estimator} {r : FeedbackReply Unit}

theorem accounts_of_ofEstimators (h : ofEstimators caps primary comparison = .ok r) :
    r.feedback.Accounts 0 0 0 0 := by
  obtain ⟨first, second, hr, -⟩ := eq_of_ofEstimators h
  rw [hr]
  exact ⟨List.nodup_nil, rfl, rfl, rfl, rfl⟩

/-- The accounts of every session balance after any calls without a reset, in whatever order the
losses and the comparison events are drained. -/
theorem accounts_balance
    (built : ofCapabilities caps = .ok r ∨
      ∃ primary comparison, ofEstimators caps primary comparison = .ok r)
    (unreset : ∀ c ∈ calls, c ≠ .reset) :
    (r.feedback.after calls).Balanced
      ((r.feedback.results calls).map FeedbackResult.lostSize).sum
      ((r.feedback.results calls).map FeedbackResult.comparisonSize).sum := by
  have haccounts : r.feedback.Accounts 0 0 0 0 := by
    rcases built with h | ⟨first, second, h⟩
    · obtain ⟨first, second, hr, -⟩ := ofEstimators_of_ofCapabilities h
      exact accounts_of_ofEstimators hr
    · exact accounts_of_ofEstimators h
  have h := (haccounts.after unreset).balanced
  rwa [Nat.zero_add, Nat.zero_add] at h

theorem accounts_balance_of_watched_session :
    let caps : Capabilities := { comparison := some .crossPath }
    let calls : List FeedbackCall :=
      [.arrival .zero ⟨.ofNat 1, none⟩, .arrival (.ofMillis 40) ⟨.ofNat 4, none⟩, .takeLost,
        .request (.ofMillis 41) (.ofNat 2) none, .arrival (.ofMillis 45) ⟨.ofNat 3, none⟩,
        .repair (.ofMillis 60) ⟨.ofNat 2, none⟩, .arrival (.ofMillis 80) ⟨.ofNat 6, none⟩,
        .takeComparison 1, .poll (.ofMillis 200), .shutDown]
    ∃ r, ofCapabilities caps = .ok r ∧ (∀ c ∈ calls, c ≠ .reset) ∧
      (r.feedback.after calls).Balanced
        ((r.feedback.results calls).map FeedbackResult.lostSize).sum
        ((r.feedback.results calls).map FeedbackResult.comparisonSize).sum := by
  intro caps calls
  have hmode : caps.mode = .nack := by decide
  have hvalid : caps.validate = .ok () :=
    (validate_of_nack hmode).trans PredictorConfig.validate_default
  obtain ⟨_, hbuilt⟩ := ofCapabilities_of_valid hmode hvalid
  obtain ⟨r, -, hr, -⟩ := hbuilt (some .crossPath)
  have unreset : ∀ c ∈ calls, c ≠ .reset := by simp [calls]
  exact ⟨r, hr, unreset, accounts_balance (.inl hr) unreset⟩

end Feedback
end LossWatch
