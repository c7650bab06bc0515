import LossWatch.Proofs.Estimator.LossBudget
import LossWatch.Proofs.Feedback.Balance
import LossWatch.Proofs.Feedback.Clocks

/-!
How many losses a feedback may still report without another arrival: those on its list and those its
primary estimator can still declare. Only an arrival adds to this, and a bounded number.
-/

namespace LossWatch

/-! ### One turn of a monitor -/

namespace Turn

variable {t : Turn} {m : Monitor} {cs : List EstimatorCall} {k : Nat}

structure Spends (t : Turn) (m : Monitor) (k : Nat) : Prop where
  losses : t.events.countP (·.isLost) + t.monitor.estimator.lossBudget ≤
    m.estimator.lossBudget + k
  ceiling : t.monitor.estimator.lossCeiling = m.estimator.lossCeiling

theorem Spends.of_makes (h : t.Makes m cs) : t.Spends m (cs.map m.estimator.lossAllowance).sum := by
  constructor
  · rw [h.events, h.estimator]
    exact m.estimator.spends_events cs
  · rw [h.estimator]
    exact m.estimator.lossCeiling_after cs

end Turn

namespace Monitor

theorem lossAllowance_expiries (e : Estimator) (es : List Expiry) :
    ((es.map Expiry.call).map e.lossAllowance).sum = 0 := by
  induction es with
  | nil => rfl
  | cons x es ih =>
    rw [List.map_cons, List.map_cons, List.sum_cons, ih]
    rfl

theorem spends_onArrival (m : Monitor) (now : Timestamp) (a : Arrival) :
    (m.onArrival now a).Spends m m.estimator.lossesPerArrival := by
  obtain ⟨es, -, hmakes⟩ := m.makes_onArrival now a
  have hspends := Turn.Spends.of_makes hmakes
  rw [List.map_append, List.sum_append, lossAllowance_expiries, Nat.zero_add] at hspends
  exact hspends

theorem spends_onRepair (m : Monitor) (now : Timestamp) (a : Arrival) :
    (m.onRepair now a).Spends m 0 := by
  obtain ⟨es, hmakes⟩ := m.makes_onRepair now a
  have hspends := Turn.Spends.of_makes hmakes
  rw [List.map_append, List.sum_append, lossAllowance_expiries] at hspends
  exact hspends

theorem spends_pollTimers (m : Monitor) (now : Timestamp) : (m.pollTimers now).Spends m 0 := by
  obtain ⟨es, hmakes⟩ := m.makes_pollTimers now
  have hspends := Turn.Spends.of_makes hmakes
  rwa [lossAllowance_expiries] at hspends

end Monitor

namespace Feedback

variable {f f' f'' : Feedback} {c : FeedbackCall} {calls : List FeedbackCall} {j k : Nat}
  {act : Monitor → Turn}

/-- The losses that may still be reported without another arrival. -/
def lossDebt (f : Feedback) : Nat :=
  f.pending.lost.length + (f.primary.map (·.estimator.lossBudget)).getD 0

def lossesPerArrival (f : Feedback) : Nat :=
  (f.primary.map (·.estimator.lossesPerArrival)).getD 0

def lossAllowance (f : Feedback) : FeedbackCall → Nat
  | .arrival .. => f.lossesPerArrival
  | _ => 0

structure Spends (f : Feedback) (k : Nat) (f' : Feedback) : Prop where
  debt : f'.lossDebt ≤ f.lossDebt + k
  perArrival : f'.lossesPerArrival = f.lossesPerArrival

theorem Spends.trans (h : f.Spends j f') (h' : f'.Spends k f'') : f.Spends (j + k) f'' := by
  have hfirst := h.debt
  have hrest := h'.debt
  exact ⟨by omega, h'.perArrival.trans h.perArrival⟩

theorem Spends.of_same (h : f.SameLosses f') (k : Nat) : f.Spends k f' := by
  constructor
  · rw [lossDebt, lossDebt, h.lost, h.primary]
    exact Nat.le_add_right _ _
  · rw [lossesPerArrival, lossesPerArrival, h.primary]

theorem Spends.of_primary {m m' : Monitor} (hm : f.primary = some m) (hm' : f'.primary = some m')
    (hdebt : f'.pending.lost.length + m'.estimator.lossBudget ≤
      f.pending.lost.length + m.estimator.lossBudget + k)
    (hceiling : m'.estimator.lossCeiling = m.estimator.lossCeiling) : f.Spends k f' := by
  constructor
  · rw [lossDebt, lossDebt, hm, hm']
    exact hdebt
  · rw [lossesPerArrival, lossesPerArrival, hm, hm']
    exact congrArg (32766 + max 1 ·) hceiling

theorem Spends.of_none (h : f.primary = none) (h' : f'.primary = none)
    (hdebt : f'.pending.lost.length ≤ f.pending.lost.length + k) : f.Spends k f' := by
  constructor
  · rw [lossDebt, lossDebt, h, h']
    exact hdebt
  · rw [lossesPerArrival, lossesPerArrival, h, h']

theorem spends_handleEvent (f : Feedback) (e : LossEvent) :
    f.Spends ([e].countP (·.isLost)) (f.handleEvent e) := by
  cases e with
  | lost seq position =>
    obtain ⟨stats, hf'⟩ := f.handleEvent_lost seq position
    have hlength : (f.pending.addLost seq).2.lost.length ≤ f.pending.lost.length + 1 := by
      by_cases hmem : seq ∈ f.pending.lost
      · simp [PendingLists.addLost_of_mem hmem]
      · simp [PendingLists.addLost_of_not_mem hmem]
    rw [hf']
    cases hprimary : f.primary with
    | none => exact .of_none hprimary rfl hlength
    | some m =>
      refine .of_primary hprimary rfl ?_ rfl
      show (f.pending.addLost seq).2.lost.length + _ ≤ _ + 1
      omega
  | falsePositive seq position =>
    obtain ⟨stats, hf'⟩ := f.handleEvent_falsePositive seq position
    have hlength : (f.pending.removeLost seq).2.lost.length ≤ f.pending.lost.length := by
      by_cases hmem : seq ∈ f.pending.lost
      · simp [PendingLists.removeLost_of_mem hmem, List.length_erase_of_mem hmem]
      · simp [PendingLists.removeLost_of_not_mem hmem]
    have hnoted : ∀ m : Monitor, (m.noteWithdrawn seq).estimator.lossBudget =
        m.estimator.lossBudget ∧ (m.noteWithdrawn seq).estimator.lossCeiling =
          m.estimator.lossCeiling := by
      intro ⟨e, timers⟩
      cases e <;> exact ⟨rfl, rfl⟩
    rw [hf']
    cases hprimary : f.primary with
    | none => exact .of_none hprimary (by simp) hlength
    | some m =>
      by_cases hmem : seq ∈ f.pending.lost
      · refine .of_primary hprimary (if_pos hmem) ?_ (hnoted m).2
        rw [(hnoted m).1]
        exact Nat.add_le_add_right hlength _
      · exact .of_primary hprimary (if_neg hmem) (Nat.add_le_add_right hlength _) rfl

theorem spends_handleEvents (f : Feedback) (es : List LossEvent) :
    f.Spends (es.countP (·.isLost)) (f.handleEvents es) := by
  induction es generalizing f with
  | nil => exact .of_same (.refl _) 0
  | cons e es ih =>
    have hsplit : (e :: es).countP (·.isLost) = [e].countP (·.isLost) + es.countP (·.isLost) :=
      @List.countP_append _ _ [e] es
    rw [hsplit]
    exact (f.spends_handleEvent e).trans (ih _)

theorem lossesPerArrival_of_primary {m : Monitor} (hm : f.primary = some m) :
    f.lossesPerArrival = m.estimator.lossesPerArrival := by
  rw [lossesPerArrival, hm]
  rfl

theorem spends_runPrimary (f : Feedback) (hact : ∀ m, f.primary = some m → (act m).Spends m k) :
    f.Spends k (f.runPrimary act).feedback := by
  rw [runPrimary]
  cases hprimary : f.primary with
  | none => exact .of_same (.refl f) k
  | some m =>
    have hturn := hact m hprimary
    have hlosses := hturn.losses
    have hhandled := spends_handleEvents { f with primary := some (act m).monitor } (act m).events
    have hdebt := hhandled.debt
    constructor
    · simp only [lossDebt, hprimary, Option.map_some, Option.getD_some] at hdebt ⊢
      omega
    · rw [hhandled.perArrival, lossesPerArrival_of_primary hprimary]
      exact congrArg (32766 + max 1 ·) hturn.ceiling

theorem spends_runBoth (f : Feedback) (hact : ∀ m, f.primary = some m → (act m).Spends m k) :
    f.Spends k (f.runBoth act).feedback := by
  have hwatched := (f.runPrimary act).feedback.sameLosses_runComparison act
  exact (f.spends_runPrimary hact).trans (.of_same hwatched 0)

/-- While the session goes on, only arrivals add to what it owes. -/
theorem spends_call (hrun : f.isShutDown = false) (hc : c ≠ .shutDown ∧ c ≠ .reset) :
    f.Spends (f.lossAllowance c) (f.call c) := by
  cases c with
  | arrival now a =>
    cases hmode : f.mode with
    | nack =>
      simp only [call, onArrival_of_running hmode hrun]
      have hcounted : f.Spends 0 (f.count fun s => { s with packets := s.packets + 1 }) :=
        .of_same (f.sameLosses_count _) 0
      have hran := hcounted.trans (spends_runBoth _ fun m hm =>
        lossesPerArrival_of_primary hm ▸ m.spends_onArrival now a)
      rwa [Nat.zero_add] at hran
    | ack =>
      simp only [call, onArrival_of_ack hmode hrun]
      refine .of_same ?_ _
      exact ⟨rfl, rfl, rfl, rfl⟩
    | none =>
      simp only [call, onArrival_of_none hmode hrun]
      exact .of_same (f.sameLosses_count _) _
  | repair now a =>
    by_cases hmode : f.mode = .nack
    · simp only [call, onRepair_eq hmode hrun]
      have hcounted : f.Spends 0 (f.count fun s => { s with rtxPackets := s.rtxPackets + 1 }) :=
        .of_same (f.sameLosses_count _) 0
      have hran := hcounted.trans (spends_runBoth _ fun m _ => m.spends_onRepair now a)
      exact ⟨hran.debt, hran.perArrival⟩
    · simp only [call, onRepair_of_ne hmode hrun]
      exact .of_same (.refl f) 0
  | request now seq flow tie =>
    obtain ⟨requests, rtxRequested, hcall⟩ := exists_call_request_eq hrun now seq flow tie
    rw [hcall]
    refine .of_same ?_ 0
    exact ⟨rfl, rfl, rfl, rfl⟩
  | poll now =>
    have hgo : ¬ f.isShutDown = true := by simp [hrun]
    rw [call, pollTimers, if_neg hgo]
    exact f.spends_runBoth fun m _ => m.spends_pollTimers now
  | takeLost =>
    refine ⟨?_, rfl⟩
    rw [lossDebt, lossDebt]
    show 0 + (f.primary.map _).getD 0 ≤ _
    omega
  | takeReceived | takeComparison =>
    refine .of_same ?_ 0
    exact ⟨rfl, rfl, rfl, rfl⟩
  | shutDown => exact absurd rfl hc.1
  | reset => exact absurd rfl hc.2

/-- Taking the list pays off what is on it. -/
theorem lossDebt_takes (f : Feedback) :
    f.pending.lost.length + (f.after [.takeReceived, .takeLost]).lossDebt = f.lossDebt :=
  congrArg _ (Nat.zero_add _)

theorem Timed.spends_requests {seqs : List SeqNumber} {now : Timestamp} (h : f.Timed)
    (tie : SeqNumber → Nat) : f.Spends 0 (f.after (requestsFor now tie seqs)) := by
  obtain ⟨requests, rtxRequested, hafter⟩ := exists_requests_eq h.running now tie seqs
  rw [hafter]
  refine .of_same ?_ 0
  exact ⟨rfl, rfl, rfl, rfl⟩

end Feedback
end LossWatch
