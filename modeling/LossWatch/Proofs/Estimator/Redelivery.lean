import LossWatch.Proofs.CrossPath.Coverage
import LossWatch.Proofs.Estimator.Tallies
import LossWatch.Proofs.SinglePath.Stall

/-!
The same packet delivered twice. What the first delivery puts on record stays there while it declares
older numbers lost, moves timers and teaches the predictors; and a number overtaken before it came is
overtaken still. So the second delivery finds a duplicate, or a stale number again, and goes into one
total of the ledger and nowhere else.
-/

namespace LossWatch

namespace LossLedger

variable {l : LossLedger} {n : SeqNumber} {st : PacketStatus} {now : Timestamp}

theorem receive_of_arrived (hst : l.status n = some st) (harrived : ¬ IsLoss st) (now : Timestamp) :
    l.receive now n = (.duplicate, l.countDuplicate) := by
  rw [receive, hst]
  cases st with
  | assumedLost t => exact absurd ⟨t, rfl⟩ harrived
  | received => rfl
  | falsePositive lateBy => rfl
  | recovered => rfl

theorem receive_of_overtaken (h : l.overtaken n = true) (now : Timestamp) :
    l.receive now n = (.stale, l.countStale) := by
  rw [receive, status_of_overtaken h]
  simp only [recordFirst, store?, h, if_true]

theorem overtaken_of_stale (h : (l.receive now n).1 = .stale) : l.overtaken n = true := by
  rw [receive] at h
  split at h
  · rw [recordFirst] at h
    cases hover : l.overtaken n with
    | true => rfl
    | false =>
      obtain ⟨l', hl'⟩ : ∃ l', l.store? n .received = some l' := store?_isSome hover
      simp [hl'] at h
  · exact absurd h (by simp)
  · exact absurd h (by simp)

theorem status_receive (hpos : 0 < l.slots.size) (h : (l.receive now n).1 ≠ .stale) :
    ∃ st, (l.receive now n).2.status n = some st ∧ ¬ IsLoss st := by
  by_cases harrived : ∃ st, l.status n = some st ∧ ¬ IsLoss st
  · obtain ⟨st, hst, hsettled⟩ := harrived
    rw [receive_of_arrived hst hsettled]
    exact ⟨st, hst, hsettled⟩
  · have hfree : l.overtaken n = false := by
      rw [← Bool.not_eq_true]
      intro hover
      rw [receive_of_overtaken hover] at h
      exact h rfl
    rw [receive]
    cases hst : l.status n with
    | none =>
      obtain ⟨l', hl'⟩ : ∃ l', l.store? n .received = some l' := store?_isSome hfree
      have hst' : l'.status n = some .received := status_store?_self hpos hl'
      simp only [recordFirst, hl']
      exact ⟨.received, hst', by simp [IsLoss]⟩
    | some st =>
      cases st with
      | assumedLost t =>
        obtain ⟨l', hl'⟩ : ∃ l', l.store? n (.falsePositive (now.since t)) = some l' :=
          store?_isSome hfree
        have hst' := status_store?_self hpos hl'
        simp only [hl', Option.getD_some]
        exact ⟨.falsePositive (now.since t), hst', by simp [IsLoss]⟩
      | received => exact absurd ⟨_, hst, by simp [IsLoss]⟩ harrived
      | falsePositive lateBy => exact absurd ⟨_, hst, by simp [IsLoss]⟩ harrived
      | recovered => exact absurd ⟨_, hst, by simp [IsLoss]⟩ harrived

end LossLedger

namespace Estimator

variable {e : Estimator} {now now' : Timestamp} {a : Arrival}

theorem Reachable.placed (h : e.Reachable) : e.ledger.Placed := by
  cases e with
  | single s => exact (SinglePath.sound_of_reachable h rfl).placed
  | cross c => exact (CrossPath.sound_of_reachable h rfl).placed

theorem ledger_withLedger (e : Estimator) (l : LossLedger) : (e.withLedger l).ledger = l := by
  cases e <;> rfl

theorem withLedger_self (e : Estimator) : e.withLedger e.ledger = e := by
  cases e <;> rfl

theorem restore_withLedger (e : Estimator) (l : LossLedger) :
    (e.withLedger l).withLedger e.ledger = e := by
  cases e <;> rfl

theorem receive_again (hpos : 0 < e.ledger.slots.size) (hrun : e.isStopped = false)
    (now' : Timestamp) :
    let again := (e.onArrival now a).state.ledger
    again.receive now' a.seq =
      if (e.ledger.receive now a.seq).1 = .stale then (.stale, again.countStale)
      else (.duplicate, again.countDuplicate) := by
  intro again
  split
  · rename_i hstale
    have hover := LossLedger.overtaken_of_stale hstale
    have hagain : again = e.ledger.countStale := by
      have hunrecorded : (e.ledger.receive now a.seq).1.isRecorded = false := by
        rw [hstale]
        rfl
      simp only [again, onArrival_of_unrecorded hrun hunrecorded, Step.state_stay,
        ledger_withLedger, LossLedger.receive_of_overtaken hover]
    have hsame : again.overtaken a.seq = true := hagain ▸ hover
    exact LossLedger.receive_of_overtaken hsame now'
  · rename_i hstale
    obtain ⟨st, hst, harrived⟩ := LossLedger.status_receive hpos hstale
    have hrecorded : Exchange.recorded ⟨e, .arrival now a⟩ = (e.ledger.receive now a.seq).2 :=
      if_neg (ne_true_of_eq_false hrun)
    have hkept : again.status a.seq = some st :=
      Exchange.status_of_recorded (x := ⟨e, .arrival now a⟩) rfl hpos (hrecorded ▸ hst)
    exact LossLedger.receive_of_arrived hkept harrived now'

theorem onArrival_again (h : e.Reachable) (now now' : Timestamp) (a : Arrival) :
    let again := (e.onArrival now a).state
    again.onArrival now' a = .stay (
      if e.isStopped then again
      else if (e.ledger.receive now a.seq).1 = .stale then again.withLedger again.ledger.countStale
      else again.withLedger again.ledger.countDuplicate) := by
  intro again
  have hstopped : again.isStopped = e.isStopped := (Exchange.kept ⟨e, .arrival now a⟩).2.1
  cases hrun : e.isStopped with
  | true => exact onArrival_of_stopped (hstopped.trans hrun) now' a
  | false =>
    have hreceive : again.ledger.receive now' a.seq = _ := receive_again h.placed.size_pos hrun now'
    have hunrecorded : (again.ledger.receive now' a.seq).1.isRecorded = false := by
      rw [hreceive]
      split <;> rfl
    rw [onArrival_of_unrecorded (hstopped.trans hrun) hunrecorded, hreceive]
    split <;> rfl

/-- A second delivery asks for nothing and changes nothing but one total: one more is stale if the first
was, and one more is a duplicate otherwise. A stopped estimator does not even count. -/
theorem redelivery_only_counted (h : e.Reachable) (now now' : Timestamp) (a : Arrival) :
    let first := (e.onArrival now a).state
    let second := first.onArrival now' a
    let totals := first.ledger.totals
    second.actions = [] ∧ second.state.withLedger first.ledger = first ∧
      second.state.ledger.slots = first.ledger.slots ∧
      second.state.ledger.totals =
        if e.isStopped then totals
        else if (e.ledger.receive now a.seq).1 = .stale then
          { totals with stale := totals.stale + 1 }
        else { totals with duplicates := totals.duplicates + 1 } := by
  intro first second totals
  have hsecond : second = .stay _ := onArrival_again h now now' a
  rw [hsecond, Step.state_stay]
  refine ⟨rfl, ?_⟩
  cases hrun : e.isStopped with
  | true =>
    simp only [if_true]
    exact ⟨withLedger_self first, rfl, rfl⟩
  | false =>
    by_cases hstale : (e.ledger.receive now a.seq).1 = .stale
    · simp only [hstale, Bool.false_eq_true, if_false, if_true, ledger_withLedger]
      exact ⟨restore_withLedger first _, rfl, rfl⟩
    · simp only [hstale, Bool.false_eq_true, if_false, ledger_withLedger]
      exact ⟨restore_withLedger first _, rfl, rfl⟩

theorem redelivery_only_counted_of_gap :
    let e := Estimator.after (.single
      { config := {}, predictor := .movingAverage ⟨⟨1, []⟩, ⟨1, []⟩, 1, 1.0, none, 0.0, 0⟩ })
      [.arrival .zero ⟨.ofNat 1, none⟩]
    let first := e.onArrival (.ofMillis 40) ⟨.ofNat 5, none⟩
    let second := first.state.onArrival (.ofMillis 70) ⟨.ofNat 5, none⟩
    e.Reachable ∧
      emitted first.actions =
        [.lost (.ofNat 2) none, .lost (.ofNat 3) none, .lost (.ofNat 4) none] ∧
      second.actions = [] ∧ second.state.withLedger first.state.ledger = first.state ∧
      second.state.ledger.totals = { received := 2, assumedLost := 3, duplicates := 1 } := by
  intro e first second
  have reachable : e.Reachable := .after (.fresh (.single _ _)) _
  have running : ¬ e.isStopped = true := by decide +kernel
  have fresh : (e.ledger.receive (.ofMillis 40) (.ofNat 5)).1 ≠ .stale := by decide +kernel
  have totals : first.state.ledger.totals = { received := 2, assumedLost := 3 } := by decide +kernel
  obtain ⟨quiet, same, -, counted⟩ :=
    redelivery_only_counted reachable (.ofMillis 40) (.ofMillis 70) ⟨.ofNat 5, none⟩
  rw [if_neg running, if_neg fresh] at counted
  refine ⟨reachable, by decide +kernel, quiet, same, counted.trans ?_⟩
  rw [totals]

end Estimator
end LossWatch
