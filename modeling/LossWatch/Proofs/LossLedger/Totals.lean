import LossWatch.Proofs.LossLedger.Life

/-!
The totals of a ledger that go with the reports of an estimator. A declaration adds one to the declared
losses, a packet that comes after its declaration one to the false positives, and no other entry moves
either. Such a packet stays on record as a false positive while only older numbers are declared lost,
so the note of its withdrawal finds it.
-/

namespace LossWatch

def Reception.isLate : Reception → Bool
  | .falsePositive _ => true
  | _ => false

namespace LossLedger

variable {l l' : LossLedger} {n x s : SeqNumber} {now : Timestamp} {st : PacketStatus}

/-! ### The totals -/

structure SameTotals (l l' : LossLedger) : Prop where
  assumedLost : l'.totals.assumedLost = l.totals.assumedLost
  falsePositives : l'.totals.falsePositives = l.totals.falsePositives
  withdrawn : l'.totals.withdrawn = l.totals.withdrawn

theorem sameTotals_store? (h : l.store? n st = some l') : l.SameTotals l' := by
  rw [store?, Option.ite_none_left_eq_some, Option.some.injEq] at h
  rw [← h.2]
  constructor <;> dsimp only <;> split <;> rfl

theorem sameTotals_getD_store? (l : LossLedger) (n : SeqNumber) (st : PacketStatus) :
    l.SameTotals ((l.store? n st).getD l) := by
  cases h : l.store? n st with
  | none => exact ⟨rfl, rfl, rfl⟩
  | some l' => exact sameTotals_store? h

theorem totals_assumeLost? (h : l.assumeLost? now n = some l') :
    l'.totals.assumedLost = l.totals.assumedLost + 1 ∧
      l'.totals.falsePositives = l.totals.falsePositives ∧
      l'.totals.withdrawn = l.totals.withdrawn := by
  rw [assumeLost?, Option.ite_none_left_eq_some] at h
  obtain ⟨l₁, hstored, rfl⟩ := Option.map_eq_some_iff.mp h.2
  have hsame := sameTotals_store? hstored
  exact ⟨congrArg (· + 1) hsame.assumedLost, hsame.falsePositives, hsame.withdrawn⟩

theorem sameTotals_recordFirst (l : LossLedger) (n : SeqNumber) :
    l.SameTotals (l.recordFirst n).2 := by
  rw [recordFirst]
  cases h : l.store? n .received with
  | none => exact ⟨rfl, rfl, rfl⟩
  | some l' =>
    have hsame := sameTotals_store? h
    exact ⟨hsame.assumedLost, hsame.falsePositives, hsame.withdrawn⟩

theorem sameTotals_receiveRepair (l : LossLedger) (n : SeqNumber) :
    l.SameTotals (l.receiveRepair n).2 := by
  rw [receiveRepair]
  split
  · exact l.sameTotals_recordFirst n
  · have hsame := l.sameTotals_getD_store? n .recovered
    exact ⟨hsame.assumedLost, hsame.falsePositives, hsame.withdrawn⟩
  · exact ⟨rfl, rfl, rfl⟩

theorem totals_receive (l : LossLedger) (now : Timestamp) (n : SeqNumber) :
    (l.receive now n).2.totals.assumedLost = l.totals.assumedLost ∧
      (l.receive now n).2.totals.falsePositives =
        l.totals.falsePositives + (l.receive now n).1.isLate.toNat ∧
      (l.receive now n).2.totals.withdrawn = l.totals.withdrawn := by
  rw [receive]
  split
  · have hsame := l.sameTotals_recordFirst n
    have hearly : (l.recordFirst n).1.isLate = false := by
      rw [recordFirst]
      cases l.store? n .received <;> rfl
    rw [hearly]
    exact ⟨hsame.assumedLost, hsame.falsePositives, hsame.withdrawn⟩
  · rename_i declaredAt _
    have hsame := l.sameTotals_getD_store? n (.falsePositive (now.since declaredAt))
    exact ⟨hsame.assumedLost, congrArg (· + 1) hsame.falsePositives, hsame.withdrawn⟩
  · exact ⟨rfl, rfl, rfl⟩

/-! ### Late packets -/

def IsLate (l : LossLedger) (n : SeqNumber) : Prop :=
  ∃ lateBy, l.status n = some (.falsePositive lateBy)

theorem totals_noteWithdrawn (h : l.IsLate n) :
    (l.noteWithdrawn n).totals = { l.totals with withdrawn := l.totals.withdrawn + 1 } := by
  obtain ⟨lateBy, hstatus⟩ := h
  rw [noteWithdrawn, hstatus]
  rfl

theorem IsLate.of_slots (h : l.IsLate n) (hs : l'.slots = l.slots) : l'.IsLate n := by
  obtain ⟨lateBy, hstatus⟩ := h
  exact ⟨lateBy, (status_of_occupant (occupant_of_slots hs n)).trans hstatus⟩

theorem isLate_receive (hpos : 0 < l.slots.size) (h : (l.receive now n).1.isLate = true) :
    (l.receive now n).2.IsLate n := by
  rw [receive] at h ⊢
  split at h
  · rw [recordFirst] at h
    split at h <;> exact absurd h Bool.false_ne_true
  · rename_i declaredAt hstatus
    have hfree : l.overtaken n = false := by
      cases hover : l.overtaken n with
      | false => rfl
      | true => rw [status_of_overtaken hover] at hstatus; cases hstatus
    obtain ⟨l₁, hstored⟩ : ∃ l₁, l.store? n (.falsePositive (now.since declaredAt)) = some l₁ :=
      store?_isSome hfree
    dsimp only
    rw [hstored]
    exact IsLate.of_slots ⟨_, status_store?_self hpos hstored⟩ rfl
  · exact absurd h Bool.false_ne_true

theorem status_assumeLost?_of_newer (hpos : 0 < l.slots.size) (hst : l.status s = some st)
    (hlost : l.assumeLost? now x = some l') (hx : s.newer x = true) : l'.status s = some st := by
  rw [LossLedger.assumeLost?, Option.ite_none_left_eq_some] at hlost
  obtain ⟨l₁, hstored, rfl⟩ := Option.map_eq_some_iff.mp hlost.2
  have hindex : l.index s ≠ l.index x := fun hi =>
    not_newer_of_store? hstored hi (status_eq_some_iff.mp hst) hx
  have hoccupant := occupant_store? hpos hstored s
  rw [if_neg hindex] at hoccupant
  exact (status_of_occupant hoccupant).trans hst

theorem Declares.status_of_newer {xs : List SeqNumber} (hd : l.Declares xs l')
    (hpos : 0 < l.slots.size) (hst : l.status s = some st) (hxs : ∀ x ∈ xs, s.newer x = true) :
    l'.status s = some st := by
  induction hd with
  | nil => exact hst
  | @cons l l₁ l' now x xs first _ ih =>
    have hfirst := status_assumeLost?_of_newer hpos hst first (hxs x List.mem_cons_self)
    have hsize := history_assumeLost? first
    exact ih (Nat.lt_of_lt_of_eq hpos hsize.symm) hfirst
      fun y hy => hxs y (List.mem_cons_of_mem _ hy)

end LossLedger
end LossWatch
