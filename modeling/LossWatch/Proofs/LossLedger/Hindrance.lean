import LossWatch.Proofs.LossLedger.Reach

/-!
How long a ledger can refuse declarations that are tried number after number. An occupant that is
ahead of a number stands in its way, and in the way of the numbers a turn of the ring later, until
they are past it. A refused try uses up one of these times, and what a try writes is in the way of
nothing that follows, so the times left bound how many tries can be refused.
-/

namespace LossWatch.LossLedger

variable {l l' : LossLedger} {n r : SeqNumber} {lost : List SeqNumber} {k : Nat}

/-- How often the occupant of the slot of `n` will be in the way, at `n` and turn after turn. -/
def hold (l : LossLedger) (n : SeqNumber) : Nat :=
  match l.occupant n with
  | some e => if e.seq.ahead n < 32768 then e.seq.ahead n / 1024 + 1 else 0
  | none => 0

def hindrance (l : LossLedger) (n : SeqNumber) : Nat → Nat
  | 0 => 0
  | k + 1 => l.hold n + l.hindrance n.next k

theorem hold_le (l : LossLedger) (n : SeqNumber) : l.hold n ≤ 32 := by
  unfold hold
  split
  · split <;> omega
  · omega

theorem hindrance_le (l : LossLedger) (n : SeqNumber) (k : Nat) : l.hindrance n k ≤ 32 * k := by
  induction k generalizing n with
  | zero => exact Nat.le_refl 0
  | succ k ih =>
    have hfirst := l.hold_le n
    have hrest := ih n.next
    simp only [hindrance]
    omega

theorem hindrance_succ (l : LossLedger) (n : SeqNumber) (k : Nat) :
    l.hindrance n (k + 1) = l.hindrance n k + l.hold (n.add k) := by
  induction k generalizing n with
  | zero => simp [hindrance, SeqNumber.add]
  | succ k ih =>
    rw [hindrance, ih n.next, hindrance, SeqNumber.next_add]
    omega

theorem hindrance_congr (h : ∀ j < k, l'.hold (n.add j) = l.hold (n.add j)) :
    l'.hindrance n k = l.hindrance n k := by
  induction k with
  | zero => rfl
  | succ k ih =>
    rw [hindrance_succ, hindrance_succ, ih fun j hj => h j (by omega), h k (by omega)]

theorem hold_of_occupant (h : l'.occupant n = l.occupant n) : l'.hold n = l.hold n := by
  unfold hold
  rw [h]

theorem hold_eq_zero (h : ¬ l.Settled n) : l.hold n = 0 := by
  rw [settled_iff_occupant] at h
  unfold hold
  cases ho : l.occupant n with
  | none => rfl
  | some e => exact if_neg fun hahead => h ⟨e, ho, hahead⟩

theorem hindrance_pos (l : LossLedger) (h : l.Settled n) (k : Nat) :
    0 < l.hindrance n (k + 1) := by
  obtain ⟨e, ho, hahead⟩ := settled_iff_occupant.mp h
  have hhold : l.hold n = e.seq.ahead n / 1024 + 1 := by
    simp only [hold, ho, if_pos hahead]
  rw [hindrance]
  omega

namespace Placed

theorem index_eq_iff (hl : l.Placed) {j : Nat} (hj : j ≤ 1024) :
    l.index (n.add j) = l.index n ↔ j = 0 ∨ j = 1024 := by
  have hsize : l.slots.size = 1024 := hl.history
  have hn := n.raw_lt
  simp only [index, hsize, SeqNumber.add, SeqNumber.ofNat]
  omega

theorem occupant_turn (hl : l.Placed) : l.occupant (n.add 1024) = l.occupant n := by
  simp only [occupant, (hl.index_eq_iff (n := n) (Nat.le_refl 1024)).mpr (Or.inr rfl)]

/-- What is in the way of `n` is in the way once less a turn later. -/
theorem hold_turn (hl : l.Placed) (h : l.Settled n) : l.hold (n.add 1024) + 1 = l.hold n := by
  obtain ⟨e, ho, hahead⟩ := settled_iff_occupant.mp h
  have hturns := hl.turns ho
  have hlater : e.seq.ahead (n.add 1024) = (e.seq.ahead n + 64512) % 65536 :=
    SeqNumber.ahead_add_right (by omega)
  simp only [hold, hl.occupant_turn, ho, if_pos hahead, hlater]
  split <;> omega

/-- A refused try uses up one hindrance, a declaration none. -/
theorem hindrance_tries (hl : l.Placed) (h : l.Tries [n] l' lost) :
    l'.hindrance n.next 1024 + 1 = l.hindrance n 1024 + lost.length := by
  have hends : l'.hindrance n.next 1024 = l'.hindrance n.next 1023 + l'.hold (n.add 1024) := by
    rw [hindrance_succ, SeqNumber.next_add]
  have hstarts : l.hindrance n 1024 = l.hold n + l.hindrance n.next 1023 := rfl
  rw [hends, hstarts]
  cases h with
  | settled known rest =>
    cases rest with
    | nil =>
      have hturn := hl.hold_turn known
      simp only [List.length_nil]
      omega
  | lost written rest =>
    cases rest with
    | nil =>
      obtain ⟨hopen, hwritten⟩ := written_of_assumeLost? hl.size_pos written
      have hothers : l'.hindrance n.next 1023 = l.hindrance n.next 1023 := by
        refine hindrance_congr fun j hj => hold_of_occupant ?_
        rw [hwritten, if_neg]
        rw [SeqNumber.next_add, hl.index_eq_iff (by omega)]
        omega
      have hbehind : n.ahead (n.add 1024) = 64512 := by
        rw [SeqNumber.ahead_add_right (by omega), SeqNumber.ahead_self]
      have hfree : l'.hold (n.add 1024) = 0 := by
        have hturn := (hl.index_eq_iff (n := n) (Nat.le_refl 1024)).mpr (Or.inr rfl)
        simp only [hold, hwritten, if_pos hturn, hbehind]
        rfl
      rw [hothers, hfree, hold_eq_zero hopen]
      simp only [List.length_cons, List.length_nil]
      omega

end Placed

/-! ### Received numbers out of the way -/

theorem wasReceived_iff :
    l.wasReceived n = true ↔ ∃ st, l.occupant n = some ⟨n, st⟩ ∧ ¬ IsLoss st := by
  simp only [← status_eq_some_iff, wasReceived]
  cases l.status n with
  | none => simp
  | some st => cases st <;> simp [IsLoss]

theorem settled_of_wasReceived (h : l.wasReceived n = true) : l.Settled n := by
  obtain ⟨st, ho, -⟩ := wasReceived_iff.mp h
  exact .of_status (status_eq_some_iff.mpr ho)

theorem Placed.received_of_tries (hl : l.Placed) (h : l.Tries [n] l' lost)
    (hr : l'.wasReceived r = true) :
    l.wasReceived r = true ∧ (l.index r = l.index n → l.Settled n) := by
  cases h with
  | settled known rest => cases rest with | nil => exact ⟨hr, fun _ => known⟩
  | lost written rest =>
    cases rest with
    | nil =>
      obtain ⟨-, hwritten⟩ := written_of_assumeLost? hl.size_pos written
      obtain ⟨st, ho, hkind⟩ := wasReceived_iff.mp hr
      rw [hwritten] at ho
      split at ho
      · cases ho
        exact absurd ⟨_, rfl⟩ hkind
      · rename_i hindex
        exact ⟨wasReceived_iff.mpr ⟨st, ho, hkind⟩, fun hi => absurd hi hindex⟩

/-- No received number is less than half the space ahead of `n`. -/
def ClearFrom (l : LossLedger) (n : SeqNumber) : Prop :=
  ∀ r, l.wasReceived r = true → 32768 ≤ r.ahead n

theorem ClearFrom.not_received (h : l.ClearFrom n) : l.wasReceived n = false := by
  cases hr : l.wasReceived n with
  | false => rfl
  | true => exact absurd (h n hr) (by simp [SeqNumber.ahead_self])

/-- Half the space is a number of turns, so the number next to come up as received is in the slot that
the try takes. -/
theorem ClearFrom.tries (h : l.ClearFrom n) (hl : l.Placed) (ht : l.Tries [n] l' lost) :
    l'.ClearFrom n.next := by
  intro r hr
  obtain ⟨hreceived, htaken⟩ := hl.received_of_tries ht hr
  have hahead := h r hreceived
  have hnot : r.ahead n ≠ 32768 := by
    intro hhalf
    have hsize : l.slots.size = 1024 := hl.history
    have hindex : l.index r = l.index n := by
      have hraw := r.raw_lt
      have hn := n.raw_lt
      simp only [SeqNumber.ahead] at hhalf
      simp only [index, hsize]
      omega
    obtain ⟨st, ho, -⟩ := wasReceived_iff.mp hreceived
    obtain ⟨e, he, hless⟩ := settled_iff_occupant.mp (htaken hindex)
    have hsame : l.occupant n = some ⟨r, st⟩ := by
      rw [← ho]
      simp only [occupant, hindex]
    obtain rfl : e = ⟨r, st⟩ := Option.some.inj (he.symm.trans hsame)
    exact absurd hless (by simp [hhalf])
  have hnext : r.ahead n.next = (r.ahead n + 65535) % 65536 := SeqNumber.ahead_add_right (by omega)
  have hlt : r.ahead n < 65536 := Nat.mod_lt _ (by omega)
  omega

end LossWatch.LossLedger
