import LossWatch.Proofs.LossLedger.FullHistory

/-!
The accounts of a ledger, whatever numbers it is asked about. A declared loss is open while its slot
holds it. It ends when its packet comes, when a repair comes, or when another number takes the slot, and
each of these moves one total; so the declared losses are those that have ended in one of three ways
and those still open. The other totals count the receptions of their kind since the last reset.
-/

namespace LossWatch

def LedgerEntry.isOpen (e : LedgerEntry) : Bool :=
  match e.status with | .assumedLost _ => true | _ => false

def LedgerAnswer.reception? : LedgerAnswer → Option Reception
  | .declared _ => none
  | .received reception => some reception

inductive LedgerOp
  | call (c : LedgerCall)
  | withdrawn (seq : SeqNumber)
  | reset

/-- A ledger with the receptions it has given since it was last reset, the oldest first. -/
structure LedgerSession where
  ledger : LossLedger
  heard : List Reception := []

namespace LedgerSession

def op (s : LedgerSession) : LedgerOp → LedgerSession
  | .call c => ⟨(s.ledger.answer c).2, s.heard ++ (s.ledger.answer c).1.reception?.toList⟩
  | .withdrawn seq => { s with ledger := s.ledger.noteWithdrawn seq }
  | .reset => { ledger := s.ledger.reset }

def after (s : LedgerSession) (ops : List LedgerOp) : LedgerSession := ops.foldl op s

end LedgerSession

namespace LossLedger

variable {l l' : LossLedger} {n : SeqNumber} {st : PacketStatus} {now : Timestamp}
  {heard rs : List Reception} {f : LossTotals → LossTotals} {opened closed : Bool} {history : Nat}

/-! ### Open losses -/

def openLosses (l : LossLedger) : Nat := l.slots.countP (·.any LedgerEntry.isOpen)

theorem totals_store? (h : l.store? n st = some l') :
    l'.totals =
      { l.totals with confirmedLost := l.totals.confirmedLost + (l.displacesLoss n).toNat } := by
  rw [store?, Option.ite_none_left_eq_some, Option.some.injEq] at h
  rw [← h.2]
  cases l.displacesLoss n <;> rfl

theorem open_occupant (l : LossLedger) (n : SeqNumber) :
    ((l.occupant n).any LedgerEntry.isOpen).toNat =
      (l.displacesLoss n).toNat + (l.isAssumedLost n).toNat := by
  rw [displacesLoss, isAssumedLost, status]
  cases l.occupant n with
  | none => rfl
  | some e =>
    obtain ⟨seq, st⟩ := e
    by_cases hseq : seq = n <;> cases st <;> simp [LedgerEntry.isOpen, Option.filter, hseq]

theorem toNat_eq_ite (b : Bool) : b.toNat = if b = true then 1 else 0 := by
  cases b <;> rfl

theorem openLosses_store? (hpos : 0 < l.slots.size) (h : l.store? n st = some l') :
    l'.openLosses + (l.displacesLoss n).toNat + (l.isAssumedLost n).toNat =
      l.openLosses + (LedgerEntry.isOpen ⟨n, st⟩).toNat := by
  have hlt : l.index n < l.slots.size := Nat.mod_lt _ hpos
  have hslot : l.occupant n = l.slots[l.index n] := by
    rw [occupant, Array.getElem?_eq_getElem hlt]
    rfl
  have hcount : (l.slots[l.index n].any LedgerEntry.isOpen).toNat ≤ l.openLosses := by
    cases hopen : l.slots[l.index n].any LedgerEntry.isOpen with
    | false => exact Nat.zero_le _
    | true => exact Array.countP_pos_iff.mpr ⟨_, Array.getElem_mem hlt, hopen⟩
  unfold openLosses at hcount ⊢
  rw [Nat.add_assoc, ← open_occupant, hslot, (slots_store? h).2, Array.setIfInBounds, dif_pos hlt,
    Array.countP_set, ← toNat_eq_ite, ← toNat_eq_ite, Option.any_some]
  omega

structure Counts (f : LossTotals → LossTotals) (rs : List Reception) (opened closed : Bool) :
    Prop where
  opened : ∀ t, (f t).assumedLost = t.assumedLost + opened.toNat := by exact fun _ => rfl
  closed : ∀ t, (f t).falsePositives + (f t).recovered =
    t.falsePositives + t.recovered + closed.toNat := by exact fun _ => rfl
  confirmed : ∀ t, (f t).confirmedLost = t.confirmedLost := by exact fun _ => rfl
  received : ∀ t, (f t).received = t.received + rs.countP (·.isRecorded) := by exact fun _ => rfl
  duplicates : ∀ t, (f t).duplicates = t.duplicates + rs.count .duplicate := by
    exact fun _ => rfl
  stale : ∀ t, (f t).stale = t.stale + rs.count .stale := by exact fun _ => rfl

/-- Every declared loss is accounted for once, every reception is counted once, and every number is
in its own slot. -/
structure Accounts (history : Nat) (l : LossLedger) (heard : List Reception) : Prop where
  size : l.slots.size = ringSize history
  losses : l.totals.assumedLost =
    l.totals.falsePositives + l.totals.recovered + l.totals.confirmedLost + l.openLosses
  received : l.totals.received = heard.countP (·.isRecorded)
  duplicates : l.totals.duplicates = heard.count .duplicate
  stale : l.totals.stale = heard.count .stale
  own : ∀ {i : Nat} {e : LedgerEntry}, l.slots[i]? = some (some e) → e.seq.raw % ringSize history = i

theorem Accounts.tally (h : l.Accounts history heard) (hf : Counts f rs false false) :
    (l.tally f).Accounts history (heard ++ rs) where
  size := h.size
  losses := by
    have hlosses := h.losses
    have hclosed := hf.closed l.totals
    show (f l.totals).assumedLost = (f l.totals).falsePositives + (f l.totals).recovered +
      (f l.totals).confirmedLost + l.openLosses
    rw [hf.opened, hf.confirmed]
    simp only [Bool.toNat_false] at hclosed ⊢
    omega
  received := by
    rw [List.countP_append, ← h.received]
    exact hf.received l.totals
  duplicates := by
    rw [List.count_append, ← h.duplicates]
    exact hf.duplicates l.totals
  stale := by
    rw [List.count_append, ← h.stale]
    exact hf.stale l.totals
  own := h.own

theorem Accounts.store? (h : l.Accounts history heard) (hw : l.store? n st = some l')
    (hf : Counts f rs (LedgerEntry.isOpen ⟨n, st⟩) (l.isAssumedLost n)) :
    (l'.tally f).Accounts history (heard ++ rs) := by
  have hpos : 0 < l.slots.size := Nat.lt_of_lt_of_eq (ringSize_pos history) h.size.symm
  have htotals := totals_store? hw
  have hslots := (slots_store? hw).2
  refine ⟨?_, ?_, ?_, ?_, ?_, fun {i e} hi => ?_⟩
  · show l'.slots.size = ringSize history
    rw [hslots, Array.size_setIfInBounds, h.size]
  · have hlosses := h.losses
    have hopen := openLosses_store? hpos hw
    have hclosed := hf.closed l'.totals
    have hlost : l'.totals.assumedLost = l.totals.assumedLost := by rw [htotals]
    have hended : l'.totals.falsePositives + l'.totals.recovered =
        l.totals.falsePositives + l.totals.recovered := by rw [htotals]
    have hdisplaced : l'.totals.confirmedLost =
        l.totals.confirmedLost + (l.displacesLoss n).toNat := by rw [htotals]
    show (f l'.totals).assumedLost = (f l'.totals).falsePositives + (f l'.totals).recovered +
      (f l'.totals).confirmedLost + l'.openLosses
    rw [hf.opened, hf.confirmed]
    omega
  · show (f l'.totals).received = _
    rw [hf.received, htotals, List.countP_append, h.received]
  · show (f l'.totals).duplicates = _
    rw [hf.duplicates, htotals, List.count_append, h.duplicates]
  · show (f l'.totals).stale = _
    rw [hf.stale, htotals, List.count_append, h.stale]
  · have hslot : l'.slots[i]? = some (some e) := hi
    rw [hslots, Array.getElem?_setIfInBounds] at hslot
    by_cases hn : l.index n = i
    · rw [if_pos hn] at hslot
      split at hslot
      · rw [← Option.some.inj (Option.some.inj hslot), ← hn, index, h.size]
      · exact absurd hslot (by simp)
    · rw [if_neg hn] at hslot
      exact h.own hslot

/-! ### One operation -/

theorem Accounts.countStale (h : l.Accounts history heard) :
    l.countStale.Accounts history (heard ++ [.stale]) :=
  h.tally {}

theorem Accounts.countDuplicate (h : l.Accounts history heard) :
    l.countDuplicate.Accounts history (heard ++ [.duplicate]) :=
  h.tally {}

theorem Accounts.recordFirst (h : l.Accounts history heard) (hn : l.isAssumedLost n = false) :
    (l.recordFirst n).2.Accounts history (heard ++ [(l.recordFirst n).1]) := by
  rw [LossLedger.recordFirst]
  cases hw : l.store? n .received with
  | none => exact h.countStale
  | some written =>
    dsimp only
    refine h.store? hw ?_
    rw [hn]
    exact {}

theorem Accounts.receive (h : l.Accounts history heard) (now : Timestamp) (n : SeqNumber) :
    (l.receive now n).2.Accounts history (heard ++ [(l.receive now n).1]) := by
  rw [LossLedger.receive]
  cases hst : l.status n with
  | none => exact h.recordFirst (by rw [isAssumedLost, hst])
  | some st =>
    cases st with
    | assumedLost declaredAt =>
      have hlost : l.isAssumedLost n = true := by rw [isAssumedLost, hst]
      obtain ⟨written, hw⟩ : ∃ written, l.store? n (.falsePositive (now.since declaredAt)) =
          some written := store?_isSome (overtaken_of_status hst)
      simp only [hw, Option.getD_some]
      refine h.store? hw ?_
      rw [hlost]
      exact { closed := fun _ => Nat.add_right_comm .. }
    | received => exact h.countDuplicate
    | falsePositive lateBy => exact h.countDuplicate
    | recovered => exact h.countDuplicate

theorem Accounts.receiveRepair (h : l.Accounts history heard) (n : SeqNumber) :
    (l.receiveRepair n).2.Accounts history (heard ++ [(l.receiveRepair n).1]) := by
  rw [LossLedger.receiveRepair]
  cases hst : l.status n with
  | none => exact h.recordFirst (by rw [isAssumedLost, hst])
  | some st =>
    cases st with
    | assumedLost declaredAt =>
      have hlost : l.isAssumedLost n = true := by rw [isAssumedLost, hst]
      obtain ⟨written, hw⟩ : ∃ written, l.store? n .recovered = some written :=
        store?_isSome (overtaken_of_status hst)
      simp only [hw, Option.getD_some]
      refine h.store? hw ?_
      rw [hlost]
      exact {}
    | received => exact h.countDuplicate
    | falsePositive lateBy => exact h.countDuplicate
    | recovered => exact h.countDuplicate

theorem Accounts.assumeLost? (h : l.Accounts history heard) (hw : l.assumeLost? now n = some l') :
    l'.Accounts history heard := by
  rw [LossLedger.assumeLost?, Option.ite_none_left_eq_some] at hw
  obtain ⟨written, hwritten, rfl⟩ := Option.map_eq_some_iff.mp hw.2
  have hunknown : l.isAssumedLost n = false := by
    have hnone : l.status n = none := by simpa using hw.1
    rw [isAssumedLost, hnone]
  rw [← heard.append_nil]
  refine h.store? hwritten ?_
  rw [hunknown]
  exact {}

theorem Accounts.noteWithdrawn (h : l.Accounts history heard) (n : SeqNumber) :
    (l.noteWithdrawn n).Accounts history heard := by
  rw [LossLedger.noteWithdrawn]
  split
  · rw [← heard.append_nil]
    exact h.tally {}
  · exact h

theorem reset_of_size (h : l.slots.size = ringSize history) : l.reset = ofHistory history := by
  rw [reset, clearHistory, h]
  rfl

theorem accounts_ofHistory (history : Nat) : (ofHistory history).Accounts history [] where
  size := Array.size_replicate
  losses := by
    rw [openLosses, ofHistory, Array.countP_replicate]
    rfl
  received := rfl
  duplicates := rfl
  stale := rfl
  own h := by
    rw [ofHistory, Array.getElem?_replicate] at h
    split at h <;> exact absurd h (by simp)

theorem Accounts.op {s : LedgerSession} (h : s.ledger.Accounts history s.heard) (op : LedgerOp) :
    (s.op op).ledger.Accounts history (s.op op).heard := by
  cases op with
  | call c =>
    cases c with
    | declare now n =>
      show ((s.ledger.assumeLost? now n).getD s.ledger).Accounts history (s.heard ++ [])
      rw [List.append_nil]
      cases hw : s.ledger.assumeLost? now n with
      | none => exact h
      | some l' => exact h.assumeLost? hw
    | receive now n => exact h.receive now n
    | repair n => exact h.receiveRepair n
  | withdrawn n => exact h.noteWithdrawn n
  | reset =>
    show s.ledger.reset.Accounts history []
    rw [reset_of_size h.size]
    exact accounts_ofHistory history

theorem Accounts.after {s : LedgerSession} (h : s.ledger.Accounts history s.heard)
    (ops : List LedgerOp) : (s.after ops).ledger.Accounts history (s.after ops).heard := by
  induction ops generalizing s with
  | nil => exact h
  | cons op ops ih => exact ih (h.op op)

/-- From an empty ledger of any size on, whatever it is asked, the losses balance, the receptions
are counted, every number is in its own slot, and a reset gives the empty ledger back. -/
theorem losses_accounted_once (history : Nat) (ops : List LedgerOp) :
    let s := LedgerSession.after { ledger := ofHistory history } ops
    s.ledger.Accounts history s.heard ∧ s.op .reset = { ledger := ofHistory history } := by
  intro s
  have h : s.ledger.Accounts history s.heard :=
    Accounts.after (s := ⟨ofHistory history, []⟩) (accounts_ofHistory history) ops
  refine ⟨h, ?_⟩
  rw [LedgerSession.op, reset_of_size h.size]

/-- Of four losses one is a false alarm, one is repaired, one gives its slot to a newer number, and
one is still open. -/
example :
    let s := LedgerSession.after { ledger := ofHistory 4 }
      [.call (.declare .zero (.ofNat 65534)), .call (.declare .zero (.ofNat 65535)),
        .call (.declare .zero (.ofNat 0)), .call (.declare .zero (.ofNat 1)),
        .call (.receive .zero (.ofNat 65535)), .call (.repair (.ofNat 0)),
        .call (.receive .zero (.ofNat 2)), .call (.receive .zero (.ofNat 65534))]
    s.ledger.totals = {
      received := 3, assumedLost := 4, falsePositives := 1, recovered := 1, confirmedLost := 1
      stale := 1 } ∧ s.ledger.openLosses = 1 := by
  decide +kernel

end LossLedger
end LossWatch
