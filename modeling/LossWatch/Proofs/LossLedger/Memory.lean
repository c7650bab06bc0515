import LossWatch.Proofs.LossLedger.Life

/-!
How long a ledger remembers a declared loss. The declaration stays in its slot until something is
recorded of the number itself or of another number with the same slot.
-/

namespace LossWatch

def SeqNumber.SharesSlot (a b : SeqNumber) : Prop :=
  LossLedger.initial.index a = LossLedger.initial.index b

instance (a b : SeqNumber) : Decidable (a.SharesSlot b) :=
  inferInstanceAs (Decidable (LossLedger.initial.index a = LossLedger.initial.index b))

namespace LossLedger

variable {x s : SeqNumber} {l l' : LossLedger} {st : PacketStatus} {now : Timestamp}

theorem history_initial_pos : 0 < initial.history :=
  (windowed_ofHistory (.ofNat 0) 1024).size_pos

theorem sharesSlot_iff (h : l.history = initial.history) :
    x.SharesSlot s ↔ l.index x = l.index s := by
  have hindex : ∀ n : SeqNumber, initial.index n = l.index n := fun n =>
    congrArg (n.raw % ·) h.symm
  unfold SeqNumber.SharesSlot
  rw [hindex, hindex]

theorem isAssumedLost_iff : l.isAssumedLost s = true ↔ ∃ st, l.status s = some st ∧ IsLoss st := by
  unfold isAssumedLost IsLoss
  cases l.status s with
  | none => simp
  | some st => cases st <;> simp

theorem isAssumedLost_of_status (h : l'.status s = l.status s) :
    l'.isAssumedLost s = l.isAssumedLost s := by
  unfold isAssumedLost
  rw [h]

theorem isAssumedLost_of_slots (h : l'.slots = l.slots) :
    l'.isAssumedLost s = l.isAssumedLost s :=
  isAssumedLost_of_status (status_of_occupant (occupant_of_slots h s))

theorem isAssumedLost_store?_of_apart (hl : l.history = initial.history)
    (h : l.store? x st = some l') (hx : ¬ x.SharesSlot s) :
    l'.isAssumedLost s = l.isAssumedLost s := by
  have hpos : 0 < l.slots.size := Nat.lt_of_lt_of_eq history_initial_pos hl.symm
  have hindex : l.index s ≠ l.index x := fun he => hx ((sharesSlot_iff hl).mpr he.symm)
  have hoccupant := occupant_store? hpos h s
  rw [if_neg hindex] at hoccupant
  exact isAssumedLost_of_status (status_of_occupant hoccupant)

theorem Records.isAssumedLost_of_apart {mark : List LossMark} (h : l.Records x mark l')
    (hl : l.history = initial.history) (hx : ¬ x.SharesSlot s) :
    l'.isAssumedLost s = l.isAssumedLost s := by
  cases h with
  | ignored slots => exact isAssumedLost_of_slots slots
  | first _ _ written _ slots =>
    rw [isAssumedLost_of_slots slots, isAssumedLost_store?_of_apart hl written hx]
  | afterLoss _ _ _ written _ slots =>
    rw [isAssumedLost_of_slots slots, isAssumedLost_store?_of_apart hl written hx]

theorem receive_of_isAssumedLost (h : l.isAssumedLost s = true) (now : Timestamp) :
    ∃ lateBy, (l.receive now s).1 = .falsePositive lateBy := by
  obtain ⟨st, hst, t, rfl⟩ := isAssumedLost_iff.mp h
  exact ⟨now.since t, by simp only [receive, hst]⟩

theorem isAssumedLost_assumeLost? (hl : l.history = initial.history)
    (h : l.assumeLost? now x = some l') (hx : x = s ∨ ¬ x.SharesSlot s)
    (hs : x = s ∨ l.isAssumedLost s = true) : l'.isAssumedLost s = true := by
  have hpos : 0 < l.slots.size := Nat.lt_of_lt_of_eq history_initial_pos hl.symm
  unfold assumeLost? at h
  split at h
  · exact absurd h (by simp)
  · obtain ⟨l₁, h₁, rfl⟩ := Option.map_eq_some_iff.mp h
    show l₁.isAssumedLost s = true
    rcases hx with rfl | hx
    · exact isAssumedLost_iff.mpr ⟨_, status_store?_self hpos h₁, now, rfl⟩
    · rw [isAssumedLost_store?_of_apart hl h₁ hx]
      exact hs.resolve_left fun he => hx (he ▸ rfl)

theorem Declares.isAssumedLost {xs : List SeqNumber} (hd : l.Declares xs l')
    (hl : l.history = initial.history) (hxs : ∀ x ∈ xs, x = s ∨ ¬ x.SharesSlot s)
    (hs : s ∈ xs ∨ l.isAssumedLost s = true) : l'.isAssumedLost s = true := by
  induction hd with
  | nil => simpa using hs
  | @cons l l₁ l' now x xs first _ ih =>
    have hrest : ∀ y ∈ xs, y = s ∨ ¬ y.SharesSlot s := fun y hy => hxs y (by simp [hy])
    apply ih ((history_assumeLost? first).trans hl) hrest
    by_cases hmem : s ∈ xs
    · exact Or.inl hmem
    · have hhere : x = s ∨ l.isAssumedLost s = true := by
        rcases hs with hs | hs
        · exact Or.inl ((List.mem_cons.mp hs).resolve_right hmem).symm
        · exact Or.inr hs
      exact Or.inr (isAssumedLost_assumeLost? hl first (hxs x (by simp)) hhere)

end LossLedger
end LossWatch
