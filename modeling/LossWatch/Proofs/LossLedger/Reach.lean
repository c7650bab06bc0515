import LossWatch.Proofs.LossLedger.Memory

/-!
How far back a ledger reaches. Each slot holds a number that belongs into it, so two numbers that
meet in a slot are whole turns of the ring apart, and a number is overtaken only by one at least a
turn ahead of it. A number is settled when it is known or overtaken; no other is left open by a try
to declare it lost. A pass tries its numbers one after another, each in the ledger that the ones before
it have left.
-/

namespace LossWatch.LossLedger

variable {base x n : SeqNumber} {l l' : LossLedger} {st : PacketStatus} {now : Timestamp}
  {e : LedgerEntry}

theorem history_initial : initial.history = 1024 := by
  decide +kernel

/-- An estimator's ledger with every number in its own slot. -/
structure Placed (l : LossLedger) : Prop where
  history : l.history = 1024
  own : ∀ {n e}, l.occupant n = some e → l.index e.seq = l.index n

theorem placed_initial : initial.Placed where
  history := history_initial
  own h := by simp [initial, occupant_ofHistory] at h

theorem occupant_of_store? (hpos : 0 < l.slots.size) (h : l.store? x st = some l')
    (ho : l'.occupant n = some e) : e.seq = x ∨ l.occupant n = some e := by
  rw [occupant_store? hpos h] at ho
  by_cases hi : l.index n = l.index x
  · rw [if_pos hi, Option.some.injEq] at ho
    exact Or.inl (ho ▸ rfl)
  · rw [if_neg hi] at ho
    exact Or.inr ho

theorem mem_slots_of_occupant (h : l.occupant n = some e) : some e ∈ l.slots.toList := by
  rw [occupant, Option.join_eq_some_iff] at h
  exact Array.mem_toList_iff.mpr (Array.mem_of_getElem? h)

theorem slots_receive (h : (l.receive now x).1.isRecorded = false) :
    (l.receive now x).2.slots = l.slots := by
  have hmark : (l.receive now x).1.arrivalMark = [] := by
    cases hr : (l.receive now x).1 <;> simp_all [Reception.isRecorded, Reception.arrivalMark]
  have hrecords := l.records_receive now x
  rw [hmark] at hrecords
  cases hrecords with
  | ignored slots => exact slots

theorem index_of_slots (h : l'.slots.size = l.slots.size) (n : SeqNumber) :
    l'.index n = l.index n := by
  simp only [index, h]

theorem occupant_clearHistory (l : LossLedger) (n : SeqNumber) :
    l.clearHistory.occupant n = none := by
  simp only [occupant, clearHistory, Array.getElem?_replicate]
  split <;> rfl

namespace Placed

theorem size_pos (hl : l.Placed) : 0 < l.slots.size := by
  have h : l.slots.size = 1024 := hl.history
  omega

theorem of_slots (hl : l.Placed) (h : l'.slots = l.slots) : l'.Placed where
  history := (congrArg Array.size h).trans hl.history
  own ho := by
    have hindex := index_of_slots (congrArg Array.size h)
    rw [hindex, hindex]
    exact hl.own (by rwa [occupant_of_slots h] at ho)

theorem store? (hl : l.Placed) (h : l.store? x st = some l') : l'.Placed where
  history := (history_store? h).trans hl.history
  own {n _} ho := by
    have hindex := index_of_slots (history_store? h)
    rw [hindex, hindex]
    rw [occupant_store? hl.size_pos h] at ho
    by_cases hi : l.index n = l.index x
    · rw [if_pos hi, Option.some.injEq] at ho
      rw [← ho, hi]
    · rw [if_neg hi] at ho
      exact hl.own ho

theorem records {mark : List LossMark} (hl : l.Placed) (h : l.Records x mark l') :
    l'.Placed := by
  cases h with
  | ignored slots => exact hl.of_slots slots
  | first _ _ written _ slots => exact (hl.store? written).of_slots slots
  | afterLoss _ _ _ written _ slots => exact (hl.store? written).of_slots slots

theorem occupant_of_records {mark : List LossMark} (hl : l.Placed) (h : l.Records x mark l')
    (ho : l'.occupant n = some e) : (mark ≠ [] ∧ e.seq = x) ∨ l.occupant n = some e := by
  cases h with
  | ignored slots => exact Or.inr (by rwa [occupant_of_slots slots] at ho)
  | first _ _ written _ slots =>
    rw [occupant_of_slots slots] at ho
    exact (occupant_of_store? hl.size_pos written ho).imp_left fun he => ⟨by simp, he⟩
  | afterLoss _ _ _ written _ slots =>
    rw [occupant_of_slots slots] at ho
    exact (occupant_of_store? hl.size_pos written ho).imp_left fun he => ⟨by simp, he⟩

theorem clearHistory (hl : l.Placed) : l.clearHistory.Placed where
  history := (history_clearHistory l).trans hl.history
  own {n _} ho := by
    rw [occupant_clearHistory] at ho
    exact absurd ho (by simp)

theorem status_of_holds (hl : l.Placed) (h : l.occupant n = some e) :
    l.status e.seq = some e.status := by
  have hsame : l.occupant e.seq = l.occupant n := by
    simp only [occupant, hl.own h]
  exact status_eq_some_iff.mpr (hsame.trans h)

theorem windowed (hl : l.Placed) (h : ∀ n, l.isResolved n = true → n.InWindow base) :
    l.Windowed base where
  size_pos := hl.size_pos
  inWindow ho := h _ (by simp only [isResolved, hl.status_of_holds ho, Option.isSome_some])

/-- Numbers with one slot are whole turns of the ring apart. -/
theorem turns (hl : l.Placed) (h : l.occupant n = some e) : e.seq.ahead n % 1024 = 0 := by
  have hsize : l.slots.size = 1024 := hl.history
  have hindex : e.seq.raw % l.slots.size = n.raw % l.slots.size := hl.own h
  have he := e.seq.raw_lt
  have hn := n.raw_lt
  rw [hsize] at hindex
  simp only [SeqNumber.ahead]
  omega

theorem of_overtaken (hl : l.Placed) (h : l.overtaken n = true) :
    ∃ e, l.occupant n = some e ∧ e.seq.newer n = true ∧ 1024 ≤ e.seq.ahead n := by
  obtain ⟨e, ho, hnewer⟩ := overtaken_eq_true_iff.mp h
  have hturns := hl.turns ho
  have hpos := (SeqNumber.newer_eq_true_iff.mp hnewer).1
  exact ⟨e, ho, hnewer, by omega⟩

end Placed

/-! ### Settled numbers -/

/-- The number is known, or its slot belongs to a newer one. -/
def Settled (l : LossLedger) (n : SeqNumber) : Prop := l.Tells n fun _ => True

theorem settled_iff : l.Settled n ↔ l.isResolved n = true ∨ l.overtaken n = true := by
  simp only [Settled, Tells, and_true, isResolved, Option.isSome_iff_exists]

theorem settled_iff_occupant :
    l.Settled n ↔ ∃ e, l.occupant n = some e ∧ e.seq.ahead n < 32768 := by
  constructor
  · rintro (⟨st, hst, -⟩ | hover)
    · exact ⟨_, status_eq_some_iff.mp hst, by simp [SeqNumber.ahead_self]⟩
    · obtain ⟨e, ho, hnewer⟩ := overtaken_eq_true_iff.mp hover
      exact ⟨e, ho, SeqNumber.inWindow_of_newer hnewer⟩
  · rintro ⟨e, ho, hahead⟩
    rcases Nat.eq_zero_or_pos (e.seq.ahead n) with hzero | hpos
    · obtain rfl : e.seq = n := SeqNumber.ahead_inj (hzero.trans (SeqNumber.ahead_self n).symm)
      exact Or.inl ⟨e.status, status_eq_some_iff.mpr ho, trivial⟩
    · have hnewer := SeqNumber.newer_eq_true_iff.mpr ⟨hpos, hahead⟩
      exact Or.inr (overtaken_eq_true_iff.mpr ⟨e, ho, hnewer⟩)

theorem assumeLost?_eq_none_iff : l.assumeLost? now n = none ↔ l.Settled n := by
  rw [settled_iff]
  simp only [assumeLost?, isResolved, LossLedger.store?]
  cases l.status n with
  | some st => simp
  | none => cases l.overtaken n <;> simp

theorem store?_of_assumeLost? (h : l.assumeLost? now n = some l') :
    ¬ l.Settled n ∧ ∃ l₁, l.store? n (.assumedLost now) = some l₁ ∧ l'.slots = l₁.slots := by
  have hopen : ¬ l.Settled n := by
    intro hs
    simp [assumeLost?_eq_none_iff.mpr hs] at h
  have hunknown : ¬ (l.status n).isSome = true := fun hs => hopen (settled_iff.mpr (Or.inl hs))
  rw [LossLedger.assumeLost?, if_neg hunknown, Option.map_eq_some_iff] at h
  obtain ⟨l₁, hl₁, rfl⟩ := h
  exact ⟨hopen, l₁, hl₁, rfl⟩

theorem written_of_assumeLost? (hpos : 0 < l.slots.size) (h : l.assumeLost? now n = some l') :
    ¬ l.Settled n ∧ ∀ m, l'.occupant m =
      if l.index m = l.index n then some ⟨n, .assumedLost now⟩ else l.occupant m := by
  obtain ⟨hopen, l₁, hl₁, hslots⟩ := store?_of_assumeLost? h
  refine ⟨hopen, fun m => ?_⟩
  rw [occupant_of_slots hslots, occupant_store? hpos hl₁]

theorem not_settled_assumeLost? (hpos : 0 < l.slots.size) (h : l.assumeLost? now x = some l')
    (hopen : ¬ l.Settled n) (hnewer : n.newer x = true) : ¬ l'.Settled n := by
  rw [settled_iff_occupant] at hopen ⊢
  rintro ⟨e, ho, hahead⟩
  rw [(written_of_assumeLost? hpos h).2 n] at ho
  by_cases hi : l.index n = l.index x
  · rw [if_pos hi, Option.some.injEq] at ho
    have hless : x.ahead n < 32768 := by rwa [← ho] at hahead
    have hbehind := SeqNumber.ahead_of_newer hnewer
    omega
  · rw [if_neg hi] at ho
    exact hopen ⟨e, ho, hahead⟩

theorem Placed.assumeLost? (hl : l.Placed) (h : l.assumeLost? now x = some l') : l'.Placed := by
  obtain ⟨-, l₁, hl₁, hslots⟩ := store?_of_assumeLost? h
  exact (hl.store? hl₁).of_slots hslots

theorem Placed.occupant_of_declares {ns : List SeqNumber} (hl : l.Placed) (h : l.Declares ns l')
    (ho : l'.occupant n = some e) : e.seq ∈ ns ∨ l.occupant n = some e := by
  induction h with
  | nil => exact Or.inr ho
  | @cons l l₁ _ now x xs first _ ih =>
    rcases ih (hl.assumeLost? first) ho with hx | ho
    · exact Or.inl (List.mem_cons_of_mem _ hx)
    · rw [(written_of_assumeLost? hl.size_pos first).2 n] at ho
      by_cases hi : l.index n = l.index x
      · rw [if_pos hi, Option.some.injEq] at ho
        exact Or.inl (ho ▸ List.mem_cons_self)
      · rw [if_neg hi] at ho
        exact Or.inr ho

/-! ### Tries in a row -/

/-- The numbers are tried one after another, and those that were open are declared lost. -/
inductive Tries : LossLedger → List SeqNumber → LossLedger → List SeqNumber → Prop
  | nil (l : LossLedger) : Tries l [] l []
  | settled {l l' : LossLedger} {n : SeqNumber} {ns lost : List SeqNumber}
      (known : l.Settled n) (rest : Tries l ns l' lost) : Tries l (n :: ns) l' lost
  | lost {l l₁ l' : LossLedger} {now : Timestamp} {n : SeqNumber} {ns lost : List SeqNumber}
      (written : l.assumeLost? now n = some l₁) (rest : Tries l₁ ns l' lost) :
      Tries l (n :: ns) l' (n :: lost)

variable {ns lost : List SeqNumber}

theorem Tries.placed (h : l.Tries ns l' lost) (hl : l.Placed) : l'.Placed := by
  induction h with
  | nil => exact hl
  | settled _ _ ih => exact ih hl
  | lost written _ ih => exact ih (hl.assumeLost? written)

theorem Tries.sublist (h : l.Tries ns l' lost) : lost.Sublist ns := by
  induction h with
  | nil => exact .refl _
  | settled _ _ ih => exact ih.cons _
  | lost _ _ ih => exact ih.cons_cons _

theorem Tries.subset (h : l.Tries ns l' lost) : lost ⊆ ns := h.sublist.subset

theorem Tries.length_le (h : l.Tries ns l' lost) : lost.length ≤ ns.length := h.sublist.length_le

def assumeAll (l : LossLedger) (now : Timestamp) (ns : List SeqNumber) : LossLedger :=
  ns.foldl (fun l n => (l.assumeLost? now n).getD l) l

theorem assumeAll_cons (l : LossLedger) (now : Timestamp) (n : SeqNumber) (ns : List SeqNumber) :
    l.assumeAll now (n :: ns) = ((l.assumeLost? now n).getD l).assumeAll now ns := rfl

/-- What the pass finds open. -/
def openAlong (l : LossLedger) (now : Timestamp) : List SeqNumber → List SeqNumber
  | [] => []
  | n :: ns =>
    match l.assumeLost? now n with
    | none => l.openAlong now ns
    | some l => n :: l.openAlong now ns

theorem tries_assumeAll (l : LossLedger) (now : Timestamp) (ns : List SeqNumber) :
    l.Tries ns (l.assumeAll now ns) (l.openAlong now ns) := by
  induction ns generalizing l with
  | nil => exact .nil l
  | cons n ns ih =>
    rw [assumeAll_cons, openAlong]
    cases h : l.assumeLost? now n with
    | none => exact .settled (assumeLost?_eq_none_iff.mp h) (ih l)
    | some l₁ => exact .lost h (ih l₁)

theorem openAlong_sublist (l : LossLedger) (now : Timestamp) (ns : List SeqNumber) :
    (l.openAlong now ns).Sublist ns := (l.tries_assumeAll now ns).sublist

theorem mem_openAlong_iff {pre post : List SeqNumber} (hnodup : (pre ++ n :: post).Nodup) :
    n ∈ l.openAlong now (pre ++ n :: post) ↔ ¬ (l.assumeAll now pre).Settled n := by
  induction pre generalizing l with
  | nil =>
    have hpost : ∀ {l : LossLedger}, n ∉ l.openAlong now post := fun hn =>
      (List.nodup_cons.mp hnodup).1 ((openAlong_sublist _ now post).subset hn)
    have hsettled : l.assumeLost? now n = none ↔ l.Settled n := assumeLost?_eq_none_iff
    rw [List.nil_append, openAlong, assumeAll, List.foldl_nil, ← hsettled]
    cases l.assumeLost? now n with
    | none => simp [hpost]
    | some l₁ => simp
  | cons m pre ih =>
    obtain ⟨hm, hrest⟩ := List.nodup_cons.mp hnodup
    have hne : n ≠ m := fun he => hm (by simp [he])
    rw [List.cons_append, openAlong, assumeAll_cons]
    cases l.assumeLost? now m with
    | none => exact ih hrest
    | some l₁ => exact (List.mem_cons.trans (or_iff_right hne)).trans (ih hrest)

/-! ### Settled for good -/

theorem Settled.of_status (h : l.status n = some st) : l.Settled n :=
  Or.inl ⟨st, h, trivial⟩

theorem Settled.of_slots (h : l.Settled n) (hs : l'.slots = l.slots) : l'.Settled n := by
  have ho := occupant_of_slots hs n
  unfold Settled Tells at h ⊢
  rwa [LossLedger.status_of_occupant ho, overtaken_of_occupant ho]

theorem Settled.store? (h : l.Settled n) (hw : l.Windowed base) (hx : x.InWindow base)
    (hn : n.InWindow base) (hs : l.store? x st = some l') : l'.Settled n := by
  by_cases hne : n = x
  · exact hne ▸ .of_status (status_store?_self hw.size_pos hs)
  · exact Tells.store? h hw hx hn hs hne

theorem Settled.records {mark : List LossMark} (h : l.Settled n) (hw : l.Windowed base)
    (hx : x.InWindow base) (hn : n.InWindow base) (hr : l.Records x mark l') : l'.Settled n := by
  cases hr with
  | ignored slots => exact h.of_slots slots
  | first _ _ written _ slots => exact (h.store? hw hx hn written).of_slots slots
  | afterLoss _ _ _ written _ slots => exact (h.store? hw hx hn written).of_slots slots

theorem Tries.settles (h : l.Tries [x] l' lost) (hw : l.Windowed base) (hx : x.InWindow base) :
    l'.Windowed base ∧ l'.Settled x ∧ ∀ n, n.InWindow base → l.Settled n → l'.Settled n := by
  cases h with
  | settled known rest =>
    cases rest with
    | nil => exact ⟨hw, known, fun _ _ => id⟩
  | lost written rest =>
    cases rest with
    | nil =>
      obtain ⟨-, l₁, hl₁, hslots⟩ := store?_of_assumeLost? written
      exact ⟨(hw.store? hx hl₁).of_slots hslots,
        (Settled.of_status (status_store?_self hw.size_pos hl₁)).of_slots hslots,
        fun n hn hs => (hs.store? hw hx hn hl₁).of_slots hslots⟩

theorem settled_recordFirst (hpos : 0 < l.slots.size) (x : SeqNumber) :
    (l.recordFirst x).2.Settled x := by
  unfold recordFirst
  cases h : l.store? x .received with
  | some l₁ => exact (Settled.of_status (status_store?_self hpos h)).of_slots rfl
  | none =>
    have hover : l.overtaken x = true := by
      cases ho : l.overtaken x with
      | true => rfl
      | false =>
        obtain ⟨l', hl'⟩ : ∃ l', l.store? x .received = some l' := store?_isSome ho
        simp [hl'] at h
    exact Settled.of_slots (l := l) (Or.inr hover) rfl

theorem settled_store?_getD (hpos : 0 < l.slots.size) (hknown : l.status x = some st)
    (st' : PacketStatus) : ((l.store? x st').getD l).Settled x := by
  obtain ⟨l', hl'⟩ : ∃ l', l.store? x st' = some l' := store?_isSome (overtaken_of_status hknown)
  rw [hl', Option.getD_some]
  exact .of_status (status_store?_self hpos hl')

theorem settled_receive (hpos : 0 < l.slots.size) (now : Timestamp) (x : SeqNumber) :
    (l.receive now x).2.Settled x := by
  unfold receive
  cases hst : l.status x with
  | none => exact settled_recordFirst hpos x
  | some st =>
    have hsame : l.countDuplicate.Settled x := (Settled.of_status hst).of_slots rfl
    cases st with
    | assumedLost t =>
      exact (settled_store?_getD hpos hst (.falsePositive (now.since t))).of_slots rfl
    | received => exact hsame
    | falsePositive d => exact hsame
    | recovered => exact hsame

theorem settled_receiveRepair (hpos : 0 < l.slots.size) (x : SeqNumber) :
    (l.receiveRepair x).2.Settled x := by
  unfold receiveRepair
  cases hst : l.status x with
  | none => exact settled_recordFirst hpos x
  | some st =>
    have hsame : l.countDuplicate.Settled x := (Settled.of_status hst).of_slots rfl
    cases st with
    | assumedLost t => exact (settled_store?_getD hpos hst .recovered).of_slots rfl
    | received => exact hsame
    | falsePositive d => exact hsame
    | recovered => exact hsame

end LossWatch.LossLedger
