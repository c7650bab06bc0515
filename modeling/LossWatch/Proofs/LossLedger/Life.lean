import LossWatch.LossLedger
import LossWatch.Proofs.SequenceNumber.Window

/-!
What a ledger records of one number, as long as all numbers lie in one window. Its slot is only ever
given to newer numbers, so once something was recorded of the number, the slot either still tells what
that was or belongs to a newer number, and then nothing is recorded of it any more. So a number is
declared lost at most once, before it or its repair has arrived, and it arrives at most once after.
-/

namespace LossWatch

/-- What may be recorded of a number, in order. -/
inductive LossMark
  | lost
  | late
  | arrived
  | repaired
deriving DecidableEq

namespace LossMark

/-- A number is lost at most once, and then found or repaired at most once. -/
def Possible (marks : List LossMark) : Prop :=
  marks ∈ [[], [.lost], [.lost, .late], [.lost, .repaired], [.arrived], [.repaired]]

variable {marks pre post : List LossMark} {m : LossMark}

theorem Possible.not_lost_after (h : Possible (pre ++ m :: post)) (hm : m ≠ .lost) :
    LossMark.lost ∉ post := by
  unfold Possible at h
  rcases pre with _ | ⟨a, _ | ⟨b, pre⟩⟩ <;> simp_all
  · grind
  · grind

theorem Possible.before_late (h : Possible (pre ++ .late :: post)) : pre = [.lost] := by
  unfold Possible at h
  rcases pre with _ | ⟨a, _ | ⟨b, pre⟩⟩ <;> simp_all

end LossMark

namespace Reception

def isRecorded : Reception → Bool
  | .fresh | .falsePositive _ | .recovered => true
  | .duplicate | .stale => false

def arrivalMark : Reception → List LossMark
  | .fresh | .recovered => [.arrived]
  | .falsePositive _ => [.late]
  | .duplicate | .stale => []

def repairMark : Reception → List LossMark
  | .fresh | .falsePositive _ | .recovered => [.repaired]
  | .duplicate | .stale => []

end Reception

namespace LossLedger

variable {base x s : SeqNumber} {l l' : LossLedger} {st st' : PacketStatus} {now : Timestamp}

/-! ### Writing a slot -/

theorem slots_store? (h : l.store? x st = some l') :
    l.overtaken x = false ∧
      l'.slots = l.slots.setIfInBounds (l.index x) (some ⟨x, st⟩) := by
  unfold store? at h
  by_cases ho : l.overtaken x = true
  · rw [if_pos ho] at h
    exact absurd h (by simp)
  · rw [if_neg ho, Option.some.injEq] at h
    exact ⟨by simpa using ho, by rw [← h]⟩

theorem history_store? (h : l.store? x st = some l') : l'.history = l.history := by
  unfold history
  rw [(slots_store? h).2, Array.size_setIfInBounds]

theorem history_assumeLost? (h : l.assumeLost? now x = some l') : l'.history = l.history := by
  unfold assumeLost? at h
  split at h
  · exact absurd h (by simp)
  · obtain ⟨l₁, h₁, rfl⟩ := Option.map_eq_some_iff.mp h
    show l₁.history = l.history
    exact history_store? h₁

theorem history_clearHistory (l : LossLedger) : l.clearHistory.history = l.history :=
  Array.size_replicate

theorem store?_isSome (h : l.overtaken x = false) : ∃ l', l.store? x st = some l' := by
  unfold store?
  rw [if_neg (by simp [h])]
  exact ⟨_, rfl⟩

theorem occupant_of_slots (hs : l'.slots = l.slots) (s : SeqNumber) :
    l'.occupant s = l.occupant s := by
  unfold occupant index
  rw [hs]

theorem occupant_of_index (hi : l.index s = l.index x) : l.occupant s = l.occupant x := by
  rw [occupant, hi, occupant]

theorem status_of_occupant (h : l'.occupant s = l.occupant s) : l'.status s = l.status s := by
  unfold status
  rw [h]

theorem overtaken_of_occupant (h : l'.occupant s = l.occupant s) :
    l'.overtaken s = l.overtaken s := by
  unfold overtaken
  rw [h]

theorem occupant_store? (hpos : 0 < l.slots.size) (h : l.store? x st = some l') (s : SeqNumber) :
    l'.occupant s = if l.index s = l.index x then some ⟨x, st⟩ else l.occupant s := by
  have hslots := (slots_store? h).2
  have hindex : l'.index s = l.index s := by
    unfold index
    rw [hslots, Array.size_setIfInBounds]
  have hlt : l.index x < l.slots.size := Nat.mod_lt _ hpos
  unfold occupant
  rw [hindex, hslots, Array.getElem?_setIfInBounds]
  by_cases hi : l.index s = l.index x
  · rw [if_pos hi, if_pos hi.symm, if_pos (hi ▸ hlt)]
    rfl
  · rw [if_neg hi, if_neg (fun he => hi he.symm)]

theorem status_eq_some_iff : l.status s = some st ↔ l.occupant s = some ⟨s, st⟩ := by
  unfold status
  rw [Option.map_eq_some_iff]
  constructor
  · intro h
    obtain ⟨e, he, rfl⟩ := h
    obtain ⟨ho, hseq⟩ := Option.filter_eq_some_iff.mp he
    rw [ho, ← of_decide_eq_true hseq]
  · intro h
    exact ⟨⟨s, st⟩, by simp [h, Option.filter], rfl⟩

theorem isResolved_iff : l.isResolved s = true ↔ ∃ st, l.occupant s = some ⟨s, st⟩ := by
  simp only [isResolved, Option.isSome_iff_exists, status_eq_some_iff]

theorem overtaken_eq_true_iff :
    l.overtaken s = true ↔ ∃ e, l.occupant s = some e ∧ e.seq.newer s = true := by
  unfold overtaken
  rw [Option.any_eq_true]

theorem not_newer_of_store? {e : LedgerEntry} (h : l.store? x st = some l')
    (hi : l.index s = l.index x) (ho : l.occupant s = some e) : ¬ e.seq.newer x = true := by
  intro hnewer
  rw [occupant_of_index hi] at ho
  have hover : l.overtaken x = true := overtaken_eq_true_iff.mpr ⟨e, ho, hnewer⟩
  rw [(slots_store? h).1] at hover
  exact absurd hover Bool.false_ne_true

theorem status_of_overtaken (h : l.overtaken s = true) : l.status s = none := by
  obtain ⟨e, ho, hn⟩ := overtaken_eq_true_iff.mp h
  rw [Option.eq_none_iff_forall_ne_some]
  intro st hst
  rw [status_eq_some_iff, ho] at hst
  have hseq : e.seq = s := congrArg LedgerEntry.seq (Option.some.inj hst)
  rw [hseq, SeqNumber.not_newer_self] at hn
  simp at hn

theorem status_store?_self (hpos : 0 < l.slots.size) (h : l.store? x st = some l') :
    l'.status x = some st := by
  rw [status_eq_some_iff, occupant_store? hpos h, if_pos rfl]

/-! ### Writing another number's slot -/

structure Windowed (base : SeqNumber) (l : LossLedger) : Prop where
  size_pos : 0 < l.slots.size
  inWindow : ∀ {s e}, l.occupant s = some e → e.seq.InWindow base

theorem Windowed.of_slots (hw : l.Windowed base) (hs : l'.slots = l.slots) : l'.Windowed base :=
  ⟨by rw [hs]; exact hw.size_pos,
    fun {s _} ho => hw.inWindow (s := s) (by rw [← occupant_of_slots hs]; exact ho)⟩

theorem Windowed.store? (hw : l.Windowed base) (hx : x.InWindow base)
    (h : l.store? x st = some l') : l'.Windowed base := by
  constructor
  · rw [(slots_store? h).2, Array.size_setIfInBounds]
    exact hw.size_pos
  · intro s e ho
    rw [occupant_store? hw.size_pos h] at ho
    by_cases hi : l.index s = l.index x
    · rw [if_pos hi, Option.some.injEq] at ho
      rw [← ho]
      exact hx
    · rw [if_neg hi] at ho
      exact hw.inWindow ho

theorem status_store?_of_none (hpos : 0 < l.slots.size) (h : l.store? x st = some l')
    (hne : s ≠ x) (hs : l.status s = none) : l'.status s = none := by
  by_cases hi : l.index s = l.index x
  · rw [Option.eq_none_iff_forall_ne_some]
    intro st' hst'
    rw [status_eq_some_iff, occupant_store? hpos h, if_pos hi] at hst'
    exact hne (congrArg LedgerEntry.seq (Option.some.inj hst')).symm
  · have ho := occupant_store? hpos h s
    rw [if_neg hi] at ho
    rw [status_of_occupant ho, hs]

theorem status_store?_of_some (hw : l.Windowed base) (hx : x.InWindow base)
    (hs : s.InWindow base) (h : l.store? x st = some l') (hne : s ≠ x)
    (hst : l.status s = some st') : l'.status s = some st' ∨ l'.overtaken s = true := by
  have ho := occupant_store? hw.size_pos h s
  by_cases hi : l.index s = l.index x
  · right
    rw [if_pos hi] at ho
    have hnot : ¬ s.newer x = true := not_newer_of_store? h hi (status_eq_some_iff.mp hst)
    exact overtaken_eq_true_iff.mpr ⟨_, ho, SeqNumber.newer_of_not_newer hs hx hne hnot⟩
  · left
    rw [if_neg hi] at ho
    rw [status_of_occupant ho, hst]

theorem overtaken_store? (hw : l.Windowed base) (hx : x.InWindow base) (hs : s.InWindow base)
    (h : l.store? x st = some l') (hover : l.overtaken s = true) : l'.overtaken s = true := by
  have ho := occupant_store? hw.size_pos h s
  by_cases hi : l.index s = l.index x
  · rw [if_pos hi] at ho
    obtain ⟨e, he, hn⟩ := overtaken_eq_true_iff.mp hover
    have hwin := hw.inWindow he
    have hnot := not_newer_of_store? h hi he
    refine overtaken_eq_true_iff.mpr ⟨_, ho, ?_⟩
    by_cases heq : e.seq = x
    · rw [← heq]
      exact hn
    · exact SeqNumber.newer_trans hx hwin hs (SeqNumber.newer_of_not_newer hwin hx heq hnot) hn
  · rw [if_neg hi] at ho
    rw [overtaken_of_occupant ho]
    exact hover

/-! ### What the slot shows of the marks -/

/-- The slot tells a status of this kind, or belongs to a newer number. -/
def Tells (l : LossLedger) (s : SeqNumber) (kind : PacketStatus → Prop) : Prop :=
  (∃ st, l.status s = some st ∧ kind st) ∨ l.overtaken s = true

theorem Tells.store? {kind : PacketStatus → Prop} (ht : l.Tells s kind) (hw : l.Windowed base)
    (hx : x.InWindow base) (hs : s.InWindow base) (h : l.store? x st = some l') (hne : s ≠ x) :
    l'.Tells s kind := by
  rcases ht with ⟨st', hst, hkind⟩ | hover
  · rcases status_store?_of_some hw hx hs h hne hst with hst' | hover
    · exact Or.inl ⟨st', hst', hkind⟩
    · exact Or.inr hover
  · exact Or.inr (overtaken_store? hw hx hs h hover)

def IsLoss (st : PacketStatus) : Prop := ∃ t, st = .assumedLost t

/-- The ledger fits these marks of the number, and no others are possible. -/
def Shows (l : LossLedger) (s : SeqNumber) : List LossMark → Prop
  | [] => l.status s = none
  | [.lost] => l.Tells s IsLoss
  | [.lost, .late] => l.Tells s (¬ IsLoss ·)
  | [.lost, .repaired] => l.Tells s (¬ IsLoss ·)
  | [.arrived] => l.Tells s (¬ IsLoss ·)
  | [.repaired] => l.Tells s (¬ IsLoss ·)
  | _ => False

variable {marks : List LossMark}

theorem shows_cases (hm : l.Shows s marks) :
    (marks = [] ∧ l.status s = none) ∨ (marks = [.lost] ∧ l.Tells s IsLoss) ∨
      marks ∈ [[LossMark.lost, .late], [.lost, .repaired], [.arrived], [.repaired]] ∧
        l.Tells s (¬ IsLoss ·) := by
  unfold Shows at hm
  split at hm <;> simp_all

theorem Shows.possible (hm : l.Shows s marks) : LossMark.Possible marks := by
  unfold LossMark.Possible
  rcases shows_cases hm with ⟨rfl, -⟩ | ⟨rfl, -⟩ | ⟨hmem, -⟩
  · simp
  · simp
  · exact List.mem_cons_of_mem _ (List.mem_cons_of_mem _ hmem)

theorem Shows.of_slots (hm : l.Shows s marks) (h : l'.slots = l.slots) : l'.Shows s marks := by
  have ho := occupant_of_slots h s
  have hstatus := status_of_occupant ho
  have hover := overtaken_of_occupant ho
  unfold Shows Tells at hm ⊢
  rw [hstatus, hover]
  exact hm

theorem Shows.store?_of_ne (hm : l.Shows s marks) (hw : l.Windowed base) (hx : x.InWindow base)
    (hs : s.InWindow base) (h : l.store? x st = some l') (hne : s ≠ x) : l'.Shows s marks := by
  have htells : ∀ kind, l.Tells s kind → l'.Tells s kind :=
    fun kind ht => ht.store? hw hx hs h hne
  have hnone := status_store?_of_none hw.size_pos h hne
  unfold Shows at hm ⊢
  split at hm
  · exact hnone hm
  · exact htells _ hm
  · exact htells _ hm
  · exact htells _ hm
  · exact htells _ hm
  · exact htells _ hm
  · exact hm.elim

theorem Tells.not_open {kind : PacketStatus → Prop} (ht : l.Tells s kind)
    (hs : l.status s = none) : l.overtaken s = true := by
  rcases ht with ⟨st, hst, -⟩ | hover
  · rw [hs] at hst
    exact absurd hst (by simp)
  · exact hover

theorem Tells.kind_of_status {kind : PacketStatus → Prop} (ht : l.Tells s kind)
    (hs : l.status s = some st) : kind st := by
  rcases ht with ⟨st', hst, hkind⟩ | hover
  · rw [hs, Option.some.injEq] at hst
    exact hst ▸ hkind
  · rw [status_of_overtaken hover] at hs
    exact absurd hs (by simp)

theorem Shows.eq_nil (hm : l.Shows s marks) (hs : l.status s = none)
    (hover : l.overtaken s = false) : marks = [] := by
  have hcontra : ∀ kind, ¬ l.Tells s kind := by
    intro kind ht
    have := ht.not_open hs
    simp [hover] at this
  rcases shows_cases hm with ⟨he, -⟩ | ⟨-, ht⟩ | ⟨-, ht⟩
  · exact he
  · exact absurd ht (hcontra _)
  · exact absurd ht (hcontra _)

theorem Shows.eq_lost (hm : l.Shows s marks) (hs : l.status s = some st) (hloss : IsLoss st) :
    marks = [.lost] := by
  rcases shows_cases hm with ⟨-, hn⟩ | ⟨he, -⟩ | ⟨-, ht⟩
  · rw [hn] at hs
    exact absurd hs (by simp)
  · exact he
  · exact absurd hloss (ht.kind_of_status hs)

/-! ### One record -/

theorem overtaken_of_status (h : l.status s = some st) : l.overtaken s = false := by
  cases ho : l.overtaken s with
  | false => rfl
  | true =>
    rw [status_of_overtaken ho] at h
    exact absurd h (by simp)

theorem Shows.assumeLost? (hm : l.Shows s marks) (hw : l.Windowed base) (hx : x.InWindow base)
    (hs : s.InWindow base) (h : l.assumeLost? now x = some l') :
    l'.Windowed base ∧ l'.Shows s (marks ++ if x = s then [.lost] else []) := by
  unfold LossLedger.assumeLost? at h
  by_cases hknown : (l.status x).isSome = true
  · rw [if_pos hknown] at h
    exact absurd h (by simp)
  · rw [if_neg hknown, Option.map_eq_some_iff] at h
    obtain ⟨l₁, h₁, rfl⟩ := h
    have hslots : (l₁.tally fun t => { t with assumedLost := t.assumedLost + 1 }).slots =
        l₁.slots := rfl
    refine ⟨(hw.store? hx h₁).of_slots hslots, Shows.of_slots ?_ hslots⟩
    by_cases hxs : x = s
    · subst hxs
      have hnil := hm.eq_nil (by simpa using hknown) (slots_store? h₁).1
      rw [if_pos rfl, hnil]
      exact Or.inl ⟨_, status_store?_self hw.size_pos h₁, now, rfl⟩
    · rw [if_neg hxs, List.append_nil]
      exact hm.store?_of_ne hw hx hs h₁ (Ne.symm hxs)

/-- What a packet or its repair does to the ledger: nothing, or it writes the slot of `x` and leaves
one mark, which is the first of `x` or follows its loss. -/
inductive Records (l : LossLedger) (x : SeqNumber) : List LossMark → LossLedger → Prop
  | ignored {l' : LossLedger} (slots : l'.slots = l.slots) : Records l x [] l'
  | first {l₁ l' : LossLedger} {st : PacketStatus} {m : LossMark}
      (unknown : l.status x = none) (mark : m = .arrived ∨ m = .repaired)
      (written : l.store? x st = some l₁) (settled : ¬ IsLoss st) (slots : l'.slots = l₁.slots) :
      Records l x [m] l'
  | afterLoss {l₁ l' : LossLedger} {st st' : PacketStatus} {m : LossMark}
      (status : l.status x = some st') (lost : IsLoss st') (mark : m = .late ∨ m = .repaired)
      (written : l.store? x st = some l₁) (settled : ¬ IsLoss st) (slots : l'.slots = l₁.slots) :
      Records l x [m] l'

theorem records_receive (l : LossLedger) (now : Timestamp) (x : SeqNumber) :
    l.Records x (l.receive now x).1.arrivalMark (l.receive now x).2 := by
  unfold receive
  cases hst : l.status x with
  | none =>
    dsimp only
    unfold recordFirst
    cases h : l.store? x .received with
    | none => exact .ignored rfl
    | some l₁ => exact .first hst (.inl rfl) h (by simp [IsLoss]) rfl
  | some st =>
    cases st with
    | assumedLost t =>
      obtain ⟨l₁, h⟩ : ∃ l₁, l.store? x (.falsePositive (now.since t)) = some l₁ :=
        store?_isSome (overtaken_of_status hst)
      simp only [h, Option.getD_some]
      exact .afterLoss hst ⟨t, rfl⟩ (.inl rfl) h (by simp [IsLoss]) rfl
    | received => exact .ignored rfl
    | falsePositive d => exact .ignored rfl
    | recovered => exact .ignored rfl

theorem records_receiveRepair (l : LossLedger) (x : SeqNumber) :
    l.Records x (l.receiveRepair x).1.repairMark (l.receiveRepair x).2 := by
  unfold receiveRepair
  cases hst : l.status x with
  | none =>
    dsimp only
    unfold recordFirst
    cases h : l.store? x .received with
    | none => exact .ignored rfl
    | some l₁ => exact .first hst (.inr rfl) h (by simp [IsLoss]) rfl
  | some st =>
    cases st with
    | assumedLost t =>
      obtain ⟨l₁, h⟩ : ∃ l₁, l.store? x .recovered = some l₁ :=
        store?_isSome (overtaken_of_status hst)
      simp only [h, Option.getD_some]
      exact .afterLoss hst ⟨t, rfl⟩ (.inr rfl) h (by simp [IsLoss]) rfl
    | received => exact .ignored rfl
    | falsePositive d => exact .ignored rfl
    | recovered => exact .ignored rfl

variable {mark : List LossMark}

theorem Records.windowed (h : l.Records x mark l') (hw : l.Windowed base)
    (hx : x.InWindow base) : l'.Windowed base := by
  cases h with
  | ignored slots => exact hw.of_slots slots
  | first _ _ written _ slots => exact (hw.store? hx written).of_slots slots
  | afterLoss _ _ _ written _ slots => exact (hw.store? hx written).of_slots slots

theorem Records.shows_self (h : l.Records x mark l') (hm : l.Shows x marks)
    (hw : l.Windowed base) : l'.Shows x (marks ++ mark) := by
  cases h with
  | ignored slots =>
    rw [List.append_nil]
    exact hm.of_slots slots
  | @first l₁ _ st _ unknown hmark written settled slots =>
    have htells : l₁.Tells x (¬ IsLoss ·) :=
      Or.inl ⟨st, status_store?_self hw.size_pos written, settled⟩
    rw [hm.eq_nil unknown (slots_store? written).1]
    rcases hmark with rfl | rfl
    · exact Shows.of_slots htells slots
    · exact Shows.of_slots htells slots
  | @afterLoss l₁ _ st _ _ status lost hmark written settled slots =>
    have htells : l₁.Tells x (¬ IsLoss ·) :=
      Or.inl ⟨st, status_store?_self hw.size_pos written, settled⟩
    rw [hm.eq_lost status lost]
    rcases hmark with rfl | rfl
    · exact Shows.of_slots htells slots
    · exact Shows.of_slots htells slots

theorem Records.shows_of_ne (h : l.Records x mark l') (hm : l.Shows s marks)
    (hw : l.Windowed base) (hx : x.InWindow base) (hs : s.InWindow base) (hne : s ≠ x) :
    l'.Shows s marks := by
  cases h with
  | ignored slots => exact hm.of_slots slots
  | first _ _ written _ slots => exact (hm.store?_of_ne hw hx hs written hne).of_slots slots
  | afterLoss _ _ _ written _ slots => exact (hm.store?_of_ne hw hx hs written hne).of_slots slots

theorem Records.shows (h : l.Records x mark l') (hm : l.Shows s marks) (hw : l.Windowed base)
    (hx : x.InWindow base) (hs : s.InWindow base) :
    l'.Shows s (marks ++ if x = s then mark else []) := by
  by_cases hxs : x = s
  · subst hxs
    rw [if_pos rfl]
    exact h.shows_self hm hw
  · rw [if_neg hxs, List.append_nil]
    exact h.shows_of_ne hm hw hx hs (Ne.symm hxs)

theorem Records.history (h : l.Records x mark l') : l'.history = l.history := by
  cases h with
  | ignored slots => exact congrArg Array.size slots
  | first _ _ written _ slots => exact (congrArg Array.size slots).trans (history_store? written)
  | afterLoss _ _ _ written _ slots =>
    exact (congrArg Array.size slots).trans (history_store? written)

theorem slots_noteWithdrawn (l : LossLedger) (x : SeqNumber) :
    (l.noteWithdrawn x).slots = l.slots := by
  unfold noteWithdrawn
  split <;> rfl

/-! ### Declarations in a row -/

inductive Declares : LossLedger → List SeqNumber → LossLedger → Prop
  | nil (l : LossLedger) : Declares l [] l
  | cons {l l₁ l' : LossLedger} {now : Timestamp} {x : SeqNumber} {xs : List SeqNumber}
      (first : l.assumeLost? now x = some l₁) (rest : Declares l₁ xs l') : Declares l (x :: xs) l'

theorem Declares.append {l₁ : LossLedger} {xs ys : List SeqNumber} (hx : l.Declares xs l₁)
    (hy : l₁.Declares ys l') : l.Declares (xs ++ ys) l' := by
  induction hx with
  | nil => exact hy
  | cons first _ ih => exact .cons first (ih hy)

theorem Declares.shows {xs : List SeqNumber} (hd : l.Declares xs l') (hm : l.Shows s marks)
    (hw : l.Windowed base) (hs : s.InWindow base) (hxs : ∀ x ∈ xs, x.InWindow base) :
    l'.Windowed base ∧ l'.Shows s (marks ++ (xs.filter (· = s)).map fun _ => .lost) := by
  induction hd generalizing marks with
  | nil => exact ⟨hw, by simpa using hm⟩
  | @cons l l₁ l' now x xs first _ ih =>
    have hx := hxs x (by simp)
    obtain ⟨hw₁, hm₁⟩ := hm.assumeLost? hw hx hs first
    obtain ⟨hw', hm'⟩ := ih hm₁ hw₁ fun y hy => hxs y (by simp [hy])
    refine ⟨hw', ?_⟩
    by_cases hxs' : x = s
    · simpa [hxs'] using hm'
    · simpa [hxs'] using hm'

/-! ### The empty ledger -/

theorem occupant_ofHistory (history : Nat) (s : SeqNumber) :
    (ofHistory history).occupant s = none := by
  unfold occupant ofHistory
  rw [Array.getElem?_replicate]
  split <;> rfl

theorem ringSize_pos (history : Nat) : 0 < ringSize history :=
  Nat.pos_of_isPowerOfTwo (Nat.isPowerOfTwo_nextPowerOfTwo _)

theorem windowed_ofHistory (base : SeqNumber) (history : Nat) :
    (ofHistory history).Windowed base := by
  constructor
  · show 0 < (Array.replicate (ringSize history) none).size
    rw [Array.size_replicate]
    exact ringSize_pos history
  · intro s e h
    rw [occupant_ofHistory] at h
    exact absurd h (by simp)

theorem shows_ofHistory (history : Nat) (s : SeqNumber) : (ofHistory history).Shows s [] := by
  show (ofHistory history).status s = none
  unfold status
  rw [occupant_ofHistory]
  rfl

end LossLedger
end LossWatch
