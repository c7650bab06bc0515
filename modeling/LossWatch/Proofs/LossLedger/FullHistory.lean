import LossWatch.Proofs.LossLedger.Reach

/-!
A ledger beside one that never forgets. The full history keeps the status of every number for good.
As long as all numbers lie in one window, a slot only ever moves on to newer numbers of its class, so
it holds the newest number recorded of the class, with the status the full history has for it. Hence
a ledger answers like the full history about every number that no newer one of its class was recorded
beside, and it refuses all others.
-/

namespace LossWatch

inductive LedgerCall
  | declare (now : Timestamp) (seq : SeqNumber)
  | receive (now : Timestamp) (seq : SeqNumber)
  | repair (seq : SeqNumber)

inductive LedgerAnswer
  | declared (done : Bool)
  | received (reception : Reception)
deriving DecidableEq

def LedgerAnswer.isRecorded : LedgerAnswer → Bool
  | .declared done => done
  | .received reception => reception.isRecorded

namespace LedgerCall

def seq : LedgerCall → SeqNumber
  | .declare _ seq | .receive _ seq | .repair seq => seq

/-- The answer where the status is known, and the status to keep from then on if it changes. -/
def react : LedgerCall → Option PacketStatus → LedgerAnswer × Option PacketStatus
  | .declare now _, none => (.declared true, some (.assumedLost now))
  | .declare _ _, some _ => (.declared false, none)
  | .receive _ _, none | .repair _, none => (.received .fresh, some .received)
  | .receive now _, some (.assumedLost declaredAt) =>
    (.received (.falsePositive (now.since declaredAt)),
      some (.falsePositive (now.since declaredAt)))
  | .repair _, some (.assumedLost _) => (.received .recovered, some .recovered)
  | .receive _ _, some _ | .repair _, some _ => (.received .duplicate, none)

def refusal : LedgerCall → LedgerAnswer
  | .declare _ _ => .declared false
  | .receive _ _ | .repair _ => .received .stale

variable {c : LedgerCall} {old : Option PacketStatus}

theorem isRecorded_react (c : LedgerCall) (old : Option PacketStatus) :
    (c.react old).1.isRecorded = (c.react old).2.isSome := by
  rcases c with _ | _ | _ <;> rcases old with _ | _ | _ | _ | _ <;> rfl

theorem react_known (c : LedgerCall) (old : Option PacketStatus) :
    ((c.react old).2.or old).isSome = true := by
  rcases c with _ | _ | _ <;> rcases old with _ | _ | _ | _ | _ <;> rfl

theorem isRecorded_refusal (c : LedgerCall) : c.refusal.isRecorded = false := by
  cases c <;> rfl

end LedgerCall

/-- The status of every number, kept for good. -/
structure FullHistory where
  status : SeqNumber → Option PacketStatus

namespace FullHistory

def empty : FullHistory := ⟨fun _ => none⟩

def put (m : FullHistory) (seq : SeqNumber) (st : PacketStatus) : FullHistory :=
  ⟨fun n => if n = seq then some st else m.status n⟩

def answer (m : FullHistory) (c : LedgerCall) : LedgerAnswer × FullHistory :=
  ((c.react (m.status c.seq)).1, (c.react (m.status c.seq)).2.elim m (m.put c.seq))

def after (m : FullHistory) : List LedgerCall → FullHistory
  | [] => m
  | c :: calls => (m.answer c).2.after calls

variable {m : FullHistory} {n : SeqNumber} {c : LedgerCall}

theorem status_answer (m : FullHistory) (c : LedgerCall) (n : SeqNumber) :
    (m.answer c).2.status n =
      if n = c.seq then (c.react (m.status c.seq)).2.or (m.status c.seq) else m.status n := by
  unfold answer
  by_cases hn : n = c.seq
  · subst hn
    rw [if_pos rfl]
    cases (c.react (m.status c.seq)).2 with
    | none => rfl
    | some st => exact if_pos rfl
  · rw [if_neg hn]
    cases (c.react (m.status c.seq)).2 with
    | none => rfl
    | some st => exact if_neg hn

theorem known_answer_iff :
    (m.answer c).2.status n ≠ none ↔ n = c.seq ∨ m.status n ≠ none := by
  rw [status_answer]
  by_cases hn : n = c.seq
  · rw [if_pos hn]
    have hknown := c.react_known (m.status c.seq)
    exact iff_of_true (Option.isSome_iff_ne_none.mp hknown) (Or.inl hn)
  · rw [if_neg hn]
    exact ⟨Or.inr, fun h => h.resolve_left hn⟩

end FullHistory

namespace LossLedger

variable {base n s : SeqNumber} {l l' start : LossLedger} {m : FullHistory} {e : LedgerEntry}
  {ns : List SeqNumber} {c : LedgerCall} {history : Nat}

def answer (l : LossLedger) : LedgerCall → LedgerAnswer × LossLedger
  | .declare now seq => (.declared (l.assumeLost? now seq).isSome, (l.assumeLost? now seq).getD l)
  | .receive now seq => (.received (l.receive now seq).1, (l.receive now seq).2)
  | .repair seq => (.received (l.receiveRepair seq).1, (l.receiveRepair seq).2)

def after (l : LossLedger) : List LedgerCall → LossLedger
  | [] => l
  | c :: calls => (l.answer c).2.after calls

/-- The numbers of the calls that were recorded, oldest call first. -/
def recorded (l : LossLedger) : List LedgerCall → List SeqNumber
  | [] => []
  | c :: calls =>
    (if (l.answer c).1.isRecorded then [c.seq] else []) ++ (l.answer c).2.recorded calls

/-! ### One call -/

def Writes (l : LossLedger) (seq : SeqNumber) (l' : LossLedger) : Option PacketStatus → Prop
  | none => l'.slots = l.slots
  | some st => ∃ written, l.store? seq st = some written ∧ l'.slots = written.slots

theorem writes_recordFirst (h : l.overtaken s = false) :
    (l.recordFirst s).1 = .fresh ∧ l.Writes s (l.recordFirst s).2 (some .received) := by
  obtain ⟨written, hw⟩ : ∃ written, l.store? s .received = some written := store?_isSome h
  unfold recordFirst
  rw [hw]
  exact ⟨rfl, written, hw, rfl⟩

theorem writes_getD {st : PacketStatus} (h : l.overtaken s = false) (f : LossTotals → LossTotals) :
    l.Writes s (((l.store? s st).getD l).tally f) (some st) := by
  obtain ⟨written, hw⟩ : ∃ written, l.store? s st = some written := store?_isSome h
  rw [hw]
  exact ⟨written, hw, rfl⟩

/-- About a number whose slot no newer one owns, the answer depends on its status alone. -/
theorem answer_of_open (h : l.overtaken c.seq = false) :
    (l.answer c).1 = (c.react (l.status c.seq)).1 ∧
      l.Writes c.seq (l.answer c).2 (c.react (l.status c.seq)).2 := by
  cases c with
  | declare now seq =>
    obtain ⟨written, hw⟩ : ∃ written, l.store? seq (.assumedLost now) = some written :=
      store?_isSome h
    simp only [answer, LedgerCall.seq, assumeLost?, hw]
    cases l.status seq with
    | none => exact ⟨rfl, written, hw, rfl⟩
    | some st => exact ⟨rfl, rfl⟩
  | receive now seq =>
    have hfirst := writes_recordFirst h
    simp only [answer, LedgerCall.seq, receive] at hfirst ⊢
    rcases l.status seq with _ | _ | declaredAt | _ | _
    · exact ⟨congrArg LedgerAnswer.received hfirst.1, hfirst.2⟩
    · exact ⟨rfl, rfl⟩
    · exact ⟨rfl, writes_getD h _⟩
    · exact ⟨rfl, rfl⟩
    · exact ⟨rfl, rfl⟩
  | repair seq =>
    have hfirst := writes_recordFirst h
    simp only [answer, LedgerCall.seq, receiveRepair] at hfirst ⊢
    rcases l.status seq with _ | _ | declaredAt | _ | _
    · exact ⟨congrArg LedgerAnswer.received hfirst.1, hfirst.2⟩
    · exact ⟨rfl, rfl⟩
    · exact ⟨rfl, writes_getD h _⟩
    · exact ⟨rfl, rfl⟩
    · exact ⟨rfl, rfl⟩

theorem store?_of_overtaken (h : l.overtaken s = true) (st : PacketStatus) :
    l.store? s st = none :=
  if_pos h

/-- A number whose slot belongs to a newer one is refused, and only the stale count may change. -/
theorem refuses_of_overtaken (h : l.overtaken s = true) :
    (∀ now, l.assumeLost? now s = none) ∧ (∀ now, l.receive now s = (.stale, l.countStale)) ∧
      l.receiveRepair s = (.stale, l.countStale) := by
  have hst := status_of_overtaken h
  refine ⟨fun now => ?_, fun now => ?_, ?_⟩
  · simp only [assumeLost?, hst, store?_of_overtaken h]
    rfl
  · simp only [receive, hst, recordFirst, store?_of_overtaken h]
  · simp only [receiveRepair, hst, recordFirst, store?_of_overtaken h]

theorem answer_of_overtaken (h : l.overtaken c.seq = true) :
    (l.answer c).1 = c.refusal ∧ (l.answer c).2.slots = l.slots := by
  obtain ⟨hdeclare, hreceive, hrepair⟩ := refuses_of_overtaken h
  cases c with
  | declare now seq =>
    have hrefused : l.assumeLost? now seq = none := hdeclare now
    simp [answer, hrefused, LedgerCall.refusal]
  | receive now seq =>
    have hrefused : l.receive now seq = (.stale, l.countStale) := hreceive now
    simp only [answer, hrefused]
    exact ⟨rfl, rfl⟩
  | repair seq =>
    have hrefused : l.receiveRepair seq = (.stale, l.countStale) := hrepair
    simp only [answer, hrefused]
    exact ⟨rfl, rfl⟩

theorem history_of_writes {st : Option PacketStatus} (h : l.Writes s l' st) :
    l'.history = l.history := by
  cases st with
  | none => exact congrArg Array.size h
  | some st =>
    obtain ⟨written, hwritten, hslots⟩ := h
    exact (congrArg Array.size hslots).trans (history_store? hwritten)

theorem history_answer (l : LossLedger) (c : LedgerCall) : (l.answer c).2.history = l.history := by
  cases ho : l.overtaken c.seq with
  | true => exact congrArg Array.size (answer_of_overtaken ho).2
  | false => exact history_of_writes (answer_of_open ho).2

theorem history_after (l : LossLedger) (calls : List LedgerCall) :
    (l.after calls).history = l.history := by
  induction calls generalizing l with
  | nil => rfl
  | cons c calls ih => rw [after, ih, history_answer]

/-! ### Classes -/

theorem ringSize_le_ahead (h : n.raw % ringSize history = s.raw % ringSize history)
    (hne : n ≠ s) : ringSize history ≤ n.ahead s := by
  have hn := n.raw_lt
  have hs := s.raw_lt
  have hdiff : n.raw ≠ s.raw := fun he => hne (SeqNumber.ext_raw he)
  obtain ⟨k, hk⟩ : (ringSize history).isPowerOfTwo := Nat.isPowerOfTwo_nextPowerOfTwo _
  rcases Nat.lt_or_ge 16 k with hlarge | hsmall
  · -- The ring holds the whole space, and a class is a single number.
    have hspace : 65536 < ringSize history := by
      rw [hk]
      exact (Nat.pow_lt_pow_iff_right (a := 2) (n := 16) (by decide)).mpr hlarge
    rw [Nat.mod_eq_of_lt (by omega), Nat.mod_eq_of_lt (by omega)] at h
    exact absurd h hdiff
  · obtain ⟨turns, hturns⟩ : ringSize history ∣ 65536 := by
      rw [hk]
      exact Nat.pow_dvd_pow 2 hsmall
    have hclass : (n.raw + 65536) % ringSize history = s.raw % ringSize history := by
      rw [hturns, Nat.add_mul_mod_self_left, h]
    have hdvd : ringSize history ∣ n.ahead s := by
      rw [SeqNumber.ahead, Nat.dvd_mod_iff ⟨turns, hturns⟩]
      exact Nat.dvd_of_mod_eq_zero (Nat.sub_mod_eq_zero_of_mod_eq hclass)
    refine Nat.le_of_dvd ?_ hdvd
    rw [SeqNumber.ahead]
    omega

/-! ### The ring and the full history -/

/-- A ring that stands for the full history `m`, in which the numbers `ns` were recorded. -/
structure StandsFor (base : SeqNumber) (ns : List SeqNumber) (l : LossLedger) (m : FullHistory) :
    Prop where
  size_pos : 0 < l.slots.size
  inWindow : ∀ {n}, m.status n ≠ none → n.InWindow base
  known : ∀ {n}, n ∈ ns → m.status n ≠ none
  owner : ∀ {n e}, l.occupant n = some e →
    e.seq ∈ ns ∧ l.index e.seq = l.index n ∧ m.status e.seq = some e.status
  held : ∀ {n}, m.status n ≠ none → ∃ e, l.occupant n = some e ∧ n.ahead base ≤ e.seq.ahead base

/-- Among the recorded numbers `ns` a newer one shares the slot of `s` in a ring of `size` slots. -/
def Displaced (size : Nat) (ns : List SeqNumber) (s : SeqNumber) : Prop :=
  ∃ n ∈ ns, n.newer s = true ∧ n.raw % size = s.raw % size

instance (size : Nat) (ns : List SeqNumber) (s : SeqNumber) : Decidable (Displaced size ns s) :=
  inferInstanceAs (Decidable (∃ n ∈ ns, n.newer s = true ∧ n.raw % size = s.raw % size))

namespace StandsFor

theorem owner_inWindow (h : l.StandsFor base ns m) (ho : l.occupant n = some e) :
    e.seq.InWindow base := by
  obtain ⟨-, -, hstatus⟩ := h.owner ho
  exact h.inWindow (by rw [hstatus]; exact Option.some_ne_none _)

theorem holds_newer (h : l.StandsFor base ns m) (hn : n ∈ ns) (hi : l.index n = l.index s) :
    ∃ e, l.occupant s = some e ∧ n.ahead base ≤ e.seq.ahead base := by
  obtain ⟨e, ho, hahead⟩ := h.held (h.known hn)
  exact ⟨e, occupant_of_index hi ▸ ho, hahead⟩

theorem overtaken_iff (h : l.StandsFor base ns m) (hs : s.InWindow base) :
    l.overtaken s = true ↔ Displaced l.history ns s := by
  rw [overtaken_eq_true_iff]
  constructor
  · rintro ⟨e, ho, hnewer⟩
    obtain ⟨hmem, hindex, -⟩ := h.owner ho
    exact ⟨e.seq, hmem, hnewer, hindex⟩
  · rintro ⟨n, hn, hnewer, hi⟩
    obtain ⟨e, ho, hahead⟩ := h.holds_newer hn hi
    have hnw : n.InWindow base := h.inWindow (h.known hn)
    refine ⟨e, ho, ?_⟩
    rw [SeqNumber.newer_iff hnw hs] at hnewer
    rw [SeqNumber.newer_iff (h.owner_inWindow ho) hs]
    omega

theorem status_of_displaced (h : l.StandsFor base ns m) (hd : Displaced l.history ns s) :
    l.status s = none := by
  obtain ⟨n, hn, hnewer, hi⟩ := hd
  obtain ⟨e, ho, hahead⟩ := h.holds_newer hn hi
  rw [Option.eq_none_iff_forall_ne_some]
  intro st hst
  rw [status_eq_some_iff, ho, Option.some.injEq] at hst
  have hs : s.InWindow base := by
    have hw := h.owner_inWindow ho
    rwa [hst] at hw
  rw [SeqNumber.newer_iff (h.inWindow (h.known hn)) hs] at hnewer
  rw [hst] at hahead
  exact absurd hahead (Nat.not_le_of_lt hnewer)

theorem status_eq (h : l.StandsFor base ns m) (hd : ¬ Displaced l.history ns s) :
    l.status s = m.status s := by
  cases hm : m.status s with
  | none =>
    rw [Option.eq_none_iff_forall_ne_some]
    intro st hst
    obtain ⟨-, -, hstatus⟩ := h.owner (status_eq_some_iff.mp hst)
    rw [hm] at hstatus
    exact absurd hstatus (by simp)
  | some st =>
    have hknown : m.status s ≠ none := hm ▸ Option.some_ne_none st
    obtain ⟨e, ho, hahead⟩ := h.held hknown
    obtain ⟨hmem, hindex, hstatus⟩ := h.owner ho
    have hseq : e.seq = s := by
      rcases Nat.eq_or_lt_of_le hahead with he | hlt
      · exact SeqNumber.ahead_inj he.symm
      · have hnewer := (SeqNumber.newer_iff (h.owner_inWindow ho) (h.inWindow hknown)).mpr hlt
        exact absurd ⟨e.seq, hmem, hnewer, hindex⟩ hd
    rw [hseq, hm, Option.some.injEq] at hstatus
    rw [status_eq_some_iff, ho, hstatus, ← hseq]

/-- Each call is answered as by the full history, or refused where a newer number was recorded. -/
theorem answer_eq (h : l.StandsFor base ns m) (hc : c.seq.InWindow base)
    (hd : ¬ Displaced l.history ns c.seq) : (l.answer c).1 = (m.answer c).1 := by
  have hopen : l.overtaken c.seq = false :=
    Bool.eq_false_iff.mpr fun ho => hd ((h.overtaken_iff hc).mp ho)
  rw [(answer_of_open hopen).1, h.status_eq hd]
  rfl

/-! ### A call keeps it -/

theorem of_overtaken (h : l.StandsFor base ns m) (hc : c.seq.InWindow base)
    (ho : l.overtaken c.seq = true) :
    (l.answer c).2.StandsFor base ns (m.answer c).2 := by
  obtain ⟨-, hslots⟩ := answer_of_overtaken ho
  obtain ⟨newest, hnewest, hnewer⟩ := overtaken_eq_true_iff.mp ho
  have hindex := index_of_slots (congrArg Array.size hslots)
  -- The number itself owns no slot, so what the full history notes of it shows nowhere.
  have hother : ∀ {n e}, l.occupant n = some e → e.seq ≠ c.seq := by
    intro n e hn he
    obtain ⟨-, hi, -⟩ := h.owner hn
    rw [← occupant_of_index hi, he, hnewest, Option.some.injEq] at hn
    rw [hn, he, SeqNumber.not_newer_self] at hnewer
    exact absurd hnewer (by simp)
  refine ⟨by rw [hslots]; exact h.size_pos, fun hn => ?_, fun hn => ?_, fun {n e} hn => ?_,
    fun {n} hn => ?_⟩
  · rcases FullHistory.known_answer_iff.mp hn with rfl | hn
    · exact hc
    · exact h.inWindow hn
  · exact FullHistory.known_answer_iff.mpr (Or.inr (h.known hn))
  · rw [occupant_of_slots hslots] at hn
    obtain ⟨hmem, hi, hstatus⟩ := h.owner hn
    rw [hindex, hindex, FullHistory.status_answer, if_neg (hother hn)]
    exact ⟨hmem, hi, hstatus⟩
  · rw [occupant_of_slots hslots]
    rcases FullHistory.known_answer_iff.mp hn with rfl | hn
    · rw [SeqNumber.newer_iff (h.owner_inWindow hnewest) hc] at hnewer
      exact ⟨newest, hnewest, Nat.le_of_lt hnewer⟩
    · exact h.held hn

theorem of_same (h : l.StandsFor base ns m) (hslots : l'.slots = l.slots) :
    l'.StandsFor base ns m where
  size_pos := by rw [hslots]; exact h.size_pos
  inWindow := h.inWindow
  known := h.known
  owner ho := by
    have hindex := index_of_slots (congrArg Array.size hslots)
    rw [hindex, hindex]
    exact h.owner (by rwa [occupant_of_slots hslots] at ho)
  held hn := by
    rw [occupant_of_slots hslots]
    exact h.held hn

theorem of_store {st : PacketStatus} {written : LossLedger} (h : l.StandsFor base ns m)
    (hs : s.InWindow base) (hw : l.store? s st = some written) :
    written.StandsFor base (ns ++ [s]) (m.put s st) := by
  have hindex := index_of_slots (history_store? hw)
  have hocc := occupant_store? h.size_pos hw
  have hknown : ∀ n, (m.put s st).status n ≠ none ↔ n = s ∨ m.status n ≠ none := by
    intro n
    unfold FullHistory.put
    by_cases hn : n = s <;> simp [hn]
  refine ⟨?_, fun {n} hn => ?_, fun {n} hn => ?_, fun {n e} hn => ?_, fun {n} hn => ?_⟩
  · exact Nat.lt_of_lt_of_eq h.size_pos (history_store? hw).symm
  · rcases (hknown n).mp hn with rfl | hn
    · exact hs
    · exact h.inWindow hn
  · rw [hknown]
    rcases List.mem_append.mp hn with hn | hn
    · exact Or.inr (h.known hn)
    · exact Or.inl (List.mem_singleton.mp hn)
  · rw [hocc] at hn
    rw [hindex, hindex]
    by_cases hi : l.index n = l.index s
    · rw [if_pos hi, Option.some.injEq] at hn
      rw [← hn]
      exact ⟨List.mem_append_right _ List.mem_cons_self, hi.symm, if_pos rfl⟩
    · rw [if_neg hi] at hn
      obtain ⟨hmem, hi', hstatus⟩ := h.owner hn
      have hne : e.seq ≠ s := fun he => hi (hi'.symm.trans (congrArg l.index he))
      exact ⟨List.mem_append_left _ hmem, hi', (if_neg hne).trans hstatus⟩
  · rw [hocc]
    by_cases hi : l.index n = l.index s
    · rw [if_pos hi]
      refine ⟨_, rfl, ?_⟩
      rcases (hknown n).mp hn with rfl | hn
      · exact Nat.le_refl _
      · -- The number that gives the slot up is not newer than the one that takes it.
        obtain ⟨e, ho, hahead⟩ := h.held hn
        have hnot := not_newer_of_store? hw hi ho
        rw [SeqNumber.newer_iff (h.owner_inWindow ho) hs] at hnot
        exact Nat.le_trans hahead (Nat.le_of_not_lt hnot)
    · rw [if_neg hi]
      rcases (hknown n).mp hn with rfl | hn
      · exact absurd rfl hi
      · exact h.held hn

theorem answer (h : l.StandsFor base ns m) (hc : c.seq.InWindow base) :
    (l.answer c).2.StandsFor base
      (ns ++ if (l.answer c).1.isRecorded then [c.seq] else []) (m.answer c).2 := by
  cases ho : l.overtaken c.seq with
  | true =>
    rw [(answer_of_overtaken ho).1, c.isRecorded_refusal, if_neg Bool.false_ne_true,
      List.append_nil]
    exact h.of_overtaken hc ho
  | false =>
    have hd : ¬ Displaced l.history ns c.seq := fun hd => by
      rw [(h.overtaken_iff hc).mpr hd] at ho
      exact absurd ho (by simp)
    obtain ⟨hanswer, hw⟩ := answer_of_open ho
    rw [h.status_eq hd] at hanswer hw
    rw [hanswer, c.isRecorded_react, FullHistory.answer]
    cases hr : (c.react (m.status c.seq)).2 with
    | none =>
      rw [hr] at hw
      rw [Option.isSome_none, if_neg Bool.false_ne_true, List.append_nil]
      exact h.of_same hw
    | some st =>
      rw [hr] at hw
      obtain ⟨written, hwritten, hslots⟩ := hw
      rw [Option.isSome_some, if_pos rfl]
      exact (h.of_store hc hwritten).of_same hslots

theorem after {calls : List LedgerCall} (h : l.StandsFor base ns m)
    (hcalls : ∀ c ∈ calls, c.seq.InWindow base) :
    (l.after calls).StandsFor base (ns ++ l.recorded calls) (m.after calls) := by
  induction calls generalizing l m ns with
  | nil => rwa [recorded, List.append_nil]
  | cons c calls ih =>
    rw [recorded, ← List.append_assoc]
    exact ih (h.answer (hcalls c List.mem_cons_self)) fun c' hc' =>
      hcalls c' (List.mem_cons_of_mem _ hc')

end StandsFor

/-! ### From a cleared ring on -/

def Cleared (history : Nat) (l : LossLedger) : Prop :=
  l.slots = (ofHistory history).slots

theorem cleared_ofHistory (history : Nat) : (ofHistory history).Cleared history := rfl

theorem Cleared.history_eq (h : l.Cleared history) : l.history = ringSize history :=
  (congrArg Array.size h).trans Array.size_replicate

theorem cleared_clearHistory (h : l.history = ringSize history) :
    l.clearHistory.Cleared history :=
  congrArg (Array.replicate · none) h

theorem Cleared.clearHistory_after (h : l.Cleared history) (calls : List LedgerCall) :
    (l.after calls).clearHistory.Cleared history :=
  cleared_clearHistory ((l.history_after calls).trans h.history_eq)

theorem Cleared.standsFor (h : l.Cleared history) (base : SeqNumber) :
    l.StandsFor base [] .empty where
  size_pos := by
    rw [h]
    exact (windowed_ofHistory base history).size_pos
  inWindow hn := absurd rfl hn
  known hn := absurd hn List.not_mem_nil
  owner ho := by
    rw [occupant_of_slots h, occupant_ofHistory] at ho
    exact absurd ho (by simp)
  held hn := absurd rfl hn

structure Exact (base : SeqNumber) (l : LossLedger) (m : FullHistory) (s : SeqNumber) : Prop where
  status : l.status s = m.status s
  answers : s.InWindow base → ∀ c : LedgerCall, c.seq = s → (l.answer c).1 = (m.answer c).1

structure Refuses (base : SeqNumber) (l : LossLedger) (s : SeqNumber) : Prop where
  status : l.status s = none
  declare : s.InWindow base → ∀ now, l.assumeLost? now s = none
  receive : s.InWindow base → ∀ now, l.receive now s = (.stale, l.countStale)
  repair : s.InWindow base → l.receiveRepair s = (.stale, l.countStale)

theorem not_displaced_of_near {newest : SeqNumber}
    (hnewest : ∀ n ∈ ns, newest.newerOrEqual n = true)
    (hnear : newest.ahead s < ringSize history) : ¬ Displaced (ringSize history) ns s := by
  rintro ⟨n, hn, hnewer, hclass⟩
  have hne : n ≠ s := by
    rintro rfl
    rw [SeqNumber.not_newer_self] at hnewer
    exact absurd hnewer (by simp)
  have hturn := ringSize_le_ahead hclass hne
  have hlater := SeqNumber.ahead_lt_of_newerOrEqual (hnewest n hn)
  have hbefore := SeqNumber.inWindow_of_newer hnewer
  rw [SeqNumber.InWindow] at hbefore
  -- On the way from `s` to the newest number lies `n`, a whole turn away at least.
  have hway := newest.ahead_eq_mod n s
  have hlt := newest.ahead_lt s
  omega

/-- A ring of any size and the full history, after the same calls on numbers of one window. -/
theorem ring_refines_full_history {calls : List LedgerCall} (cleared : start.Cleared history)
    (window : ∀ c ∈ calls, c.seq.InWindow base) (s : SeqNumber) :
    let l := start.after calls
    let m := FullHistory.empty.after calls
    let ns := start.recorded calls
    (¬ Displaced (ringSize history) ns s → l.Exact base m s) ∧
      (Displaced (ringSize history) ns s → l.Refuses base s) ∧
      ∀ newest ∈ ns, (∀ n ∈ ns, newest.newerOrEqual n = true) →
        newest.ahead s < ringSize history → l.Exact base m s := by
  intro l m ns
  have h : l.StandsFor base ns m := (cleared.standsFor base).after window
  have hsize : l.history = ringSize history := (start.history_after calls).trans cleared.history_eq
  have hexact : ¬ Displaced (ringSize history) ns s → l.Exact base m s := by
    intro hd
    rw [← hsize] at hd
    exact ⟨h.status_eq hd, fun hs c hc => h.answer_eq (hc ▸ hs) (hc ▸ hd)⟩
  refine ⟨hexact, fun hd => ?_, fun newest _ hnewest hnear =>
    hexact (not_displaced_of_near hnewest hnear)⟩
  rw [← hsize] at hd
  have hrefuses := fun hs => refuses_of_overtaken ((h.overtaken_iff hs).mpr hd)
  exact ⟨h.status_of_displaced hd, fun hs => (hrefuses hs).1, fun hs => (hrefuses hs).2.1,
    fun hs => (hrefuses hs).2.2⟩

/-- A cleared ring of four slots across the wrap: 2 takes the slot of 65534, which had arrived late,
and 65535 stays known. -/
theorem ring_refines_full_history_of_four_slots :
    let start := ((ofHistory 3).after [.receive .zero (.ofNat 6)]).clearHistory
    let calls : List LedgerCall :=
      [.declare .zero (.ofNat 65534), .receive (.ofMillis 1) (.ofNat 65535),
        .declare (.ofMillis 1) (.ofNat 1), .receive (.ofMillis 2) (.ofNat 65534),
        .receive (.ofMillis 3) (.ofNat 2), .repair (.ofNat 1), .declare (.ofMillis 4) (.ofNat 65534)]
    let l := start.after calls
    let m := FullHistory.empty.after calls
    start.Cleared 3 ∧ (∀ c ∈ calls, c.seq.InWindow (.ofNat 65533)) ∧
      Displaced (ringSize 3) (start.recorded calls) (.ofNat 65534) ∧
      l.Refuses (.ofNat 65533) (.ofNat 65534) ∧
      ¬ Displaced (ringSize 3) (start.recorded calls) (.ofNat 65535) ∧
      l.Exact (.ofNat 65533) m (.ofNat 65535) := by
  intro start calls l m
  have cleared : start.Cleared 3 := (cleared_ofHistory 3).clearHistory_after _
  have window : ∀ c ∈ calls, c.seq.InWindow (.ofNat 65533) := by decide
  have displaced : Displaced (ringSize 3) (start.recorded calls) (.ofNat 65534) := by
    decide +kernel
  have near : ¬ Displaced (ringSize 3) (start.recorded calls) (.ofNat 65535) := by decide +kernel
  exact ⟨cleared, window, displaced, (ring_refines_full_history cleared window _).2.1 displaced,
    near, (ring_refines_full_history cleared window _).1 near⟩

end LossLedger
end LossWatch
