import LossWatch.Proofs.Estimator.LossReports
import LossWatch.Proofs.SinglePath.Steps

/-!
The single-path estimator skips no number. From the first original on, every number behind one that
was recorded has been recorded too, as an original, as a repair or as a loss, and the timer never
waits for a number with an unrecorded one behind it. A declaration that fails breaks nothing: the
number is known then, or overtaken by a recorded number ahead of it.
-/

namespace LossWatch

namespace LossLedger

variable {base n : SeqNumber} {l l' : LossLedger} {ns lost : List SeqNumber} {e : LedgerEntry}
  {R : SeqNumber → Prop}

theorem occupant_of_assumeLost? {now : Timestamp} {x : SeqNumber} (hl : l.Placed)
    (h : l.assumeLost? now x = some l') (ho : l'.occupant n = some e) :
    e.seq = x ∨ l.occupant n = some e := by
  obtain ⟨-, l₁, hl₁, hslots⟩ := store?_of_assumeLost? h
  rw [occupant_of_slots hslots] at ho
  exact occupant_of_store? hl.size_pos hl₁ ho

/-- Whatever overtakes one of the tried numbers vouches for it, and they are too close to overtake
each other. So each of them is recorded before the tries or declared by them. -/
theorem Tries.recorded (h : l.Tries ns l' lost) (hl : l.Placed)
    (held : ∀ {n e}, l.occupant n = some e → R e.seq)
    (vouch : ∀ {m n}, R m → n ∈ ns → m.newer n = true → 1024 ≤ m.ahead n → R n)
    (close : ∀ m ∈ ns, ∀ n ∈ ns, m.newer n = true → m.ahead n < 1024) :
    (∀ {n e}, l'.occupant n = some e → R e.seq ∨ e.seq ∈ lost) ∧ ∀ n ∈ ns, R n ∨ n ∈ lost := by
  induction h generalizing R with
  | nil => exact ⟨fun ho => Or.inl (held ho), by simp⟩
  | @settled l l' n ns lost known rest ih =>
    obtain ⟨hheld, hall⟩ := ih hl held (fun hm hn => vouch hm (List.mem_cons_of_mem _ hn))
      fun m hm k hk => close m (List.mem_cons_of_mem _ hm) k (List.mem_cons_of_mem _ hk)
    refine ⟨hheld, fun k hk => ?_⟩
    rcases List.mem_cons.mp hk with rfl | hk
    · left
      rcases settled_iff.mp known with hresolved | hover
      · obtain ⟨st, hst⟩ := Option.isSome_iff_exists.mp hresolved
        exact held (status_eq_some_iff.mp hst)
      · obtain ⟨e, ho, hnewer, hturn⟩ := hl.of_overtaken hover
        exact vouch (held ho) List.mem_cons_self hnewer hturn
    · exact hall k hk
  | @lost l l₁ l' now n ns lost written rest ih =>
    obtain ⟨hheld, hall⟩ := ih (R := fun m => R m ∨ m = n) (hl.assumeLost? written)
      (fun ho => (occupant_of_assumeLost? hl written ho).symm.imp_left held)
      (fun hm hk hnewer hturn => by
        rcases hm with hm | rfl
        · exact Or.inl (vouch hm (List.mem_cons_of_mem _ hk) hnewer hturn)
        · have := close _ List.mem_cons_self _ (List.mem_cons_of_mem _ hk) hnewer
          omega)
      fun m hm k hk => close m (List.mem_cons_of_mem _ hm) k (List.mem_cons_of_mem _ hk)
    have hlost : ∀ {m}, (R m ∨ m = n) ∨ m ∈ lost → R m ∨ m ∈ n :: lost := by
      intro m hm
      rcases hm with (hm | rfl) | hm
      · exact Or.inl hm
      · exact Or.inr List.mem_cons_self
      · exact Or.inr (List.mem_cons_of_mem _ hm)
    refine ⟨fun ho => hlost (hheld ho), fun k hk => ?_⟩
    rcases List.mem_cons.mp hk with rfl | hk
    · exact Or.inr List.mem_cons_self
    · exact hlost (hall k hk)

end LossLedger

namespace SinglePath

/-- All numbers after `first` that lie less than `bound` ahead of the base are in `R`. -/
def Upto (base first : SeqNumber) (R : SeqNumber → Prop) (bound : Nat) : Prop :=
  ∀ n : SeqNumber, n.InWindow base → first.ahead base < n.ahead base → n.ahead base < bound → R n

variable {base first seq n : SeqNumber} {R R' : SeqNumber → Prop} {bound : Nat}
  {s s' : SinglePath} {now : Timestamp} {lost : List SeqNumber}

theorem Upto.mono (h : Upto base first R bound) {bound' : Nat} (hb : bound' ≤ bound)
    (hR : ∀ n, R n → R' n) : Upto base first R' bound' :=
  fun n hn hfirst hlt => hR n (h n hn hfirst (Nat.lt_of_lt_of_le hlt hb))

theorem Upto.succ (h : Upto base first R (n.ahead base)) (hn : R n) :
    Upto base first R (n.ahead base + 1) := by
  intro m hm hfirst hlt
  rcases Nat.lt_succ_iff_lt_or_eq.mp hlt with hlt | heq
  · exact h m hm hfirst hlt
  · exact SeqNumber.ahead_inj heq ▸ hn

/-- Everything the estimator holds was recorded, and nothing behind it is missing. -/
structure Accounts (base first : SeqNumber) (R : SeqNumber → Prop) (s : SinglePath) : Prop where
  placed : s.ledger.Placed
  held : ∀ {n e}, s.ledger.occupant n = some e → R e.seq
  inWindow : ∀ {n}, R n → n.InWindow base
  complete : ∀ {n}, R n → Upto base first R (n.ahead base)
  newest : ∃ last, s.maxSeen = some last ∧ R last ∧ first.ahead base ≤ last.ahead base
  awaited : ∀ {p}, s.pending = some p →
    first.ahead base < p.seq.ahead base ∧ Upto base first R (p.seq.ahead base)

namespace Accounts

theorem congr (h : Accounts base first R s) (hR : ∀ n, R n ↔ R' n) : Accounts base first R' s := by
  obtain rfl : R = R' := funext fun n => propext (hR n)
  exact h

theorem of_slots (h : Accounts base first R s) {ledger : LossLedger}
    (hl : ledger.slots = s.ledger.slots) : Accounts base first R { s with ledger } :=
  ⟨h.placed.of_slots hl, fun ho => h.held (by rwa [LossLedger.occupant_of_slots hl] at ho),
    h.inWindow, h.complete, h.newest, h.awaited⟩

theorem upto_next (hn : n.InWindow base) (hfirst : first.ahead base ≤ n.ahead base)
    (h : Upto base first R (n.ahead base)) (hR : R n) :
    first.ahead base < n.next.ahead base ∧ Upto base first R (n.next.ahead base) := by
  have hlt : n.ahead base < 32768 := hn
  rw [SeqNumber.ahead_next (by omega)]
  exact ⟨by omega, h.succ hR⟩

theorem rearmed (h : Accounts base first R s) (hr : s.Rearmed s') : Accounts base first R s' := by
  obtain ⟨hplaced, hheld, hin, hcomplete, ⟨last, hlast, hrecorded, hfirst⟩, hawaited⟩ := h
  cases hr with
  | unseen newest => simp [hlast] at newest
  | @armed last' p _ newest _ next _ =>
    have hsame : last' = last := Option.some.inj (newest.symm.trans hlast)
    refine ⟨hplaced, hheld, hin, hcomplete, ⟨last, hlast, hrecorded, hfirst⟩, fun hp => ?_⟩
    cases hp
    rw [next, hsame]
    exact upto_next (hin hrecorded) hfirst (hcomplete hrecorded) hrecorded
  | unready _ _ =>
    exact ⟨hplaced, hheld, hin, hcomplete, ⟨last, hlast, hrecorded, hfirst⟩, fun hp => by cases hp⟩

variable {ledger : LossLedger} {counters : SingleCounters}

theorem extend (h : Accounts base first R s) (hl : s'.ledger.Placed)
    (hheld : ∀ {n e}, s'.ledger.occupant n = some e → R e.seq ∨ R' e.seq)
    (hin : ∀ n, R' n → n.InWindow base)
    (hcomplete : ∀ n, R' n → Upto base first (fun m => R m ∨ R' m) (n.ahead base))
    (hnewest : ∃ last, s'.maxSeen = some last ∧ (R last ∨ R' last) ∧
      first.ahead base ≤ last.ahead base)
    (hawaited : ∀ {p}, s'.pending = some p → s.pending = some p ∨
      first.ahead base < p.seq.ahead base ∧
        Upto base first (fun m => R m ∨ R' m) (p.seq.ahead base)) :
    Accounts base first (fun n => R n ∨ R' n) s' where
  placed := hl
  held := hheld
  inWindow hn := hn.elim h.inWindow (hin _)
  complete hn := hn.elim (fun hn => (h.complete hn).mono (Nat.le_refl _) fun _ => .inl)
    (hcomplete _)
  newest := hnewest
  awaited hp := (hawaited hp).elim
    (fun hp => (h.awaited hp).imp_right fun hq => hq.mono (Nat.le_refl _) fun _ => .inl) id

theorem skipped {last : SeqNumber} {l l' : LossLedger} (h : Accounts base first R s)
    (hrecorded : R last) (hfirst : first.ahead base ≤ last.ahead base)
    (hseq : seq.InWindow base) (hnewer : seq.newer last = true)
    (hnear : seq.ahead last ≤ 1024) (hl : l.Placed)
    (hheld : ∀ {n e}, l.occupant n = some e → R e.seq ∨ e.seq = seq)
    (tries : l.Tries (last.between seq) l' lost) :
    (∀ {n e}, l'.occupant n = some e → R e.seq ∨ e.seq = seq ∨ e.seq ∈ lost) ∧
      (∀ n ∈ lost, n.InWindow base ∧ n.ahead base < seq.ahead base) ∧
      Upto base first (fun n => R n ∨ n = seq ∨ n ∈ lost) (seq.ahead base) := by
  have hin : last.InWindow base := h.inWindow hrecorded
  have hlt : last.ahead base < seq.ahead base := (SeqNumber.newer_iff hseq hin).mp hnewer
  have hway := SeqNumber.ahead_add_ahead (Nat.le_of_lt hlt)
  have hplace : ∀ n ∈ last.between seq, n.InWindow base ∧ last.ahead base < n.ahead base ∧
      n.ahead base < seq.ahead base := fun n hn =>
    ⟨SeqNumber.inWindow_of_mem_between hin hseq hn, SeqNumber.ahead_of_mem_between hin hseq hn⟩
  have hvouch : ∀ {m n}, R m ∨ m = seq → n ∈ last.between seq → m.newer n = true →
      1024 ≤ m.ahead n → R n ∨ n = seq := by
    rintro m n (hm | rfl) hn hmn hturn <;> obtain ⟨hn', hlo, hhi⟩ := hplace n hn
    · have hmn' := (SeqNumber.newer_iff (h.inWindow hm) hn').mp hmn
      exact Or.inl (h.complete hm n hn' (Nat.lt_of_le_of_lt hfirst hlo) hmn')
    · have := SeqNumber.ahead_add_ahead (Nat.le_of_lt hhi)
      omega
  have hclose : ∀ m ∈ last.between seq, ∀ n ∈ last.between seq, m.newer n = true →
      m.ahead n < 1024 := by
    intro m hm n hn hmn
    obtain ⟨hm', -, hmhi⟩ := hplace m hm
    obtain ⟨hn', hnlo, -⟩ := hplace n hn
    have := SeqNumber.ahead_add_ahead (Nat.le_of_lt ((SeqNumber.newer_iff hm' hn').mp hmn))
    omega
  obtain ⟨hheld', hall⟩ := tries.recorded (R := fun m => R m ∨ m = seq) hl hheld hvouch hclose
  refine ⟨fun ho => or_assoc.mp (hheld' ho), fun n hn => ?_, fun n hn hlo hhi => ?_⟩
  · obtain ⟨hn', -, hhi⟩ := hplace n (tries.subset hn)
    exact ⟨hn', hhi⟩
  · by_cases hle : n.ahead base < last.ahead base + 1
    · exact Or.inl ((h.complete hrecorded).succ hrecorded n hn hlo hle)
    · have hmem : n ∈ last.between seq := SeqNumber.mem_between_of_ahead hin hseq (by omega) hhi
      exact or_assoc.mp (hall n hmem)

theorem advanced (h : Accounts base first R s) (hl : ledger.Placed)
    (hheld : ∀ {n e}, ledger.occupant n = some e → R e.seq ∨ e.seq = seq)
    (hseq : seq.InWindow base) (hreach : s.config.maxGapFill ≤ 1024)
    (hadvanced : Advanced { s with ledger, counters, consecutiveLosses := 0 } now seq s' lost)
    (hjump : ∀ last next, s.maxSeen = some last → s'.maxSeen = some next →
      last.distance next ≤ s.config.maxGapFill) :
    Accounts base first (fun n => R n ∨ n = seq ∨ n ∈ lost) s' := by
  obtain ⟨last, hlast, hrecorded, hfirst⟩ := h.newest
  have hin : last.InWindow base := h.inWindow hrecorded
  cases hadvanced with
  | first newest => simp [hlast] at newest
  | @behind last' newest old =>
    obtain rfl : last' = last := Option.some.inj (newest.symm.trans hlast)
    -- The arrival is not ahead of a recorded number, so what lies behind it is recorded already.
    have hle : seq.ahead base ≤ last'.ahead base := by
      have hnot : ¬ seq.newer last' = true := by simp [old]
      rw [SeqNumber.newer_iff hseq hin] at hnot
      omega
    have honly : ∀ n, n = seq ∨ n ∈ [] → n = seq := by simp
    refine h.extend hl (fun ho => (hheld ho).imp_right .inl) (fun n hn => honly n hn ▸ hseq)
      (fun n hn => ?_) ⟨last', hlast, .inl hrecorded, hfirst⟩ .inl
    rw [honly n hn]
    exact (h.complete hrecorded).mono hle fun _ => .inl
  | @jumped last' _ newest newer far _ =>
    obtain rfl : last' = last := Option.some.inj (newest.symm.trans hlast)
    have hle := hjump last' seq hlast rfl
    have hfar : s.config.maxGapFill < (last'.distance seq).toNat := far
    omega
  | @filled last' sample ledger' _ _ newest newer near _ tries =>
    obtain rfl : last' = last := Option.some.inj (newest.symm.trans hlast)
    have hlt : last'.ahead base < seq.ahead base := (SeqNumber.newer_iff hseq hin).mp newer
    have hgap : seq.ahead last' ≤ 1024 := by
      have hnear : (last'.distance seq).toNat ≤ s.config.maxGapFill := near
      rw [SeqNumber.distance_of_newer newer] at hnear
      omega
    obtain ⟨hheld', hplace, hupto⟩ := h.skipped hrecorded hfirst hseq newer hgap hl hheld tries
    refine h.extend (tries.placed hl) hheld' ?_ ?_ ⟨seq, rfl, .inr (.inl rfl), by omega⟩ .inl
    · rintro n (rfl | hn)
      · exact hseq
      · exact (hplace n hn).1
    · rintro n (rfl | hn)
      · exact hupto
      · exact hupto.mono (Nat.le_of_lt (hplace n hn).2) fun _ => id

theorem accepted (h : Accounts base first R s) (hl : ledger.Placed)
    (hheld : ∀ {n e}, ledger.occupant n = some e → R e.seq ∨ e.seq = seq)
    (hseq : seq.InWindow base) (hreach : s.config.maxGapFill ≤ 1024)
    (haccepted : Accepted { s with ledger, counters } now seq s' lost)
    (hjump : ∀ last next, s.maxSeen = some last → s'.maxSeen = some next →
      last.distance next ≤ s.config.maxGapFill) :
    Accounts base first (fun n => R n ∨ n = seq ∨ n ∈ lost) s' := by
  cases haccepted with
  | waiting advanced _ _ => exact h.advanced hl hheld hseq hreach advanced hjump
  | rearmed advanced timer =>
    refine (h.advanced hl hheld hseq hreach advanced ?_).rearmed timer
    rw [← timer.maxSeen]
    exact hjump

theorem expired (h : Accounts base first R s) {p : ExpectedPacket} (hp : s.pending = some p)
    (hin : p.seq.InWindow base) (hexpired : s.Expired p s' lost)
    (hresets : s'.counters.resets = s.counters.resets) :
    Accounts base first (fun n => R n ∨ n ∈ lost) s' := by
  obtain ⟨hfirst, hupto⟩ := h.awaited hp
  cases hexpired with
  | @received _ counters _ _ timer =>
    have hcleared : Accounts base first R { s with pending := none, phase := .resolved, counters } :=
      ⟨h.placed, h.held, h.inWindow, h.complete, h.newest, fun hp => by cases hp⟩
    exact (hcleared.rearmed timer).congr (by simp)
  | @moved ledger _ p' _ _ tries _ next _ =>
    obtain ⟨hheld, hall⟩ := tries.recorded (R := R) h.placed h.held
      (by
        intro m n hm hn hnewer _
        obtain rfl := List.mem_singleton.mp hn
        exact h.complete hm _ hin hfirst ((SeqNumber.newer_iff (h.inWindow hm) hin).mp hnewer))
      (by
        intro m hm n hn hnewer
        obtain rfl := List.mem_singleton.mp hm
        obtain rfl := List.mem_singleton.mp hn
        simp [SeqNumber.not_newer_self] at hnewer)
    have hlost : ∀ n ∈ lost, n = p.seq := fun n hn => List.mem_singleton.mp (tries.subset hn)
    obtain ⟨last, hlast, hrecorded, hbehind⟩ := h.newest
    refine h.extend (tries.placed h.placed) hheld (fun n hn => hlost n hn ▸ hin) (fun n hn => ?_)
      ⟨last, hlast, .inl hrecorded, hbehind⟩ (fun hq => Or.inr ?_)
    · rw [hlost n hn]
      exact hupto.mono (Nat.le_refl _) fun _ => .inl
    · cases hq
      rw [next]
      exact upto_next hin (Nat.le_of_lt hfirst) (hupto.mono (Nat.le_refl _) fun _ => .inl)
        (hall p.seq (by simp))
  | reset _ _ _ resets =>
    have : s.counters.resets + 1 = s.counters.resets := resets.symm.trans hresets
    omega

theorem repaired (h : Accounts base first R s) (hseq : seq.InWindow base)
    (hknown : R seq ∨ ∃ last, s.maxSeen = some last ∧ seq.newer last = false)
    (hl : ledger.Placed) (hheld : ∀ {n e}, ledger.occupant n = some e → R e.seq ∨ R' e.seq)
    (hR : ∀ n, R' n → n = seq) : Accounts base first (fun n => R n ∨ R' n) { s with ledger } := by
  obtain ⟨last, hlast, hrecorded, hfirst⟩ := h.newest
  have hupto : Upto base first R (seq.ahead base) := by
    rcases hknown with hknown | ⟨last', hlast', hold⟩
    · exact h.complete hknown
    · obtain rfl : last' = last := Option.some.inj (hlast'.symm.trans hlast)
      have hnot : ¬ seq.newer last' = true := by simp [hold]
      rw [SeqNumber.newer_iff hseq (h.inWindow hrecorded)] at hnot
      exact (h.complete hrecorded).mono (by omega) fun _ => id
  refine h.extend hl hheld (fun n hn => hR n hn ▸ hseq) (fun n hn => ?_)
    ⟨last, hlast, .inl hrecorded, hfirst⟩ .inl
  rw [hR n hn]
  exact hupto.mono (Nat.le_refl _) fun _ => .inl

end Accounts
end SinglePath

/-! ### One call -/

namespace Exchange

/-- The call enters `n` as an original or a repair, or reports it lost. -/
def Settles (x : Exchange) (n : SeqNumber) : Prop :=
  x.RecordsOriginal n ∨ x.RecordsRepair n ∨ x.ReportsLoss n

variable {s : SinglePath} {n : SeqNumber} {lost : List SeqNumber}

theorem lost_mem_losses {position : Option FlowPosition} :
    LossEvent.lost n position ∈ SinglePath.losses lost ↔ n ∈ lost ∧ position = none := by
  simp [SinglePath.losses, eq_comm]

theorem settles_arrival {now : Timestamp} {a : Arrival} (hrun : s.stopped = false)
    (hevents : emitted (s.onArrival now a).actions =
      (s.ledger.receive now a.seq).1.lateReport a.seq a.position ++ SinglePath.losses lost) :
    Settles ⟨.single s, .arrival now a⟩ n ↔
      (n = a.seq ∧ (s.ledger.receive now a.seq).1.isRecorded = true) ∨ n ∈ lost := by
  have hlate : ∀ position, LossEvent.lost n position ∉
      (s.ledger.receive now a.seq).1.lateReport a.seq a.position := by
    intro position
    cases (s.ledger.receive now a.seq).1 <;> simp [Reception.lateReport]
  have hloss : ReportsLoss ⟨.single s, .arrival now a⟩ n ↔ n ∈ lost := by
    have hx : events ⟨.single s, .arrival now a⟩ = emitted (s.onArrival now a).actions := rfl
    simp [ReportsLoss, hx, hevents, hlate, lost_mem_losses]
  have hrun' : ¬ (Estimator.single s).isStopped = true := by simp [Estimator.isStopped, hrun]
  simp only [Settles, hloss, RecordsOriginal, RecordsRepair, original?, repair?, if_neg hrun',
    Option.some.injEq, Prod.mk.injEq, reduceCtorEq, false_and, exists_false, false_or]
  constructor
  · rintro (⟨r, ⟨hn, hr⟩, hrecorded⟩ | hn)
    · exact Or.inl ⟨hn.symm, hr ▸ hrecorded⟩
    · exact Or.inr hn
  · rintro (⟨hn, hrecorded⟩ | hn)
    · exact Or.inl ⟨_, ⟨hn.symm, rfl⟩, hrecorded⟩
    · exact Or.inr hn

theorem settles_repair {a : Arrival} (hrun : s.stopped = false) :
    Settles ⟨.single s, .repair a⟩ n ↔
      n = a.seq ∧ (s.ledger.receiveRepair a.seq).1.isRecorded = true := by
  have hrun' : ¬ (Estimator.single s).isStopped = true := by simp [Estimator.isStopped, hrun]
  have hloss : ¬ ReportsLoss ⟨.single s, .repair a⟩ n := by
    rintro ⟨position, hmem⟩
    simp [events, step, Estimator.call, Estimator.onRepair, SinglePath.onRepair, hrun, emitted]
      at hmem
  simp only [Settles, hloss, RecordsOriginal, RecordsRepair, original?, repair?, if_neg hrun',
    Option.some.injEq, Prod.mk.injEq, reduceCtorEq, false_and, exists_false, false_or, or_false]
  constructor
  · rintro ⟨r, ⟨hn, hr⟩, hrecorded⟩
    exact ⟨hn.symm, hr ▸ hrecorded⟩
  · rintro ⟨hn, hrecorded⟩
    exact ⟨_, ⟨hn.symm, rfl⟩, hrecorded⟩

theorem settles_timeout {now : Timestamp} {key : TimerKey}
    (hevents : emitted (s.onTimeout now key).actions = SinglePath.losses lost) :
    Settles ⟨.single s, .timeout now key⟩ n ↔ n ∈ lost := by
  have hx : events ⟨.single s, .timeout now key⟩ = emitted (s.onTimeout now key).actions := rfl
  simp [Settles, RecordsOriginal, RecordsRepair, original?, repair?, ReportsLoss, hx, hevents,
    lost_mem_losses]

theorem not_settles_withdrawn {m : SeqNumber} : ¬ Settles ⟨.single s, .withdrawn m⟩ n := by
  simp [Settles, RecordsOriginal, RecordsRepair, original?, repair?, ReportsLoss, events, step,
    Estimator.call, emitted]

end Exchange

namespace SinglePath

variable {base first n : SeqNumber} {R : SeqNumber → Prop} {s s' : SinglePath} {c : EstimatorCall}

theorem Accounts.call (h : Accounts base first R s) (hrun : s.stopped = false)
    (hreach : s.config.maxGapFill ≤ 1024)
    (hwin : ∀ n ∈ Exchange.handled ⟨.single s, c⟩, n.InWindow base)
    (hrepair : ∀ a, c = .repair a →
      R a.seq ∨ ∃ last, s.maxSeen = some last ∧ a.seq.newer last = false)
    (hstep : ((Estimator.single s).call c).state = .single s')
    (hjump : ∀ last next, s.maxSeen = some last → s'.maxSeen = some next →
      last.distance next ≤ s.config.maxGapFill)
    (hresets : s'.counters.resets = s.counters.resets) :
    Accounts base first (fun n => R n ∨ Exchange.Settles ⟨.single s, c⟩ n) s' := by
  cases c with
  | arrival now a =>
    have hseq : a.seq.InWindow base := hwin a.seq (by simp [Exchange.handled])
    have hstate : (s.onArrival now a).state = s' := Estimator.single.inj hstep
    obtain ⟨lost, hevents, harrived⟩ := arrived_onArrival hrun now a
    have hrecords := s.ledger.records_receive now a.seq
    rw [hstate] at harrived
    cases harrived with
    | ignored known =>
      have hslots : (s.ledger.receive now a.seq).2.slots = s.ledger.slots :=
        LossLedger.slots_receive known
      refine (h.of_slots hslots).congr fun n => ?_
      rw [Exchange.settles_arrival hrun hevents]
      simp [known]
    | recorded entered _ accepted =>
      have hheld : ∀ {n e}, (s.ledger.receive now a.seq).2.occupant n = some e →
          R e.seq ∨ e.seq = a.seq := fun ho =>
        ((h.placed.occupant_of_records hrecords ho).symm.imp_left h.held).imp_right And.right
      refine (h.accepted (h.placed.records hrecords) hheld hseq hreach accepted hjump).congr ?_
      intro n
      rw [Exchange.settles_arrival hrun hevents]
      simp [entered]
  | repair a =>
    have hseq : a.seq.InWindow base := hwin a.seq (by simp [Exchange.handled])
    have hstate : s' = { s with ledger := (s.ledger.receiveRepair a.seq).2 } := by
      have hs' : (s.onRepair a).state = s' := Estimator.single.inj hstep
      rw [← hs', onRepair, if_neg (by simp [hrun]), Step.state_stay]
    have hrecords := s.ledger.records_receiveRepair a.seq
    rw [hstate]
    refine h.repaired hseq (hrepair a rfl) (h.placed.records hrecords) (fun ho => ?_) fun n hn =>
      ((Exchange.settles_repair hrun).mp hn).1
    rcases h.placed.occupant_of_records hrecords ho with ⟨hmark, he⟩ | ho
    · refine Or.inr ((Exchange.settles_repair hrun).mpr ⟨he, ?_⟩)
      cases hr : (s.ledger.receiveRepair a.seq).1 <;> simp_all [Reception.isRecorded,
        Reception.repairMark]
    · exact Or.inl (h.held ho)
  | timeout now key =>
    have hstate : (s.onTimeout now key).state = s' := Estimator.single.inj hstep
    rcases s.onTimeout_cases now key with hstay | ⟨p, lost, -, hp, hevents, hexpired⟩
    · have hnone : emitted (s.onTimeout now key).actions = losses [] := by rw [hstay]; rfl
      rw [hstay] at hstate
      exact hstate ▸ h.congr fun n => by simp [Exchange.settles_timeout hnone]
    · rw [hstate] at hexpired
      have hin : p.seq.InWindow base :=
        hwin p.seq (by simp [Exchange.handled, Estimator.awaited, expected, hp])
      refine (h.expired hp hin hexpired hresets).congr fun n => ?_
      rw [Exchange.settles_timeout hevents]
  | withdrawn m =>
    have hstate : s.noteWithdrawn m = s' := Estimator.single.inj hstep
    rw [← hstate]
    refine (h.of_slots (s.ledger.slots_noteWithdrawn m)).congr fun n => ?_
    simp [Exchange.not_settles_withdrawn]

end SinglePath

/-! ### Every run of calls -/

def Estimator.newest? : Estimator → Option SeqNumber
  | .single s => s.maxSeen
  | .cross c => c.maxSeen

/-- What the run's packets keep to: one window, no jump that is longer than `gap`, and repairs only
where a record was expected, that is of numbers of `R`, of numbers reported lost before and of
numbers not ahead of the newest one. -/
structure Orderly (base : SeqNumber) (gap : Nat) (R : SeqNumber → Prop) (xs : List Exchange) :
    Prop where
  window : ∀ x ∈ xs, ∀ n ∈ x.handled, n.InWindow base
  jumps : ∀ x ∈ xs, ∀ last ∈ x.before.newest?, ∀ next ∈ x.step.state.newest?,
    last.distance next ≤ gap
  repairs : ∀ pre x post a, xs = pre ++ x :: post → x.call = .repair a →
    R a.seq ∨ (∃ y ∈ pre, y.ReportsLoss a.seq) ∨
      ∃ last ∈ x.before.newest?, a.seq.newer last = false

theorem Orderly.tail {base : SeqNumber} {gap : Nat} {R : SeqNumber → Prop} {x : Exchange}
    {xs : List Exchange} (h : Orderly base gap R (x :: xs)) :
    Orderly base gap (fun n => R n ∨ x.Settles n) xs where
  window y hy := h.window y (List.mem_cons_of_mem _ hy)
  jumps y hy := h.jumps y (List.mem_cons_of_mem _ hy)
  repairs pre y post a hxs hcall := by
    rcases h.repairs (x :: pre) y post a (congrArg _ hxs) hcall with hR | ⟨z, hz, hloss⟩ | hold
    · exact Or.inl (Or.inl hR)
    · rcases List.mem_cons.mp hz with rfl | hz
      · exact Or.inl (Or.inr (Or.inr (Or.inr hloss)))
      · exact Or.inr (Or.inl ⟨z, hz, hloss⟩)
    · exact Or.inr (Or.inr hold)

namespace SinglePath

variable {base first last : SeqNumber} {R : SeqNumber → Prop} {s s' : SinglePath}
  {c : EstimatorCall} {calls : List EstimatorCall}

theorem call_state (s : SinglePath) (c : EstimatorCall) :
    ∃ s', ((Estimator.single s).call c).state = .single s' ∧ s'.config = s.config := by
  cases c with
  | arrival now a => exact ⟨_, rfl, s.config_onArrival now a⟩
  | repair a => exact ⟨_, rfl, s.config_onRepair a⟩
  | timeout now key => exact ⟨_, rfl, s.config_onTimeout now key⟩
  | withdrawn seq => exact ⟨_, rfl, rfl⟩

theorem exists_call (c : EstimatorCall) (calls : List EstimatorCall) (hrun : s.stopped = false)
    (hresets : ((Estimator.single s).after (c :: calls)).diagnostics.resets = s.counters.resets) :
    ∃ s', ((Estimator.single s).call c).state = .single s' ∧ s'.config = s.config ∧
      s'.stopped = false ∧ s'.counters.resets = s.counters.resets ∧
      ((Estimator.single s').after calls).diagnostics.resets = s'.counters.resets := by
  obtain ⟨s', hstate, hconfig⟩ := s.call_state c
  obtain ⟨hcall, hcalls⟩ := Estimator.unreset_append [c] calls hresets
  have hstopped := (Exchange.kept ⟨.single s, c⟩).2.1
  have hafter : (Estimator.single s).after [c] = .single s' := hstate
  have hstep : Exchange.step ⟨.single s, c⟩ = (Estimator.single s).call c := rfl
  rw [hafter] at hcall hcalls
  rw [hstep, hstate] at hstopped
  exact ⟨s', hstate, hconfig, hstopped.trans hrun, hcall, hcalls⟩

theorem Accounts.run (h : Accounts base first R s) (hrun : s.stopped = false)
    (hreach : s.config.maxGapFill ≤ 1024)
    (horderly : Orderly base s.config.maxGapFill R ((Estimator.single s).exchanges calls))
    (hresets : ((Estimator.single s).after calls).diagnostics.resets = s.counters.resets) :
    ∃ s', (Estimator.single s).after calls = .single s' ∧
      Accounts base first
        (fun n => R n ∨ ∃ x ∈ (Estimator.single s).exchanges calls, x.Settles n) s' := by
  induction calls generalizing s R with
  | nil => exact ⟨s, rfl, h.congr (by simp [Estimator.exchanges])⟩
  | cons c calls ih =>
    obtain ⟨s₁, hstate, hconfig, hrun₁, hresets₁, hrest⟩ := exists_call c calls hrun hresets
    have hexchanges : (Estimator.single s).exchanges (c :: calls) =
        ⟨.single s, c⟩ :: (Estimator.single s₁).exchanges calls := by
      rw [Estimator.exchanges, hstate]
    have hafter : (Estimator.single s).after (c :: calls) = (Estimator.single s₁).after calls := by
      rw [← hstate]; rfl
    rw [hexchanges] at horderly ⊢
    rw [hafter]
    have hfirst := h.call hrun hreach (horderly.window _ List.mem_cons_self)
      (fun a hcall => by
        rcases horderly.repairs [] _ _ a rfl hcall with hR | ⟨y, hy, -⟩ | hold
        · exact Or.inl hR
        · simp at hy
        · exact Or.inr hold)
      hstate
      (fun last next hlast hnext => horderly.jumps _ List.mem_cons_self last hlast next
        (by rw [show Exchange.step ⟨.single s, c⟩ = (Estimator.single s).call c from rfl, hstate]
            exact hnext))
      hresets₁
    rw [← hconfig] at hreach horderly
    obtain ⟨s', hs', hcovered⟩ := ih hfirst hrun₁ hreach horderly.tail hrest
    exact ⟨s', hs', hcovered.congr (by simp [or_assoc])⟩

structure Blank (s : SinglePath) : Prop where
  placed : s.ledger.Placed
  empty : ∀ n, s.ledger.occupant n = none
  unseen : s.maxSeen = none
  unarmed : s.pending = none

theorem receive_of_empty {l : LossLedger} (hempty : ∀ n, l.occupant n = none) (now : Timestamp)
    (n : SeqNumber) : (l.receive now n).1 = .fresh := by
  have hstatus : l.status n = none := by simp [LossLedger.status, hempty]
  have hopen : l.overtaken n = false := by simp [LossLedger.overtaken, hempty]
  obtain ⟨l', hl'⟩ : ∃ l', l.store? n .received = some l' := LossLedger.store?_isSome hopen
  simp [LossLedger.receive, hstatus, LossLedger.recordFirst, hl']

namespace Blank

variable {seq : SeqNumber} {now : Timestamp} {lost : List SeqNumber} {ledger : LossLedger}
  {counters : SingleCounters}

theorem not_settles (h : s.Blank) (hrun : s.stopped = false) (hrepair : ∀ a, c ≠ .repair a)
    (horiginal : ∀ n, ¬ Exchange.RecordsOriginal ⟨.single s, c⟩ n)
    (hstep : ((Estimator.single s).call c).state = .single s') :
    s'.Blank ∧ ∀ n, ¬ Exchange.Settles ⟨.single s, c⟩ n := by
  cases c with
  | arrival now a =>
    have hrun' : ¬ (Estimator.single s).isStopped = true := by simp [Estimator.isStopped, hrun]
    refine absurd ⟨.fresh, ?_, rfl⟩ (horiginal a.seq)
    simp only [Exchange.original?, if_neg hrun', Estimator.ledger, receive_of_empty h.empty]
  | repair a => exact absurd rfl (hrepair a)
  | timeout now key =>
    have hstay : s.onTimeout now key = .stay s := by
      rcases s.onTimeout_cases now key with hstay | ⟨p, -, -, hp, -⟩
      · exact hstay
      · simp [h.unarmed] at hp
    have hnone : emitted (s.onTimeout now key).actions = losses [] := by rw [hstay]; rfl
    have hstate : (s.onTimeout now key).state = s' := Estimator.single.inj hstep
    rw [hstay] at hstate
    exact ⟨hstate ▸ h, fun n => by simp [Exchange.settles_timeout hnone]⟩
  | withdrawn m =>
    have hstate : s.noteWithdrawn m = s' := Estimator.single.inj hstep
    have hslots := s.ledger.slots_noteWithdrawn m
    refine ⟨hstate ▸ ⟨h.placed.of_slots hslots, fun n => ?_, h.unseen, h.unarmed⟩, fun n => ?_⟩
    · exact (LossLedger.occupant_of_slots hslots n).trans (h.empty n)
    · exact Exchange.not_settles_withdrawn

theorem advanced (h : s.Blank) (hl : ledger.Placed)
    (hheld : ∀ {n e}, ledger.occupant n = some e → e.seq = seq) (hseq : seq.InWindow base)
    (hadvanced : Advanced { s with ledger, counters, consecutiveLosses := 0 } now seq s' lost) :
    lost = [] ∧ Accounts base seq (· = seq) s' := by
  cases hadvanced with
  | first _ =>
    refine ⟨rfl, hl, hheld, ?_, ?_, ⟨seq, rfl, rfl, Nat.le_refl _⟩, ?_⟩
    · rintro n rfl
      exact hseq
    · rintro n rfl m - hlo hhi
      omega
    · exact fun hp => by simp [h.unarmed] at hp
  | behind newest _ => simp [h.unseen] at newest
  | jumped newest _ _ _ => simp [h.unseen] at newest
  | filled newest _ _ _ _ => simp [h.unseen] at newest

theorem accepted (h : s.Blank) (hl : ledger.Placed)
    (hheld : ∀ {n e}, ledger.occupant n = some e → e.seq = seq) (hseq : seq.InWindow base)
    (haccepted : Accepted { s with ledger, counters } now seq s' lost) :
    lost = [] ∧ Accounts base seq (· = seq) s' := by
  cases haccepted with
  | waiting advanced _ _ => exact h.advanced hl hheld hseq advanced
  | rearmed advanced timer =>
    exact (h.advanced hl hheld hseq advanced).imp_right fun haccounts => haccounts.rearmed timer

theorem accounts (h : s.Blank) (hrun : s.stopped = false)
    (hin : ∀ n ∈ Exchange.handled ⟨.single s, c⟩, n.InWindow base)
    (horiginal : Exchange.RecordsOriginal ⟨.single s, c⟩ first)
    (hstep : ((Estimator.single s).call c).state = .single s') :
    Accounts base first (Exchange.Settles ⟨.single s, c⟩) s' := by
  obtain ⟨r, hr, -⟩ := horiginal
  cases c with
  | arrival now a =>
    have hrun' : ¬ (Estimator.single s).isStopped = true := by simp [Estimator.isStopped, hrun]
    simp only [Exchange.original?, if_neg hrun', Option.some.injEq, Prod.mk.injEq] at hr
    obtain ⟨rfl, -⟩ := hr
    have hseq : a.seq.InWindow base := hin a.seq (by simp [Exchange.handled])
    have hstate : (s.onArrival now a).state = s' := Estimator.single.inj hstep
    obtain ⟨lost, hevents, harrived⟩ := arrived_onArrival hrun now a
    have hfresh := receive_of_empty h.empty now a.seq
    have hrecords := s.ledger.records_receive now a.seq
    have hheld : ∀ {n e}, (s.ledger.receive now a.seq).2.occupant n = some e → e.seq = a.seq := by
      intro n e ho
      rcases h.placed.occupant_of_records hrecords ho with ⟨-, he⟩ | ho
      · exact he
      · simp [h.empty] at ho
    rw [hstate] at harrived
    cases harrived with
    | ignored known => simp [hfresh, Reception.isRecorded] at known
    | recorded _ _ accepted =>
      obtain ⟨rfl, haccounts⟩ := h.accepted (h.placed.records hrecords) hheld hseq accepted
      refine haccounts.congr fun n => ?_
      simp [Exchange.settles_arrival hrun hevents, hfresh, Reception.isRecorded]
  | repair a => simp [Exchange.original?] at hr
  | timeout now key => simp [Exchange.original?] at hr
  | withdrawn m => simp [Exchange.original?] at hr

end Blank

theorem Blank.run (h : s.Blank) (hrun : s.stopped = false) (hreach : s.config.maxGapFill ≤ 1024)
    (hR : ∀ n, ¬ R n)
    (horderly : Orderly base s.config.maxGapFill R ((Estimator.single s).exchanges calls))
    (hresets : ((Estimator.single s).after calls).diagnostics.resets = s.counters.resets)
    {pre post : List Exchange} {x : Exchange}
    (hsplit : (Estimator.single s).exchanges calls = pre ++ x :: post)
    (horiginal : x.RecordsOriginal first) (hearliest : ∀ y ∈ pre, ∀ n, ¬ y.RecordsOriginal n) :
    ∃ s', (Estimator.single s).after calls = .single s' ∧
      Accounts base first (fun n => ∃ z ∈ (Estimator.single s).exchanges calls, z.Settles n) s' := by
  induction calls generalizing s R pre with
  | nil => simp [Estimator.exchanges] at hsplit
  | cons c calls ih =>
    obtain ⟨s₁, hstate, hconfig, hrun₁, hresets₁, hrest⟩ := exists_call c calls hrun hresets
    have hexchanges : (Estimator.single s).exchanges (c :: calls) =
        ⟨.single s, c⟩ :: (Estimator.single s₁).exchanges calls := by
      rw [Estimator.exchanges, hstate]
    have hafter : (Estimator.single s).after (c :: calls) = (Estimator.single s₁).after calls := by
      rw [← hstate]; rfl
    rw [hexchanges] at horderly hsplit ⊢
    rw [hafter]
    cases pre with
    | nil =>
      obtain ⟨rfl, rfl⟩ := List.cons.inj hsplit
      have hstart := h.accounts hrun (horderly.window _ List.mem_cons_self) horiginal hstate
      have horderly' := horderly.tail
      rw [← hconfig] at hreach horderly'
      obtain ⟨s', hs', hcovered⟩ := (hstart.congr (by simp [hR])).run hrun₁ hreach horderly' hrest
      exact ⟨s', hs', hcovered.congr (by simp [hR])⟩
    | cons y pre =>
      obtain ⟨rfl, hrestsplit⟩ := List.cons.inj hsplit
      obtain ⟨hblank, hsilent⟩ := h.not_settles hrun
        (fun a hcall => by
          rcases horderly.repairs [] _ _ a rfl hcall with hr | ⟨z, hz, -⟩ | ⟨last, hlast, -⟩
          · exact hR _ hr
          · simp at hz
          · exact absurd (hlast.symm.trans h.unseen) (by simp))
        (hearliest _ List.mem_cons_self) hstate
      have horderly' := horderly.tail
      rw [← hconfig] at hreach horderly'
      obtain ⟨s', hs', hcovered⟩ := ih hblank hrun₁ hreach (by simp [hR, hsilent]) horderly' hrest
        hrestsplit fun z hz => hearliest z (List.mem_cons_of_mem _ hz)
      exact ⟨s', hs', hcovered.congr (by simp [hsilent])⟩

/-- Every number between the first original and the newest number is received, repaired or reported
lost, in runs without a reset whose numbers lie in one window, whose jumps are gaps, and whose repairs
are of numbers reported lost before or not ahead of the newest one. -/
theorem no_number_skipped {config : SinglePathConfig} {predictor : Predictor} {e : Estimator}
    (fresh : e = .single { config, predictor }) (reach : config.maxGapFill ≤ 1024)
    {base : SeqNumber} {calls : List EstimatorCall}
    (window : ∀ x ∈ e.exchanges calls, ∀ n ∈ x.handled, n.InWindow base)
    (unreset : (e.after calls).diagnostics.resets = 0)
    (jumps : ∀ x ∈ e.exchanges calls, ∀ last ∈ x.before.newest?, ∀ next ∈ x.step.state.newest?,
      last.distance next ≤ config.maxGapFill)
    (repairs : ∀ pre x post a, e.exchanges calls = pre ++ x :: post → x.call = .repair a →
      (∃ y ∈ pre, y.ReportsLoss a.seq) ∨ ∃ last ∈ x.before.newest?, a.seq.newer last = false)
    {pre post : List Exchange} {x : Exchange} {first last : SeqNumber}
    (split : e.exchanges calls = pre ++ x :: post) (original : x.RecordsOriginal first)
    (earliest : ∀ y ∈ pre, ∀ n, ¬ y.RecordsOriginal n)
    (newest : (e.after calls).newest? = some last) :
    ∀ s ∈ first.between last, ∃ z ∈ e.exchanges calls,
      z.RecordsOriginal s ∨ z.RecordsRepair s ∨ z.ReportsLoss s := by
  subst fresh
  have hblank : Blank { config, predictor } :=
    ⟨LossLedger.placed_initial, LossLedger.occupant_ofHistory 1024, rfl, rfl⟩
  have horderly : Orderly base config.maxGapFill (fun _ => False)
      ((Estimator.single { config, predictor }).exchanges calls) :=
    ⟨window, jumps, fun pre x post a hxs hcall => Or.inr (repairs pre x post a hxs hcall)⟩
  obtain ⟨s', hafter, h⟩ :=
    hblank.run rfl reach (fun _ => id) horderly unreset split original earliest
  rw [hafter] at newest
  obtain ⟨last', hlast, hrecorded, hfirst⟩ := h.newest
  obtain rfl : last = last' := Option.some.inj (newest.symm.trans hlast)
  have hin := h.inWindow hrecorded
  have hfirstin : first.InWindow base := Nat.lt_of_le_of_lt hfirst hin
  intro s hs
  obtain ⟨hlo, hhi⟩ := SeqNumber.ahead_of_mem_between hfirstin hin hs
  exact h.complete hrecorded s (SeqNumber.inWindow_of_mem_between hfirstin hin hs) hlo hhi

/-- A gap of two numbers, one of them repaired, and a number that the timer gives up. -/
theorem no_number_skipped_of_gap_and_stall :
    let e : Estimator := .single
      { config := {}, predictor := .movingAverage ⟨⟨1, []⟩, ⟨1, []⟩, 1, 1.0, none, 0.0, 0⟩ }
    let calls : List EstimatorCall :=
      [.arrival .zero ⟨.ofNat 1, none⟩, .arrival (.ofMillis 40) ⟨.ofNat 4, none⟩,
        .repair ⟨.ofNat 2, none⟩, .timeout (.ofMillis 100) .basic,
        .arrival (.ofMillis 120) ⟨.ofNat 6, none⟩]
    (∀ x ∈ e.exchanges calls, ∀ n ∈ x.handled, n.InWindow (.ofNat 1)) ∧
      (e.after calls).newest? = some (.ofNat 6) ∧
      ∀ s ∈ (SeqNumber.ofNat 1).between (.ofNat 6), ∃ z ∈ e.exchanges calls,
        z.RecordsOriginal s ∨ z.RecordsRepair s ∨ z.ReportsLoss s := by
  intro e calls
  have window : ∀ x ∈ e.exchanges calls, ∀ n ∈ x.handled, n.InWindow (.ofNat 1) := by
    decide +kernel
  have jumps : ∀ x ∈ e.exchanges calls, ∀ last ∈ x.before.newest?,
      ∀ next ∈ x.step.state.newest?, last.distance next ≤ 512 := by
    decide +kernel
  have repaired : ∀ x ∈ e.exchanges calls, ∀ p ∈ x.repair?, ∃ last ∈ x.before.newest?,
      p.1.newer last = false := by
    decide +kernel
  have newest : (e.after calls).newest? = some (.ofNat 6) := by decide +kernel
  have running : ∀ x ∈ e.exchanges calls, ¬ x.before.isStopped = true := by decide +kernel
  have split : e.exchanges calls = [] ++ ⟨e, .arrival .zero ⟨.ofNat 1, none⟩⟩ :: _ := rfl
  refine ⟨window, newest, no_number_skipped rfl (by decide) window (by decide +kernel) jumps ?_
    split ⟨.fresh, by decide +kernel, rfl⟩ (by simp) newest⟩
  intro pre x post a hxs hcall
  have hx : x ∈ e.exchanges calls := hxs ▸ List.mem_append_right _ List.mem_cons_self
  exact Or.inr (repaired x hx (a.seq, _)
    (by simp only [Exchange.repair?, hcall, if_neg (running x hx)]; rfl))

end SinglePath
end LossWatch
