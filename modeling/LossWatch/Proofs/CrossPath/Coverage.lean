import LossWatch.Proofs.CrossPath.Steps
import LossWatch.Proofs.Estimator.LossReports
import LossWatch.Proofs.Estimator.Reachable

/-!
Between the two timers no number is lost sight of. Whatever the short timer has passed is settled in
the ledger or waits for a long timer, as the short timer leaves a number only to one of the two, and
a long timer goes only when its number is settled. A number that the ledger knows has no long timer.
-/

namespace LossWatch

namespace LossLedger

variable {n x : SeqNumber} {l l' : LossLedger}

theorem Placed.status_none_of_records {mark : List LossMark} (hl : l.Placed)
    (h : l.Records x mark l') (hne : n ≠ x) (hs : l.status n = none) : l'.status n = none := by
  have hslots : ∀ {a b : LossLedger}, a.slots = b.slots → b.status n = none → a.status n = none :=
    fun he hb => (status_of_occupant (occupant_of_slots he n)).trans hb
  cases h with
  | ignored slots => exact hslots slots hs
  | first _ _ written _ slots =>
    exact hslots slots (status_store?_of_none hl.size_pos written hne hs)
  | afterLoss _ _ _ written _ slots =>
    exact hslots slots (status_store?_of_none hl.size_pos written hne hs)

theorem Placed.status_none_of_tries {ns lost : List SeqNumber} (hl : l.Placed)
    (h : l.Tries ns l' lost) (hne : n ∉ ns) (hs : l.status n = none) : l'.status n = none := by
  induction h with
  | nil => exact hs
  | settled _ _ ih => exact ih hl (fun hn => hne (List.mem_cons_of_mem _ hn)) hs
  | @lost l l₁ _ _ m ns _ written _ ih =>
    obtain ⟨-, l₂, hl₂, hslots⟩ := store?_of_assumeLost? written
    have hnm : n ≠ m := fun he => hne (he ▸ List.mem_cons_self)
    refine ih (hl.assumeLost? written) (fun hn => hne (List.mem_cons_of_mem _ hn)) ?_
    rw [status_of_occupant (occupant_of_slots hslots n)]
    exact status_store?_of_none hl.size_pos hl₂ hnm hs

end LossLedger

theorem LongTimers.has_eq_false {long long' : LongTimers} (hnone : ∀ n, long.has n = false)
    (hfewer : ∀ n, long'.has n = true → long.has n = true) (n : SeqNumber) :
    long'.has n = false := by
  cases hn : long'.has n with
  | false => rfl
  | true => exact (hfewer n hn).symm.trans (hnone n)

namespace CrossPath

variable {s s' t : CrossPath} {n seq : SeqNumber} {now : Timestamp}

/-- Only a running estimator has timers, and a number with a long timer is unknown to the ledger. -/
structure Sound (s : CrossPath) : Prop where
  placed : s.ledger.Placed
  idle : s.phase.isRunning = false → s.short = none ∧ ∀ n, s.long.has n = false
  anchored : s.phase.isRunning = true → s.anchor.isSome = true
  waiting : ∀ n, s.long.has n = true → s.ledger.status n = none

namespace Sound

theorem running_of_short (h : s.Sound) {short : ShortTimer} (harmed : s.short = some short) :
    s.phase.isRunning = true := by
  cases hp : s.phase.isRunning with
  | true => rfl
  | false => simp [(h.idle hp).1] at harmed

theorem startedOver (hl : s.ledger.Placed) (h : s.StartedOver s') : s'.Sound where
  placed := h.ledger ▸ hl.clearHistory
  idle _ := ⟨h.short, fun n => by rw [h.long]; rfl⟩
  anchored hrun := by simp [h.idle] at hrun
  waiting n hn := by rw [h.long] at hn; exact absurd hn (by simp [LongTimers.has])

theorem reconciled (h : s.Sound) (hrun : s.phase.isRunning = true) (hr : s.Reconciled seq s') :
    s'.Sound := by
  have hidle : ¬ s.phase.isRunning = false := by simp [hrun]
  cases hr with
  | unarmed _ => exact h
  | waiting _ _ => exact h
  | far _ _ _ _ => exact ⟨h.placed, fun hp => absurd hp hidle, h.anchored, h.waiting⟩
  | near _ _ covering _ =>
    refine ⟨h.placed, fun hp => absurd hp hidle, h.anchored, fun n hn => ?_⟩
    exact (covering.unknown n hn).elim (h.waiting n) id

theorem entered (h : s.Sound) (ht : s.Entered now seq t) : t.Sound where
  placed := by
    rw [ht.ledger]
    exact h.placed.records (s.ledger.records_receive now seq)
  idle hp := by
    obtain ⟨hshort, hlong⟩ := h.idle (ht.running.symm.trans hp)
    exact ⟨ht.short.trans hshort, LongTimers.has_eq_false hlong fun n hn => ((ht.long n).mp hn).2⟩
  anchored hp := ht.anchored hp (h.anchored (ht.running.symm.trans hp))
  waiting n hn := by
    obtain ⟨hne, hn⟩ := (ht.long n).mp hn
    rw [ht.ledger]
    exact h.placed.status_none_of_records (s.ledger.records_receive now seq) hne (h.waiting n hn)

theorem learned (h : s.Sound) (hidle : s.phase.isRunning = false) (hl : s.Learned s') :
    s'.Sound where
  placed := hl.placed h.placed
  idle hp := ⟨(hl.idle hp).trans (h.idle hidle).1, fun n => hl.long ▸ (h.idle hidle).2 n⟩
  anchored := hl.anchored
  waiting n hn := by
    rw [hl.long, (h.idle hidle).2 n] at hn
    exact absurd hn (by simp)

theorem of_slots (h : s.Sound) {ledger : LossLedger} (hl : ledger.slots = s.ledger.slots) :
    Sound { s with ledger } where
  placed := h.placed.of_slots hl
  idle := h.idle
  anchored := h.anchored
  waiting n hn :=
    (LossLedger.status_of_occupant (LossLedger.occupant_of_slots hl n)).trans (h.waiting n hn)

theorem onArrival (h : s.Sound) (now : Timestamp) (a : Arrival) :
    (s.onArrival now a).state.Sound := by
  cases hstopped : s.stopped with
  | true => simpa [CrossPath.onArrival, hstopped] using h
  | false =>
    have harrived := arrived_onArrival hstopped h.anchored now a
    generalize (s.onArrival now a).state = s' at harrived ⊢
    cases harrived with
    | ignored known => exact h.of_slots (LossLedger.slots_receive known)
    | learned _ entered idle learned =>
      exact (h.entered entered).learned (entered.running.trans idle) learned
    | followed _ entered running reconciled =>
      exact (h.entered entered).reconciled (entered.running.trans running) reconciled

theorem onRepair (h : s.Sound) (a : Arrival) : (s.onRepair a).state.Sound := by
  cases hstopped : s.stopped with
  | true => simpa [CrossPath.onRepair, hstopped] using h
  | false =>
    obtain ⟨long, hstate, hlong⟩ := onRepair_state hstopped a
    have hrecords := s.ledger.records_receiveRepair a.seq
    rw [hstate]
    refine ⟨h.placed.records hrecords, fun hp => ?_, h.anchored, fun n hn => ?_⟩
    · obtain ⟨hshort, hnone⟩ := h.idle hp
      exact ⟨hshort, LongTimers.has_eq_false hnone fun n hn => ((hlong n).mp hn).2⟩
    · obtain ⟨hne, hn⟩ := (hlong n).mp hn
      exact h.placed.status_none_of_records hrecords hne (h.waiting n hn)

theorem onShortTimeout (h : s.Sound) (now : Timestamp) : (s.onShortTimeout now).state.Sound := by
  cases harmed : s.short with
  | none => simpa [CrossPath.onShortTimeout, harmed] using h
  | some short =>
    have hrun := h.running_of_short harmed
    obtain ⟨short', long, counters, -, hcovering, hstate⟩ :=
      onShortTimeout_state harmed (h.anchored hrun) now
    rw [hstate]
    refine ⟨h.placed, fun hp => ?_, h.anchored, fun n hn => ?_⟩
    · exact absurd hp (by simp [hrun])
    · exact (hcovering.unknown n hn).elim (h.waiting n) id

theorem onLongTimeout (h : s.Sound) (now : Timestamp) (n : SeqNumber) :
    (s.onLongTimeout now n).state.Sound := by
  have hexpired := s.longExpired_onLongTimeout now n
  have herase : ∀ m, (s.long.erase n).has m = true → m ≠ n ∧ s.long.has m = true :=
    fun m hm => (s.long.has_erase n m).mp hm
  have hidle : s.phase.isRunning = false → s.short = none ∧ ∀ m, (s.long.erase n).has m = false := by
    intro hp
    obtain ⟨hshort, hnone⟩ := h.idle hp
    exact ⟨hshort, LongTimers.has_eq_false hnone fun m hm => (herase m hm).2⟩
  generalize (s.onLongTimeout now n).state = s' at hexpired ⊢
  cases hexpired with
  | unarmed _ => exact h
  | late _ _ _ => exact ⟨h.placed, hidle, h.anchored, fun m hm => h.waiting m (herase m hm).2⟩
  | declared _ tries _ =>
    refine ⟨tries.placed h.placed, hidle, h.anchored, fun m hm => ?_⟩
    obtain ⟨hne, hm⟩ := herase m hm
    exact h.placed.status_none_of_tries tries (by simpa using hne) (h.waiting m hm)
  | reset tries _ restarted => exact startedOver (tries.placed h.placed) restarted

theorem onTimeout (h : s.Sound) (now : Timestamp) (key : TimerKey) :
    (s.onTimeout now key).state.Sound := by
  unfold CrossPath.onTimeout
  split
  · exact h
  · cases key with
    | basic => exact h
    | short => exact h.onShortTimeout now
    | long n => exact h.onLongTimeout now n

theorem stop (h : s.Sound) : s.stop.state.Sound := by
  rw [CrossPath.stop, Step.state_alter, cancelTimers_state]
  exact ⟨h.placed, fun _ => ⟨rfl, fun _ => rfl⟩, h.anchored, fun n hn => by cases hn⟩

theorem reset (h : s.Sound) : s.reset.state.Sound := by
  obtain ⟨hplaced, hidle, hanchored, hwaiting⟩ := startedOver h.placed (startedOver_fullReset s)
  exact ⟨hplaced, hidle, hanchored, hwaiting⟩

end Sound

theorem Sound.call (h : s.Sound) {c : EstimatorCall}
    (hstep : ((Estimator.cross s).call c).state = .cross s') :
    s'.Sound := by
  cases c with
  | arrival now a => cases hstep; exact h.onArrival now a
  | repair a => cases hstep; exact h.onRepair a
  | timeout now key => cases hstep; exact h.onTimeout now key
  | withdrawn n => cases hstep; exact h.of_slots (s.ledger.slots_noteWithdrawn n)

theorem sound_of_reachable {e : Estimator} (h : e.Reachable) (hs : e = .cross s) : s.Sound := by
  induction h generalizing s with
  | fresh fresh =>
    subst hs
    cases fresh
    exact ⟨LossLedger.placed_initial, fun _ => ⟨rfl, fun _ => rfl⟩, by simp [CrossPhase.isRunning],
      fun n hn => by cases hn⟩
  | @call e _ c ih =>
    cases e with
    | single _ => cases c <;> cases hs
    | cross t =>
      exact (ih rfl).call hs
  | @reset e _ ih =>
    cases e with
    | single _ => cases hs
    | cross t => cases hs; exact (ih rfl).reset
  | @stop e _ ih =>
    cases e with
    | single _ => cases hs
    | cross t => cases hs; exact (ih rfl).stop

/-! ### What the short timer has passed -/

variable {base start p x : SeqNumber}

/-- Everything after `start` up to `p` is settled or waits for a long timer. -/
structure Passed (base start p : SeqNumber) (s : CrossPath) : Prop where
  windowed : s.ledger.Windowed base
  inWindow : p.InWindow base
  behind : start.ahead base ≤ p.ahead base
  covered : ∀ n : SeqNumber, start.ahead base < n.ahead base → n.ahead base ≤ p.ahead base →
    s.ledger.Settled n ∨ s.long.has n = true

namespace Passed

theorem inWindow_of_le (h : s.Passed base start p) (hn : n.ahead base ≤ p.ahead base) :
    n.InWindow base :=
  Nat.lt_of_le_of_lt hn h.inWindow

theorem mono (h : s.Passed base start p) {ledger : LossLedger} {long : LongTimers}
    (hl : t.ledger = ledger) (hlong : t.long = long) (hw : ledger.Windowed base)
    (hsettled : ∀ n, n.InWindow base → s.ledger.Settled n → ledger.Settled n)
    (hkept : ∀ n, s.long.has n = true → long.has n = true ∨ ledger.Settled n) :
    t.Passed base start p where
  windowed := hl ▸ hw
  inWindow := h.inWindow
  behind := h.behind
  covered n hlo hhi := by
    rw [hl, hlong]
    rcases h.covered n hlo hhi with hn | hn
    · exact Or.inl (hsettled n (h.inWindow_of_le hhi) hn)
    · exact (hkept n hn).symm

theorem entered (h : s.Passed base start p) (hx : seq.InWindow base)
    (ht : s.Entered now seq t) : t.Passed base start p ∧ t.ledger.Settled seq := by
  have hrecords := s.ledger.records_receive now seq
  have hseq := LossLedger.settled_receive h.windowed.size_pos now seq
  refine ⟨h.mono ht.ledger rfl (hrecords.windowed h.windowed hx)
    (fun n hn hs => hs.records h.windowed hx hn hrecords) fun n hn => ?_, ht.ledger ▸ hseq⟩
  by_cases hne : n = seq
  · exact Or.inr (hne ▸ hseq)
  · exact Or.inl ((ht.long n).mpr ⟨hne, hn⟩)

theorem extend (h : s.Passed base start p) {q : SeqNumber} (hq : q.InWindow base)
    (hle : p.ahead base ≤ q.ahead base)
    (hcovered : ∀ n : SeqNumber, p.ahead base < n.ahead base → n.ahead base ≤ q.ahead base →
      s.ledger.Settled n ∨ s.long.has n = true) : s.Passed base start q where
  windowed := h.windowed
  inWindow := hq
  behind := Nat.le_trans h.behind hle
  covered n hlo hhi := by
    by_cases hp : n.ahead base ≤ p.ahead base
    · exact h.covered n hlo hp
    · exact hcovered n (Nat.lt_of_not_le hp) hhi

theorem covering (h : s.Passed base start p) {ns : List SeqNumber} {long : LongTimers}
    (hc : s.Covering ns long) (hl : t.ledger = s.ledger) (hlong : t.long = long) :
    t.Passed base start p ∧ ∀ n ∈ ns, t.ledger.Settled n ∨ t.long.has n = true := by
  refine ⟨h.mono hl hlong h.windowed (fun _ _ => id) fun n hn => Or.inl (hc.kept n hn), ?_⟩
  intro n hn
  rw [hl, hlong]
  exact (hc.covered n hn).imp_left fun hr => LossLedger.settled_iff.mpr (Or.inl hr)

theorem narrow (h : s.Passed base start p) {start' q : SeqNumber}
    (hstart : start.ahead base ≤ start'.ahead base) (hbehind : start'.ahead base ≤ q.ahead base)
    (hq : q.ahead base ≤ p.ahead base) : s.Passed base start' q where
  windowed := h.windowed
  inWindow := h.inWindow_of_le hq
  behind := hbehind
  covered n hlo hhi := h.covered n (Nat.lt_of_le_of_lt hstart hlo) (Nat.le_trans hhi hq)

theorem onRepair (h : s.Passed base start p) {a : Arrival} (hx : a.seq.InWindow base) :
    (s.onRepair a).state.Passed base start p := by
  cases hstopped : s.stopped with
  | true => simpa [CrossPath.onRepair, hstopped] using h
  | false =>
    obtain ⟨long, hstate, hlong⟩ := onRepair_state hstopped a
    have hrecords := s.ledger.records_receiveRepair a.seq
    have hseq := LossLedger.settled_receiveRepair h.windowed.size_pos a.seq
    rw [hstate]
    refine h.mono rfl rfl (hrecords.windowed h.windowed hx)
      (fun n hn hs => hs.records h.windowed hx hn hrecords) fun n hn => ?_
    by_cases hne : n = a.seq
    · exact Or.inr (hne ▸ hseq)
    · exact Or.inl ((hlong n).mpr ⟨hne, hn⟩)

theorem onLongTimeout (h : s.Passed base start p) (hsound : s.Sound) (now : Timestamp)
    (hwin : ∀ n, s.long.has n = true → n.InWindow base)
    (hresets : (s.onLongTimeout now x).state.counters.resets = s.counters.resets) :
    (s.onLongTimeout now x).state.Passed base start p := by
  have hexpired := s.longExpired_onLongTimeout now x
  generalize (s.onLongTimeout now x).state = s' at hexpired hresets ⊢
  cases hexpired with
  | unarmed _ => exact h
  | late waits found _ =>
    simp [LossLedger.wasReceived, hsound.waiting x waits] at found
  | declared waits tries _ =>
    obtain ⟨hw, hsettled, hkept⟩ := tries.settles h.windowed (hwin x waits)
    refine h.mono rfl rfl hw hkept fun n hn => ?_
    by_cases hne : n = x
    · exact Or.inr (hne ▸ hsettled)
    · exact Or.inl ((s.long.has_erase x n).mpr ⟨hne, hn⟩)
  | reset _ resets restarted =>
    have := restarted.resets
    omega

end Passed

/-- The short timer is armed, and everything from `start` on that it has passed is covered. -/
def Covers (base start : SeqNumber) (s : CrossPath) : Prop :=
  ∃ short, s.short = some short ∧ s.Passed base start short.expected.prev

theorem Covers.reconciled (h : s.Covers base start) (hx : seq.InWindow base)
    (hseq : s.ledger.Settled seq)
    (hnear : ∀ E ∈ s.expected, E.distance seq ≤ s.config.maxGap)
    (hr : s.Reconciled seq s') : s'.Covers base start := by
  obtain ⟨short, harmed, hpassed⟩ := h
  cases hr with
  | unarmed none => simp [harmed] at none
  | waiting _ _ => exact ⟨short, harmed, hpassed⟩
  | @far short₁ _ _ armed _ skipped _ =>
    have hle := hnear short₁.expected (by simp [expected, armed])
    omega
  | @near short₁ short' long counters armed reached covering next =>
    obtain rfl : short₁ = short := Option.some.inj (armed.symm.trans harmed)
    refine ⟨short', rfl, ?_⟩
    rw [next, SeqNumber.prev_next]
    obtain ⟨hpassed', hcovered⟩ := hpassed.covering
      (t := { s with short := some short', long, counters }) covering rfl rfl
    have hreached := SeqNumber.prev_ahead_of_newerOrEqual hx hpassed.inWindow reached
    refine hpassed'.extend hx (Nat.le_of_lt hreached) fun n hlo hhi => ?_
    by_cases hn : n = seq
    · exact Or.inl (hn ▸ hseq)
    · have hlt : n.ahead base < seq.ahead base :=
        Nat.lt_of_le_of_ne hhi fun he => hn (SeqNumber.ahead_inj he)
      exact hcovered n (SeqNumber.mem_between_of_ahead hpassed.inWindow hx hlo hlt)

theorem Covers.onArrival (h : s.Covers base start) (hsound : s.Sound) (now : Timestamp)
    {a : Arrival} (hx : a.seq.InWindow base)
    (hnear : ∀ E ∈ s.expected, E.distance a.seq ≤ s.config.maxGap) :
    (s.onArrival now a).state.Covers base start := by
  cases hstopped : s.stopped with
  | true => simpa [CrossPath.onArrival, hstopped] using h
  | false =>
    have harrived := arrived_onArrival hstopped hsound.anchored now a
    obtain ⟨short, harmed, hpassed⟩ := h
    generalize (s.onArrival now a).state = s' at harrived ⊢
    cases harrived with
    | ignored known =>
      have hslots := LossLedger.slots_receive known
      exact ⟨short, harmed, hpassed.mono rfl rfl (hpassed.windowed.of_slots hslots)
        (fun _ _ hs => hs.of_slots hslots) fun _ => Or.inl⟩
    | learned _ _ idle _ => simp [(hsound.idle idle).1] at harmed
    | followed _ entered running reconciled =>
      obtain ⟨hpassed', hseq⟩ := hpassed.entered hx entered
      refine Covers.reconciled ⟨short, entered.short.trans harmed, hpassed'⟩ hx hseq ?_ reconciled
      rw [entered.config]
      intro E hE
      exact hnear E (by simpa [expected, entered.short] using hE)

theorem Covers.onRepair (h : s.Covers base start) {a : Arrival} (hx : a.seq.InWindow base) :
    (s.onRepair a).state.Covers base start := by
  obtain ⟨short, harmed, hpassed⟩ := h
  exact ⟨short, (s.short_onRepair a).trans harmed, hpassed.onRepair hx⟩

theorem Covers.onShortTimeout (h : s.Covers base start) (hsound : s.Sound) (now : Timestamp)
    (hwin : ∀ E ∈ s.expected, E.InWindow base) :
    (s.onShortTimeout now).state.Covers base start := by
  obtain ⟨short, harmed, hpassed⟩ := h
  have hrun := hsound.running_of_short harmed
  obtain ⟨short', long, counters, hnext, hcovering, hstate⟩ :=
    onShortTimeout_state harmed (hsound.anchored hrun) now
  have hE : short.expected.InWindow base := hwin _ (by simp [expected, harmed])
  have hnextpos := SeqNumber.ahead_of_prev hpassed.inWindow
  rw [hstate]
  refine ⟨short', rfl, ?_⟩
  rw [hnext, SeqNumber.prev_next]
  obtain ⟨hpassed', hcovered⟩ := hpassed.covering
    (t := { s with short := some short', long, counters }) hcovering rfl rfl
  refine hpassed'.extend hE (by omega) fun n hlo hhi => hcovered n (List.mem_singleton.mpr ?_)
  have hsame : n.ahead base = short.expected.ahead base := by omega
  exact SeqNumber.ahead_inj hsame

theorem Covers.onLongTimeout (h : s.Covers base start) (hsound : s.Sound) (now : Timestamp)
    (hwin : ∀ n, s.long.has n = true → n.InWindow base)
    (hresets : (s.onLongTimeout now x).state.counters.resets = s.counters.resets) :
    (s.onLongTimeout now x).state.Covers base start := by
  obtain ⟨short, harmed, hpassed⟩ := h
  have hshort := (s.longExpired_onLongTimeout now x).short hresets
  exact ⟨short, hshort.trans harmed, hpassed.onLongTimeout hsound now hwin hresets⟩

theorem Covers.onTimeout (h : s.Covers base start) (hsound : s.Sound) (now : Timestamp)
    (key : TimerKey) (hwin : ∀ n ∈ (Estimator.cross s).awaited, n.InWindow base)
    (hresets : (s.onTimeout now key).state.counters.resets = s.counters.resets) :
    (s.onTimeout now key).state.Covers base start := by
  unfold CrossPath.onTimeout at hresets ⊢
  split
  · exact h
  · rename_i hrun
    rw [if_neg hrun] at hresets
    cases key with
    | basic => exact h
    | short =>
      refine h.onShortTimeout hsound now fun E hE => hwin E (List.mem_append_left _ ?_)
      exact Option.mem_toList.mpr hE
    | long n =>
      refine h.onLongTimeout hsound now (fun m hm => hwin m (List.mem_append_right _ ?_)) hresets
      obtain ⟨q, hq, hqm⟩ := List.any_eq_true.mp hm
      exact List.mem_map.mpr ⟨q, hq, by simpa using hqm⟩

end CrossPath

/-! ### Every run of calls -/

/-- No arrival passes the number of the short timer by more than the largest gap. -/
def Exchange.KeepsUp (x : Exchange) : Prop :=
  match x.before, x.call with
  | .cross c, .arrival _ a => ∀ E ∈ c.expected, E.distance a.seq ≤ c.config.maxGap
  | _, _ => True

instance (x : Exchange) : Decidable x.KeepsUp := by
  unfold Exchange.KeepsUp
  split <;> infer_instance

namespace CrossPath

variable {s s' : CrossPath} {base start : SeqNumber} {c : EstimatorCall}
  {calls : List EstimatorCall}

theorem Covers.call (h : s.Covers base start) (hsound : s.Sound)
    (hwin : ∀ n ∈ Exchange.handled ⟨.cross s, c⟩, n.InWindow base)
    (hnear : Exchange.KeepsUp ⟨.cross s, c⟩)
    (hstep : ((Estimator.cross s).call c).state = .cross s')
    (hresets : s'.counters.resets = s.counters.resets) : s'.Covers base start := by
  cases c with
  | arrival now a =>
    cases hstep
    exact h.onArrival hsound now (hwin a.seq (by simp [Exchange.handled])) hnear
  | repair a =>
    cases hstep
    exact h.onRepair (hwin a.seq (by simp [Exchange.handled]))
  | timeout now key =>
    obtain rfl : (s.onTimeout now key).state = s' := Estimator.cross.inj hstep
    exact h.onTimeout hsound now key hwin hresets
  | withdrawn n =>
    cases hstep
    obtain ⟨short, harmed, hpassed⟩ := h
    have hslots := s.ledger.slots_noteWithdrawn n
    exact ⟨short, harmed, hpassed.mono rfl rfl (hpassed.windowed.of_slots hslots)
      (fun _ _ hs => hs.of_slots hslots) fun _ => Or.inl⟩

theorem call_state (s : CrossPath) (c : EstimatorCall) :
    ∃ s', ((Estimator.cross s).call c).state = .cross s' := by
  cases c with
  | arrival now a => exact ⟨_, rfl⟩
  | repair a => exact ⟨_, rfl⟩
  | timeout now key => exact ⟨_, rfl⟩
  | withdrawn n => exact ⟨_, rfl⟩

theorem Covers.run (h : s.Covers base start) (hsound : s.Sound)
    (hwin : ∀ x ∈ (Estimator.cross s).exchanges calls, ∀ n ∈ x.handled, n.InWindow base)
    (hnear : ∀ x ∈ (Estimator.cross s).exchanges calls, x.KeepsUp)
    (hresets : ((Estimator.cross s).after calls).diagnostics.resets = s.counters.resets) :
    ∃ s', (Estimator.cross s).after calls = .cross s' ∧ s'.Sound ∧ s'.Covers base start := by
  induction calls generalizing s with
  | nil => exact ⟨s, rfl, hsound, h⟩
  | cons c calls ih =>
    obtain ⟨s₁, hstate⟩ := s.call_state c
    obtain ⟨hcall, hcalls⟩ := Estimator.unreset_append [c] calls hresets
    have hafter : (Estimator.cross s).after [c] = .cross s₁ := hstate
    rw [hafter] at hcall hcalls
    rw [Estimator.exchanges, hstate] at hwin hnear
    have hfirst := h.call hsound (hwin _ List.mem_cons_self) (hnear _ List.mem_cons_self) hstate
      hcall
    obtain ⟨s', hs', hcovers⟩ := ih hfirst (hsound.call hstate)
      (fun x hx => hwin x (List.mem_cons_of_mem _ hx))
      (fun x hx => hnear x (List.mem_cons_of_mem _ hx)) hcalls
    refine ⟨s', ?_, hcovers⟩
    rw [← hs', ← hstate]
    rfl

/-- While no reset comes, no arrival leaves the short timer too far behind and all numbers lie in
one window, those that the ledger remembers at the start and the one before `e₀` among them: from a
start with the short timer at `e₀`, each number from `e₀` up to the one now expected, and within the
reach of the ledger, is either settled or waits for a long timer, and not both. A number with a long
timer is never known to the ledger. The start may be any reachable state with a short timer, as all
reachable states are sound. -/
theorem passed_numbers_covered :
    (∀ c : CrossPath, (Estimator.cross c).Reachable → c.Sound) ∧
    ∀ (c₀ : CrossPath) (e₀ base : SeqNumber) (calls : List EstimatorCall), c₀.Sound →
      c₀.expected = some e₀ → e₀.prev.InWindow base →
      (∀ n, c₀.ledger.isResolved n = true → n.InWindow base) →
      (∀ x ∈ (Estimator.cross c₀).exchanges calls, ∀ n ∈ x.handled, n.InWindow base) →
      (∀ x ∈ (Estimator.cross c₀).exchanges calls, x.KeepsUp) →
      ((Estimator.cross c₀).after calls).diagnostics.resets = c₀.counters.resets →
      ∃ c E, (Estimator.cross c₀).after calls = .cross c ∧ c.expected = some E ∧
        (∀ s : SeqNumber, s.ahead e₀ < E.ahead e₀ →
          (∀ r, c.ledger.isResolved r = true → r.newer s = true → r.ahead s < 1024) →
          c.ledger.isResolved s = !c.hasLong s) ∧
        ∀ s, c.hasLong s = true → c.ledger.isResolved s = false := by
  refine ⟨fun c h => sound_of_reachable h rfl, ?_⟩
  intro c₀ e₀ base calls hsound hstart hprev hremembered hwin hnear hresets
  obtain ⟨short₀, hshort₀, rfl⟩ := Option.map_eq_some_iff.mp hstart
  have hcovers : c₀.Covers base short₀.expected.prev :=
    ⟨short₀, hshort₀, hsound.placed.windowed hremembered, hprev, Nat.le_refl _, by omega⟩
  obtain ⟨c, hafter, hsound', short, hshort, hpassed⟩ := hcovers.run hsound hwin hnear hresets
  have hopen : ∀ s, c.hasLong s = true → c.ledger.isResolved s = false := by
    intro s hs
    simp only [LossLedger.isResolved, hsound'.waiting s hs, Option.isSome_none]
  refine ⟨c, short.expected, hafter, by simp [expected, hshort], fun s hs hreach => ?_, hopen⟩
  obtain ⟨hlo, hhi⟩ := SeqNumber.ahead_prev_of_ahead_lt hpassed.behind hpassed.inWindow hs
  cases hlong : c.hasLong s with
  | true => exact hopen s hlong
  | false =>
    have hsettled : c.ledger.Settled s :=
      (hpassed.covered s hlo hhi).resolve_right (by simp [show c.long.has s = false from hlong])
    rcases LossLedger.settled_iff.mp hsettled with hresolved | hover
    · exact hresolved
    -- Whatever overtook the number is a turn of the ring ahead, and so beyond the reach.
    · obtain ⟨e, ho, hnewer, hturn⟩ := hsound'.placed.of_overtaken hover
      have hknown := hsound'.placed.status_of_holds ho
      have := hreach e.seq (by simp only [LossLedger.isResolved, hknown, Option.isSome_some]) hnewer
      omega

theorem passed_numbers_covered_of_gap_and_expiries :
    let model : Predictor := .movingAverage ⟨⟨1, []⟩, ⟨1, []⟩, 1, 1.0, none, 0.0, 0⟩
    let c₀ : CrossPath :=
      { config := {}, delta := model, cross := model, flows := { window := 16 }
        ledger := (LossLedger.initial.receive .zero (.ofNat 1)).2, phase := .estRunningA
        order := [0], anchor := some ⟨.ofNat 1, .zero⟩
        short := some ⟨.ofNat 2, .ofMillis 41, false⟩, maxSeen := some (.ofNat 1) }
    let calls : List EstimatorCall :=
      [.arrival (.ofMillis 40) (.onFlow (.ofNat 4) 0 (.ofNat 4)), .repair ⟨.ofNat 2, none⟩,
        .timeout (.ofMillis 90) (.long (.ofNat 3)), .timeout (.ofMillis 91) .short]
    (∀ x ∈ (Estimator.cross c₀).exchanges calls, ∀ n ∈ x.handled, n.InWindow (.ofNat 1)) ∧
      ∃ c E, (Estimator.cross c₀).after calls = .cross c ∧ c.expected = some E ∧
        (∀ s : SeqNumber, s.ahead (.ofNat 2) < E.ahead (.ofNat 2) →
          (∀ r, c.ledger.isResolved r = true → r.newer s = true → r.ahead s < 1024) →
          c.ledger.isResolved s = !c.hasLong s) ∧
        ∀ s, c.hasLong s = true → c.ledger.isResolved s = false := by
  intro model c₀ calls
  have recorded := LossLedger.initial.records_receive .zero (.ofNat 1)
  have sound : c₀.Sound :=
    ⟨LossLedger.placed_initial.records recorded, by simp [c₀, CrossPhase.isRunning], fun _ => rfl,
      by simp [c₀, LongTimers.has]⟩
  have remembered : ∀ n, c₀.ledger.isResolved n = true → n.InWindow (.ofNat 1) := by
    intro n hn
    obtain ⟨st, hst⟩ := Option.isSome_iff_exists.mp hn
    have ho := LossLedger.status_eq_some_iff.mp hst
    rcases LossLedger.placed_initial.occupant_of_records recorded ho with ⟨-, he⟩ | ho
    · obtain rfl : n = .ofNat 1 := he
      decide
    · simp [LossLedger.initial, LossLedger.occupant_ofHistory] at ho
  have window : ∀ x ∈ (Estimator.cross c₀).exchanges calls, ∀ n ∈ x.handled,
      n.InWindow (.ofNat 1) := by
    decide +kernel
  exact ⟨window, passed_numbers_covered.2 c₀ (.ofNat 2) (.ofNat 1) calls sound rfl (by decide)
    remembered window (by decide +kernel) (by decide +kernel)⟩

end CrossPath
end LossWatch
