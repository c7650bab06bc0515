import LossWatch.Proofs.Estimator.Reachable
import LossWatch.Proofs.LossLedger.Hindrance
import LossWatch.Proofs.SinglePath.Steps

/-!
A stream that falls silent. From then on only the timer acts, and it is meant to reset the estimator
after a bounded number of expiries. It does as long as the newest number is ahead of all that was
received: each expiry either adds to the run of losses or uses up a refusal of the ledger, and both
are bounded. A repair that was recorded ahead of the newest number breaks this. The timer that meets
it goes back to the number after the newest one, so it expires again and again and counts nothing.
-/

namespace LossWatch

theorem Autoregression.biasSamples_insert (a : Autoregression) (d : Duration) :
    (a.insert d).biasSamples = a.biasSamples := by
  have hadapt : ∀ phi y, (a.adapt phi y).biasSamples = a.biasSamples := by
    intro phi y
    unfold adapt
    dsimp only
    split <;> rfl
  unfold insert
  dsimp only
  split
  · exact hadapt _ _
  · rfl

theorem Predictor.isReady_insert {p : Predictor} (h : p.isReady = true) (d : Duration) :
    (p.insert d).isReady = true := by
  cases p with
  | movingAverage m =>
    simp only [insert, isReady, MovingAverage.isReady, MovingAverage.insert,
      decide_eq_true_eq] at h ⊢
    omega
  | autoregression a =>
    have hcount : (a.insert d).count = a.count + 1 := rfl
    simp only [insert, isReady, Autoregression.isReady, decide_eq_true_eq] at h ⊢
    rw [a.biasSamples_insert, hcount]
    omega

namespace SinglePath

variable {s s' : SinglePath} {p : ExpectedPacket} {seq last : SeqNumber} {now : Timestamp}
  {lost : List SeqNumber} {k : Nat}

/-! ### What a running timer tells -/

structure Sound (s : SinglePath) : Prop where
  placed : s.ledger.Placed
  running : s.pending.isSome = true → s.stopped = false
  ready : s.pending.isSome = true → s.predictor.isReady = true
  seen : s.pending.isSome = true → s.maxSeen.isSome = true

namespace Sound

theorem unarmed (hl : s.ledger.Placed) (hp : s.pending = none) : s.Sound :=
  ⟨hl, by simp [hp], by simp [hp], by simp [hp]⟩

theorem rearmed (h : s.Sound) (hrun : s.stopped = false) (hr : s.Rearmed s') : s'.Sound := by
  cases hr with
  | unseen _ => exact h
  | armed newest ready _ _ =>
    exact ⟨h.placed, fun _ => hrun, fun _ => ready, fun _ => by simp [newest]⟩
  | unready _ _ => exact .unarmed h.placed rfl

theorem advanced (h : s.Sound) (ha : s.Advanced now seq s' lost) :
    s'.Sound ∧ s'.stopped = s.stopped := by
  cases ha with
  | first _ => exact ⟨⟨h.placed, h.running, h.ready, fun _ => rfl⟩, rfl⟩
  | behind _ _ => exact ⟨h, rfl⟩
  | jumped _ _ _ _ => exact ⟨.unarmed h.placed rfl, rfl⟩
  | filled _ _ _ _ tries =>
    exact ⟨⟨tries.placed h.placed, h.running, fun hp => Predictor.isReady_insert (h.ready hp) _,
      fun _ => rfl⟩, rfl⟩

theorem accepted (h : s.Sound) (hrun : s.stopped = false) (ha : s.Accepted now seq s' lost) :
    s'.Sound := by
  have hcleared : Sound { s with consecutiveLosses := 0 } :=
    ⟨h.placed, h.running, h.ready, h.seen⟩
  cases ha with
  | waiting advanced _ _ => exact (hcleared.advanced advanced).1
  | rearmed advanced timer =>
    obtain ⟨hs₁, hstopped⟩ := hcleared.advanced advanced
    exact hs₁.rearmed (hstopped.trans hrun) timer

theorem records (h : s.Sound) {ledger : LossLedger} {counters : SingleCounters}
    {mark : List LossMark} (hr : s.ledger.Records seq mark ledger) :
    Sound { s with ledger, counters } :=
  ⟨h.placed.records hr, h.running, h.ready, h.seen⟩

theorem onArrival (h : s.Sound) (now : Timestamp) (a : Arrival) :
    (s.onArrival now a).state.Sound := by
  cases hrun : s.stopped with
  | true => simpa [SinglePath.onArrival, hrun] using h
  | false =>
    have hrecords := s.ledger.records_receive now a.seq
    obtain ⟨lost, -, harrived⟩ := arrived_onArrival hrun now a
    generalize (s.onArrival now a).state = s' at harrived ⊢
    cases harrived with
    | ignored _ => exact h.records hrecords
    | recorded _ _ accepted => exact (h.records hrecords).accepted hrun accepted

theorem onRepair (h : s.Sound) (a : Arrival) : (s.onRepair a).state.Sound := by
  cases hrun : s.stopped with
  | true => simpa [SinglePath.onRepair, hrun] using h
  | false =>
    have hstate : (s.onRepair a).state = { s with ledger := (s.ledger.receiveRepair a.seq).2 } := by
      rw [SinglePath.onRepair, if_neg (by simp [hrun]), Step.state_stay]
    rw [hstate]
    exact h.records (s.ledger.records_receiveRepair a.seq)

theorem expired (h : s.Sound) (hp : s.pending = some p) (he : s.Expired p s' lost) : s'.Sound := by
  have harmed : s.pending.isSome = true := by simp [hp]
  cases he with
  | @received _ counters _ _ timer =>
    have hcleared : Sound { s with pending := none, phase := .resolved, counters } :=
      .unarmed h.placed rfl
    exact hcleared.rearmed (h.running harmed) timer
  | moved _ tries _ _ _ =>
    exact ⟨tries.placed h.placed, fun _ => h.running harmed, fun _ => h.ready harmed,
      fun _ => h.seen harmed⟩
  | reset _ tries _ _ => exact .unarmed (tries.placed h.placed).clearHistory rfl

theorem onTimeout (h : s.Sound) (now : Timestamp) (key : TimerKey) :
    (s.onTimeout now key).state.Sound := by
  rcases s.onTimeout_cases now key with hstay | ⟨p, lost, -, hp, -, he⟩
  · rw [hstay]
    exact h
  · exact h.expired hp he

theorem reset (h : s.Sound) : s.reset.state.Sound := by
  rw [SinglePath.reset, Step.state_alter, fullReset_state]
  exact .unarmed h.placed.clearHistory rfl

theorem stop (h : s.Sound) : s.stop.state.Sound := by
  rw [SinglePath.stop, Step.state_alter, disarm_state]
  exact .unarmed h.placed rfl

theorem call (h : s.Sound) {c : EstimatorCall}
    (hstep : ((Estimator.single s).call c).state = .single s') : s'.Sound := by
  cases c with
  | arrival now a => cases hstep; exact h.onArrival now a
  | repair a => cases hstep; exact h.onRepair a
  | timeout now key => cases hstep; exact h.onTimeout now key
  | withdrawn n =>
    cases hstep
    exact ⟨h.placed.of_slots (s.ledger.slots_noteWithdrawn n), h.running, h.ready, h.seen⟩

end Sound

theorem sound_of_reachable {e : Estimator} (h : e.Reachable) (hs : e = .single s) : s.Sound := by
  induction h generalizing s with
  | fresh fresh =>
    subst hs
    cases fresh
    exact .unarmed LossLedger.placed_initial rfl
  | @call e _ c ih =>
    cases e with
    | single t => exact (ih rfl).call hs
    | cross _ => cases c <;> cases hs
  | @reset e _ ih =>
    cases e with
    | single t => cases hs; exact (ih rfl).reset
    | cross _ => cases hs
  | @stop e _ ih =>
    cases e with
    | single t => cases hs; exact (ih rfl).stop
    | cross _ => cases hs

/-! ### Expiries in a row -/

def expire (s : SinglePath) : SinglePath :=
  match s.pending with
  | none => s
  | some p => (s.onTimeout p.deadline .basic).state

/-- The timer expires `k` times, each time at the deadline then set, and nothing else happens. -/
def stalled (s : SinglePath) : Nat → SinglePath
  | 0 => s
  | k + 1 => s.expire.stalled k

/-- Some of the next `k` expiries resets the estimator and leaves it idle without a timer. -/
def ResetsWithin (s : SinglePath) (k : Nat) : Prop :=
  ∃ i ≤ k, (s.stalled i).phase = .idle ∧ (s.stalled i).pending = none ∧
    (s.stalled i).counters.resets = s.counters.resets + 1

theorem Sound.expired_expire (h : s.Sound) (hp : s.pending = some p) :
    ∃ lost, s.Expired p s.expire lost := by
  obtain ⟨lost, -, he⟩ := expired_onTimeout (h.running (by simp [hp])) hp p.deadline
  exact ⟨lost, by simpa only [expire, hp] using he⟩

theorem ResetsWithin.mono {m : Nat} (h : s.ResetsWithin k) (hkm : k ≤ m) : s.ResetsWithin m := by
  obtain ⟨i, hi, hreset⟩ := h
  exact ⟨i, Nat.le_trans hi hkm, hreset⟩

theorem ResetsWithin.later (h : s.expire.ResetsWithin k)
    (hresets : s.expire.counters.resets = s.counters.resets) : s.ResetsWithin (k + 1) := by
  obtain ⟨i, hi, hidle, hunarmed, hcount⟩ := h
  exact ⟨i + 1, by omega, hidle, hunarmed, hcount.trans (by rw [hresets])⟩

theorem resetsWithin_one (hidle : s.expire.phase = .idle) (hunarmed : s.expire.pending = none)
    (hresets : s.expire.counters.resets = s.counters.resets + 1) : s.ResetsWithin 1 :=
  ⟨1, Nat.le_refl 1, hidle, hunarmed, hresets⟩

/-- What an expiry in a stall can do: reset, go back to the newest number, or move on. -/
inductive Stalls (s : SinglePath) (p : ExpectedPacket) : Prop
  | reset (missing : s.ledger.wasReceived p.seq = false) (now : s.ResetsWithin 1)
  | returned {last : SeqNumber} {p' : ExpectedPacket} (found : s.ledger.wasReceived p.seq = true)
      (seen : s.maxSeen = some last) (pending : s.expire.pending = some p')
      (next : p'.seq = last.next) (ledger : s.expire.ledger = s.ledger)
      (losses : s.expire.consecutiveLosses = s.consecutiveLosses)
      (newest : s.expire.maxSeen = s.maxSeen) (config : s.expire.config = s.config)
      (resets : s.expire.counters.resets = s.counters.resets)
  | moved {lost : List SeqNumber} {p' : ExpectedPacket}
      (missing : s.ledger.wasReceived p.seq = false)
      (tries : s.ledger.Tries [p.seq] s.expire.ledger lost)
      (few : s.expire.consecutiveLosses < s.config.maxConsecutiveLosses)
      (losses : s.expire.consecutiveLosses = s.consecutiveLosses + lost.length)
      (pending : s.expire.pending = some p') (next : p'.seq = p.seq.next)
      (newest : s.expire.maxSeen = s.maxSeen) (config : s.expire.config = s.config)
      (resets : s.expire.counters.resets = s.counters.resets)

theorem Sound.stalls (h : s.Sound) (hp : s.pending = some p) :
    s.expire.Sound ∧ s.Stalls p := by
  have harmed : s.pending.isSome = true := by simp [hp]
  obtain ⟨lost, he⟩ := h.expired_expire hp
  refine ⟨h.expired hp he, ?_⟩
  generalize hs' : s.expire = s' at he
  cases he with
  | received found resets timer =>
    cases timer with
    | unseen newest =>
      have hseen := h.seen harmed
      simp [show s.maxSeen = none from newest] at hseen
    | armed newest _ next resets' =>
      exact .returned found newest (by rw [hs']) next (by rw [hs']) (by rw [hs']) (by rw [hs'])
        (by rw [hs']) (by rw [hs']; exact resets'.trans resets)
    | unready _ unready => simp [h.ready harmed] at unready
  | moved missing tries few next resets =>
    exact .moved missing (by rw [hs']; exact tries) (by rw [hs']; exact few) (by rw [hs'])
      (by rw [hs']) next (by rw [hs']) (by rw [hs']) (by rw [hs']; exact resets)
  | reset missing _ _ resets =>
    exact .reset missing (resetsWithin_one (by rw [hs']) (by rw [hs']) (by rw [hs']; exact resets))

/-! ### How long a stall can last -/

/-- How many expiries are left at most, unless a received number is met. -/
def patience (s : SinglePath) (n : SeqNumber) : Nat :=
  s.ledger.hindrance n 1024 + (s.config.maxConsecutiveLosses - s.consecutiveLosses)

/-- Ahead of everything received the timer only moves on, and each expiry uses up some patience. -/
theorem Sound.resets_of_clear {s : SinglePath} {p : ExpectedPacket} (h : s.Sound)
    (hp : s.pending = some p) (hclear : s.ledger.ClearFrom p.seq) :
    s.ResetsWithin (max 1 (s.patience p.seq)) := by
  obtain ⟨hsound, hstalls⟩ := h.stalls hp
  cases hstalls with
  | reset _ now => exact now.mono (Nat.le_max_left ..)
  | returned found _ _ _ _ _ _ _ _ => simp [hclear.not_received] at found
  | moved _ tries few losses pending next _ config resets =>
    have hspent := h.placed.hindrance_tries tries
    have hrest := Sound.resets_of_clear hsound pending (next ▸ hclear.tries h.placed tries)
    refine (hrest.later resets).mono ?_
    rw [patience, patience, config, next]
    omega
termination_by s.patience p.seq
decreasing_by
  rw [patience, patience, config, next]
  omega

/-- No received number is ahead of the newest one. -/
def CaughtUp (s : SinglePath) : Prop :=
  ∀ n, s.ledger.wasReceived n = true → ∃ last ∈ s.maxSeen, last.newerOrEqual n = true

theorem CaughtUp.clearFrom_next (h : s.CaughtUp) (hlast : s.maxSeen = some last) :
    s.ledger.ClearFrom last.next := by
  intro n hn
  obtain ⟨last', hlast', hnewest⟩ := h n hn
  obtain rfl : last = last' := Option.some.inj (hlast.symm.trans hlast')
  exact SeqNumber.ahead_next_of_newerOrEqual hnewest

/-- A received number is met at most once: it sends the timer back to where all received numbers are
behind. -/
theorem Sound.resets_of_caughtUp {s : SinglePath} {p : ExpectedPacket} (h : s.Sound)
    (hp : s.pending = some p) (hcaught : s.CaughtUp) :
    s.ResetsWithin (s.patience p.seq + 32768) := by
  obtain ⟨hsound, hstalls⟩ := h.stalls hp
  cases hstalls with
  | reset _ now => exact now.mono (by omega)
  | @returned last p' found seen pending next ledger losses _ config resets =>
    have hclear : s.expire.ledger.ClearFrom p'.seq := by
      rw [ledger, next]
      exact hcaught.clearFrom_next seen
    have hmet : 0 < s.ledger.hindrance p.seq 1024 :=
      s.ledger.hindrance_pos (LossLedger.settled_of_wasReceived found) 1023
    have hbound := s.ledger.hindrance_le p'.seq 1024
    refine ((hsound.resets_of_clear pending hclear).later resets).mono ?_
    rw [patience, patience, ledger, losses, config]
    omega
  | moved _ tries few losses pending next newest config resets =>
    have hspent := h.placed.hindrance_tries tries
    have hcaught' : s.expire.CaughtUp := by
      intro n hn
      rw [newest]
      exact hcaught n (h.placed.received_of_tries tries hn).1
    have hrest := Sound.resets_of_caughtUp hsound pending hcaught'
    refine (hrest.later resets).mono ?_
    rw [patience, patience, config, next]
    omega
termination_by s.patience p.seq
decreasing_by
  rw [patience, patience, config, next]
  omega

/-- A silent stream: unless a number ahead of the newest one was received, the timer resets the
estimator after at most as many expiries as losses are allowed in a row and numbers there are. -/
theorem stall_resets (reachable : (Estimator.single s).Reachable) (armed : s.pending.isSome = true)
    (caughtUp : s.CaughtUp) : s.ResetsWithin (max 1 s.config.maxConsecutiveLosses + 65536) := by
  obtain ⟨p, hp⟩ := Option.isSome_iff_exists.mp armed
  have hsound := sound_of_reachable reachable rfl
  have hbound := s.ledger.hindrance_le p.seq 1024
  refine (hsound.resets_of_caughtUp hp caughtUp).mono ?_
  rw [patience]
  omega

theorem stall_resets_of_gap_and_repair :
    let fresh : SinglePath :=
      { config := { maxConsecutiveLosses := 2 }
        predictor := .movingAverage ⟨⟨1, []⟩, ⟨1, []⟩, 1, 1.0, none, 0.0, 0⟩ }
    let s := (((fresh.onArrival .zero ⟨.ofNat 1, none⟩).state.onArrival (.ofMillis 80)
      ⟨.ofNat 3, none⟩).state.onRepair ⟨.ofNat 2, none⟩).state
    (Estimator.single s).Reachable ∧ s.pending.isSome = true ∧ s.CaughtUp ∧
      s.ResetsWithin (max 1 s.config.maxConsecutiveLosses + 65536) := by
  intro fresh s
  have reachable : (Estimator.single s).Reachable :=
    Estimator.Reachable.after (.fresh (.single _ _))
      [.arrival .zero ⟨.ofNat 1, none⟩, .arrival (.ofMillis 80) ⟨.ofNat 3, none⟩,
        .repair ⟨.ofNat 2, none⟩]
  have armed : s.pending.isSome = true := by decide +kernel
  have newest : s.maxSeen = some (.ofNat 3) := by decide +kernel
  have remembered : ∀ o ∈ s.ledger.slots.toList, ∀ e ∈ o,
      (SeqNumber.ofNat 3).newerOrEqual e.seq = true := by
    decide +kernel
  have caughtUp : s.CaughtUp := by
    intro n hn
    obtain ⟨st, ho, -⟩ := LossLedger.wasReceived_iff.mp hn
    exact ⟨_, newest, remembered _ (LossLedger.mem_slots_of_occupant ho) _ rfl⟩
  exact ⟨reachable, armed, caughtUp, stall_resets reachable armed caughtUp⟩

/-! ### A number received ahead of the newest one -/

/-- The timer that waits for a received number goes back to that number for ever. -/
theorem Sound.waits_for_received {s : SinglePath} {p : ExpectedPacket} (h : s.Sound)
    (hp : s.pending = some p) (hlast : s.maxSeen = some last) (hnext : p.seq = last.next)
    (hfound : s.ledger.wasReceived p.seq = true) (k : Nat) :
    (s.stalled k).pending.isSome = true ∧ (s.stalled k).counters.resets = s.counters.resets := by
  induction k generalizing s p with
  | zero => exact ⟨by simp [stalled, hp], rfl⟩
  | succ k ih =>
    obtain ⟨hsound, hstalls⟩ := h.stalls hp
    cases hstalls with
    | reset missing _ => simp [hfound] at missing
    | @returned last' p' _ seen pending next ledger _ newest _ resets =>
      obtain rfl : last = last' := Option.some.inj (hlast.symm.trans seen)
      have hagain : s.expire.ledger.wasReceived p'.seq = true := by
        rw [ledger, next, ← hnext]
        exact hfound
      obtain ⟨harmed, hcount⟩ := ih hsound pending (newest.trans seen) next hagain
      exact ⟨harmed, hcount.trans resets⟩
    | moved missing _ _ _ _ _ _ _ _ => simp [hfound] at missing

/-- The number after the newest one is repaired before it is lost. Its timer never resets. -/
theorem repair_ahead_stalls_forever :
    let fresh : SinglePath :=
      { config := { maxConsecutiveLosses := 1 }
        predictor := .movingAverage ⟨⟨1, []⟩, ⟨1, []⟩, 1, 1.0, none, 0.0, 0⟩ }
    let s := (((fresh.onArrival .zero ⟨.ofNat 1, none⟩).state.onArrival (.ofMillis 40)
      ⟨.ofNat 2, none⟩).state.onRepair ⟨.ofNat 3, none⟩).state
    (Estimator.single s).Reachable ∧ s.pending.isSome = true ∧ ∀ k, ¬ s.ResetsWithin k := by
  intro fresh s
  have reachable : (Estimator.single s).Reachable :=
    Estimator.Reachable.after (.fresh (.single _ _))
      [.arrival .zero ⟨.ofNat 1, none⟩, .arrival (.ofMillis 40) ⟨.ofNat 2, none⟩,
        .repair ⟨.ofNat 3, none⟩]
  have armed : s.pending.map (·.seq) = some (.ofNat 3) := by decide +kernel
  obtain ⟨p, hp, hseq⟩ := Option.map_eq_some_iff.mp armed
  have newest : s.maxSeen = some (.ofNat 2) := by decide +kernel
  have found : s.ledger.wasReceived (.ofNat 3) = true := by decide +kernel
  refine ⟨reachable, by simp [hp], fun k ⟨i, _, _, hunarmed, _⟩ => ?_⟩
  have hwaits := (sound_of_reachable reachable rfl).waits_for_received hp newest hseq
    (hseq ▸ found) i
  simp [hunarmed] at hwaits

end SinglePath
end LossWatch
