import LossWatch.Proofs.Estimator.Declarations
import LossWatch.Proofs.LossLedger.Reach

/-!
What the steps of the single-path estimator can do, one relation per step: what it leaves behind and
which losses it reports. Everything later on this estimator is read off these relations.
-/

namespace LossWatch.SinglePath

variable {s s' : SinglePath} {n seq : SeqNumber} {now : Timestamp} {p : ExpectedPacket}

theorem disarm_state (s : SinglePath) : s.disarm.state = { s with pending := none } := by
  cases h : s.pending with
  | none =>
    simp only [disarm, h, Step.state_stay]
    rw [← h]
  | some p => simp only [disarm, h, Step.state_act]

theorem arm_state (s : SinglePath) (now : Timestamp) (seq : SeqNumber) (due : Timestamp) :
    ∃ p : ExpectedPacket, p.seq = seq ∧
      (s.arm now seq due).state = { s with pending := some p, phase := .armed } := by
  refine ⟨⟨seq, due, now.futureDeadline (due.after s.config.guard)⟩, rfl, ?_⟩
  simp only [arm, Step.state_andThen, Step.state_act, disarm_state]

theorem emitted_arm (s : SinglePath) (now : Timestamp) (seq : SeqNumber) (due : Timestamp) :
    emitted (s.arm now seq due).actions = [] := by
  simp only [arm, Step.actions_andThen, emitted_append, emitted_disarm, Step.actions_act]
  rfl

/-! ### Arming from the newest number -/

inductive Rearmed (s : SinglePath) : SinglePath → Prop
  | unseen (newest : s.maxSeen = none) : Rearmed s s
  | armed {last : SeqNumber} {p : ExpectedPacket} {counters : SingleCounters}
      (newest : s.maxSeen = some last) (ready : s.predictor.isReady = true)
      (next : p.seq = last.next) (resets : counters.resets = s.counters.resets) :
      Rearmed s { s with pending := some p, phase := .armed, counters }
  | unready {last : SeqNumber} (newest : s.maxSeen = some last)
      (unready : s.predictor.isReady = false) :
      Rearmed s { s with pending := none, phase := .predicting }

theorem Rearmed.maxSeen (h : s.Rearmed s') : s'.maxSeen = s.maxSeen := by
  cases h <;> rfl

theorem rearmed_armFromPrediction (s : SinglePath) (now : Timestamp) :
    s.Rearmed (s.armFromPrediction now).state ∧ emitted (s.armFromPrediction now).actions = [] := by
  unfold armFromPrediction
  cases hnewest : s.maxSeen with
  | none => exact ⟨.unseen hnewest, rfl⟩
  | some last =>
    cases hready : s.predictor.isReady with
    | true =>
      simp only [if_true]
      refine ⟨?_, emitted_arm ..⟩
      obtain ⟨p, hp, hstate⟩ := arm_state
        (s.count fun c => { c with predictions := c.predictions + 1 })
        now last.next (s.lastArrival.after s.predictor.prediction)
      rw [hstate]
      exact .armed hnewest hready hp rfl
    | false =>
      refine ⟨?_, s.emitted_disarm⟩
      simp only [Bool.false_eq_true, if_false, Step.state_alter, disarm_state]
      exact .unready hnewest hready

/-! ### Declaring losses -/

def losses (ns : List SeqNumber) : List LossEvent := ns.map (.lost · none)

theorem emitted_map_emit (evs : List LossEvent) : emitted (evs.map .emit) = evs := by
  unfold emitted
  rw [List.filterMap_map]
  exact List.filterMap_some

theorem tries_declareLost (now : Timestamp) (n : SeqNumber) (s : SinglePath) :
    ∃ ledger counters lost, counters.resets = s.counters.resets ∧
      (s.declareLost now n).state = { s with ledger, counters } ∧
      (s.declareLost now n).actions = (losses lost).map .emit ∧
      s.ledger.Tries [n] ledger lost := by
  unfold declareLost
  cases h : s.ledger.assumeLost? now n with
  | none =>
    have hknown := LossLedger.assumeLost?_eq_none_iff.mp h
    exact ⟨s.ledger, s.counters, [], rfl, rfl, rfl, .settled hknown (.nil _)⟩
  | some ledger =>
    exact ⟨ledger, { s.counters with losses := s.counters.losses + 1 }, [n], rfl, rfl, rfl,
      .lost h (.nil _)⟩

theorem forEach_declareLost (now : Timestamp) (ns : List SeqNumber) (s : SinglePath) :
    ∃ counters, counters.resets = s.counters.resets ∧
      (Step.forEach (declareLost now) ns s).state =
        { s with ledger := s.ledger.assumeAll now ns, counters } ∧
      (Step.forEach (declareLost now) ns s).actions =
        (losses (s.ledger.openAlong now ns)).map .emit := by
  induction ns generalizing s with
  | nil => exact ⟨s.counters, rfl, rfl, rfl⟩
  | cons n ns ih =>
    obtain ⟨counters, hresets, hstate, hactions⟩ := ih (s.declareLost now n).state
    rw [Step.forEach, Step.state_andThen, Step.actions_andThen, hstate, hactions,
      LossLedger.assumeAll_cons, LossLedger.openAlong]
    rw [declareLost] at hresets ⊢
    cases h : s.ledger.assumeLost? now n with
    | none =>
      rw [h] at hresets
      exact ⟨counters, hresets, rfl, rfl⟩
    | some ledger =>
      rw [h] at hresets
      exact ⟨counters, hresets, rfl, rfl⟩

/-! ### Arrivals -/

/-- How an accepted arrival moves the newest number, and the losses that makes known. -/
inductive Advanced (s : SinglePath) (now : Timestamp) (seq : SeqNumber) :
    SinglePath → List SeqNumber → Prop
  | first (newest : s.maxSeen = none) :
      Advanced s now seq { s with maxSeen := some seq, lastArrival := now, phase := .predicting } []
  | behind {last : SeqNumber} (newest : s.maxSeen = some last) (old : seq.newer last = false) :
      Advanced s now seq s []
  | jumped {last : SeqNumber} {counters : SingleCounters} (newest : s.maxSeen = some last)
      (newer : seq.newer last = true) (far : s.config.maxGapFill < (last.distance seq).toNat)
      (resets : counters.resets = s.counters.resets) :
      Advanced s now seq
        { s with pending := none, maxSeen := some seq, lastArrival := now, counters } []
  | filled {last : SeqNumber} {sample : Duration} {ledger : LossLedger}
      {counters : SingleCounters} {lost : List SeqNumber} (newest : s.maxSeen = some last)
      (newer : seq.newer last = true) (near : (last.distance seq).toNat ≤ s.config.maxGapFill)
      (resets : counters.resets = s.counters.resets)
      (tries : s.ledger.Tries (last.between seq) ledger lost) :
      Advanced s now seq
        { s with predictor := s.predictor.insert sample, ledger, counters
                 maxSeen := some seq, lastArrival := now } lost

theorem advanced_advance (s : SinglePath) (now : Timestamp) (seq : SeqNumber) :
    ∃ lost, emitted (s.advance now seq).actions = losses lost ∧
      s.Advanced now seq (s.advance now seq).state lost := by
  unfold advance
  split
  · exact ⟨[], rfl, .first ‹_›⟩
  · rename_i last hnewest
    cases hnewer : seq.newer last with
    | false => exact ⟨[], rfl, .behind hnewest hnewer⟩
    | true =>
      simp only [if_true, Step.state_alter, Step.actions_alter]
      by_cases hfar : s.config.maxGapFill < (last.distance seq).toNat
      · simp only [if_pos hfar, Step.state_andThen, Step.actions_andThen, emitted_append,
          emitted_disarm, disarm_state]
        exact ⟨[], rfl, .jumped hnewest hnewer hfar rfl⟩
      · simp only [if_neg hfar]
        obtain ⟨counters, hresets, hstate, hactions⟩ :=
          forEach_declareLost now (last.between seq)
            { s with predictor := s.predictor.insert
                      ((now.since s.lastArrival).share (last.distance seq).toNat) }
        have htries := s.ledger.tries_assumeAll now (last.between seq)
        rw [hstate, hactions, emitted_map_emit]
        exact ⟨_, rfl, .filled hnewest hnewer (Nat.le_of_not_lt hfar) hresets htries⟩

/-- The timer stays when it waits for a later number, and follows the newest one otherwise. -/
inductive Accepted (s : SinglePath) (now : Timestamp) (seq : SeqNumber) :
    SinglePath → List SeqNumber → Prop
  | waiting {s' : SinglePath} {lost : List SeqNumber} {p : ExpectedPacket}
      (advanced : Advanced { s with consecutiveLosses := 0 } now seq s' lost)
      (pending : s'.pending = some p) (later : seq.newerOrEqual p.seq = false) :
      Accepted s now seq s' lost
  | rearmed {s₁ s' : SinglePath} {lost : List SeqNumber}
      (advanced : Advanced { s with consecutiveLosses := 0 } now seq s₁ lost)
      (timer : s₁.Rearmed s') : Accepted s now seq s' lost

theorem accepted_accept (s : SinglePath) (now : Timestamp) (seq : SeqNumber) :
    ∃ lost, emitted (s.accept now seq).actions = losses lost ∧
      s.Accepted now seq (s.accept now seq).state lost := by
  obtain ⟨lost, hevents, hadvanced⟩ := advanced_advance { s with consecutiveLosses := 0 } now seq
  refine ⟨lost, ?_⟩
  simp only [accept, Step.state_andThen, Step.actions_andThen, emitted_append, hevents]
  generalize (advance { s with consecutiveLosses := 0 } now seq).state = s₁ at hadvanced ⊢
  by_cases hsatisfied : s₁.satisfiedBy seq = true
  · obtain ⟨htimer, hsilent⟩ := s₁.rearmed_armFromPrediction now
    rw [if_pos hsatisfied, hsilent, List.append_nil]
    exact ⟨rfl, .rearmed hadvanced htimer⟩
  · rw [if_neg hsatisfied]
    cases hp : s₁.pending with
    | none => simp [satisfiedBy, hp] at hsatisfied
    | some p =>
      exact ⟨List.append_nil _, .waiting hadvanced hp (by simpa [satisfiedBy, hp] using hsatisfied)⟩

/-- An arrival is recorded first, and only then accepted. -/
inductive Arrived (s : SinglePath) (now : Timestamp) (seq : SeqNumber) :
    SinglePath → List SeqNumber → Prop
  | ignored (known : (s.ledger.receive now seq).1.isRecorded = false) :
      Arrived s now seq { s with ledger := (s.ledger.receive now seq).2 } []
  | recorded {s' : SinglePath} {counters : SingleCounters} {lost : List SeqNumber}
      (entered : (s.ledger.receive now seq).1.isRecorded = true)
      (resets : counters.resets = s.counters.resets)
      (accepted : Accepted { s with ledger := (s.ledger.receive now seq).2, counters } now seq
        s' lost) :
      Arrived s now seq s' lost

theorem arrived_onArrival (hrun : s.stopped = false) (now : Timestamp) (a : Arrival) :
    ∃ lost, emitted (s.onArrival now a).actions =
        (s.ledger.receive now a.seq).1.lateReport a.seq a.position ++ losses lost ∧
      s.Arrived now a.seq (s.onArrival now a).state lost := by
  have hrun' : ¬ s.stopped = true := by simp [hrun]
  rw [onArrival, if_neg hrun']
  dsimp only
  cases hr : (s.ledger.receive now a.seq).1 with
  | duplicate => exact ⟨[], rfl, .ignored (by rw [hr]; rfl)⟩
  | stale => exact ⟨[], rfl, .ignored (by rw [hr]; rfl)⟩
  | fresh =>
    obtain ⟨lost, hevents, haccepted⟩ :=
      accepted_accept { s with ledger := (s.ledger.receive now a.seq).2 } now a.seq
    exact ⟨lost, hevents, .recorded (by rw [hr]; rfl) rfl haccepted⟩
  | recovered =>
    obtain ⟨lost, hevents, haccepted⟩ :=
      accepted_accept { s with ledger := (s.ledger.receive now a.seq).2 } now a.seq
    exact ⟨lost, hevents, .recorded (by rw [hr]; rfl) rfl haccepted⟩
  | falsePositive d =>
    let counters := { s.counters with falsePositives := s.counters.falsePositives + 1 }
    have hresets : counters.resets = s.counters.resets := rfl
    obtain ⟨lost, hevents, haccepted⟩ :=
      accepted_accept { s with ledger := (s.ledger.receive now a.seq).2, counters } now a.seq
    refine ⟨lost, ?_, .recorded (by rw [hr]; rfl) hresets haccepted⟩
    exact congrArg (LossEvent.falsePositive a.seq a.position :: ·) hevents

/-! ### Expiries -/

inductive Expired (s : SinglePath) (p : ExpectedPacket) : SinglePath → List SeqNumber → Prop
  | received {s' : SinglePath} {counters : SingleCounters}
      (found : s.ledger.wasReceived p.seq = true) (resets : counters.resets = s.counters.resets)
      (timer : Rearmed { s with pending := none, phase := .resolved, counters } s') :
      Expired s p s' []
  | moved {ledger : LossLedger} {lost : List SeqNumber} {p' : ExpectedPacket}
      {counters : SingleCounters} (missing : s.ledger.wasReceived p.seq = false)
      (tries : s.ledger.Tries [p.seq] ledger lost)
      (few : s.consecutiveLosses + lost.length < s.config.maxConsecutiveLosses)
      (next : p'.seq = p.seq.next) (resets : counters.resets = s.counters.resets) :
      Expired s p
        { s with ledger, counters, pending := some p', phase := .armed
                 consecutiveLosses := s.consecutiveLosses + lost.length } lost
  | reset {ledger : LossLedger} {lost : List SeqNumber} {counters : SingleCounters}
      (missing : s.ledger.wasReceived p.seq = false)
      (tries : s.ledger.Tries [p.seq] ledger lost)
      (many : s.config.maxConsecutiveLosses ≤ s.consecutiveLosses + lost.length)
      (resets : counters.resets = s.counters.resets + 1) :
      Expired s p
        { s with
          predictor := s.predictor.reset
          ledger := ledger.clearHistory
          maxSeen := none
          lastArrival := .zero
          pending := none
          consecutiveLosses := 0
          counters
          phase := .idle } lost

theorem afterMiss_state (s : SinglePath) (now : Timestamp) (p : ExpectedPacket) :
    emitted (s.afterMiss now p).actions = [] ∧
      if s.config.maxConsecutiveLosses ≤ s.consecutiveLosses then
        (s.afterMiss now p).state = s.fullReset.state
      else ∃ p' : ExpectedPacket, p'.seq = p.seq.next ∧
        (s.afterMiss now p).state = { s with pending := some p', phase := .armed } := by
  unfold afterMiss
  split
  · exact ⟨s.emitted_disarm, rfl⟩
  · exact ⟨emitted_arm .., arm_state ..⟩

theorem fullReset_state (s : SinglePath) : s.fullReset.state =
    { s with
      predictor := s.predictor.reset, ledger := s.ledger.clearHistory, maxSeen := none
      lastArrival := .zero, pending := none, consecutiveLosses := 0, phase := .idle
      counters := { s.counters with resets := s.counters.resets + 1 } } := by
  simp only [fullReset, Step.state_alter, disarm_state]

theorem expired_miss (counters : SingleCounters) (now : Timestamp)
    (missing : s.ledger.wasReceived p.seq = false) (hresets : counters.resets = s.counters.resets) :
    let r := miss { s with pending := none, counters } now p
    ∃ lost, emitted r.actions = losses lost ∧ s.Expired p r.state lost := by
  intro r
  obtain ⟨ledger, counters₁, lost, hresets₁, hstate, hactions, htries⟩ :=
    tries_declareLost now p.seq { s with pending := none, counters }
  have hcount : (if (losses lost).map Action.emit = [] then s.consecutiveLosses
      else s.consecutiveLosses + 1) = s.consecutiveLosses + lost.length := by
    cases htries with
    | settled _ rest => cases rest with | nil => rfl
    | lost _ rest => cases rest with | nil => rfl
  let missed : SinglePath :=
    { s with
      ledger, counters := counters₁, pending := none
      consecutiveLosses := s.consecutiveLosses + lost.length }
  have hr : r.state = (missed.afterMiss now p).state ∧
      emitted r.actions = losses lost ++ emitted (missed.afterMiss now p).actions := by
    simp only [r, miss, Step.state_andThen, Step.state_alter, Step.actions_andThen,
      Step.actions_alter, emitted_append, hstate, hactions, emitted_map_emit, List.isEmpty_iff,
      hcount]
    exact ⟨rfl, rfl⟩
  obtain ⟨hsilent, hafter⟩ := missed.afterMiss_state now p
  refine ⟨lost, by rw [hr.2, hsilent, List.append_nil], ?_⟩
  rw [hr.1]
  by_cases hmany : s.config.maxConsecutiveLosses ≤ s.consecutiveLosses + lost.length
  · rw [if_pos hmany, fullReset_state] at hafter
    rw [hafter]
    exact .reset missing htries hmany (congrArg (· + 1) (hresets₁.trans hresets))
  · rw [if_neg hmany] at hafter
    obtain ⟨p', hnext, hmoved⟩ := hafter
    rw [hmoved]
    exact .moved missing htries (Nat.lt_of_not_le hmany) hnext (hresets₁.trans hresets)

theorem expired_onTimeout (hrun : s.stopped = false) (hp : s.pending = some p) (now : Timestamp) :
    ∃ lost, emitted (s.onTimeout now .basic).actions = losses lost ∧
      s.Expired p (s.onTimeout now .basic).state lost := by
  have hrun' : ¬ (s.stopped || decide (TimerKey.basic ≠ .basic)) = true := by simp [hrun]
  rw [onTimeout, if_neg hrun', hp]
  dsimp only
  by_cases hfound : s.ledger.wasReceived p.seq = true
  · rw [if_pos (by exact hfound)]
    let counted : SinglePath :=
      { s with
        pending := none, phase := .resolved
        counters := { s.counters with timeouts := s.counters.timeouts + 1 } }
    obtain ⟨htimer, hsilent⟩ := counted.rearmed_armFromPrediction now
    have hresets : counted.counters.resets = s.counters.resets := rfl
    exact ⟨[], hsilent, .received hfound hresets htimer⟩
  · rw [if_neg (by exact hfound)]
    exact expired_miss { s.counters with timeouts := s.counters.timeouts + 1 } now
      (by simpa using hfound) rfl

theorem onTimeout_cases (s : SinglePath) (now : Timestamp) (key : TimerKey) :
    s.onTimeout now key = .stay s ∨ ∃ p lost, s.stopped = false ∧ s.pending = some p ∧
      emitted (s.onTimeout now key).actions = losses lost ∧
      s.Expired p (s.onTimeout now key).state lost := by
  by_cases hrun : s.stopped = false
  · by_cases hkey : key = .basic
    · subst hkey
      cases hp : s.pending with
      | none => left; simp [onTimeout, hp]
      | some p =>
        obtain ⟨lost, hevents, hexpired⟩ := expired_onTimeout hrun hp now
        exact Or.inr ⟨p, lost, hrun, rfl, hevents, hexpired⟩
    · left; simp [onTimeout, hkey]
  · left; simp [onTimeout, hrun]

/-! ### The configuration -/

theorem Rearmed.config (h : s.Rearmed s') : s'.config = s.config := by
  cases h <;> rfl

theorem Advanced.config {lost : List SeqNumber} (h : s.Advanced now seq s' lost) :
    s'.config = s.config := by
  cases h <;> rfl

theorem Arrived.config {lost : List SeqNumber} (h : s.Arrived now seq s' lost) :
    s'.config = s.config := by
  cases h with
  | ignored _ => rfl
  | recorded _ _ accepted =>
    cases accepted with
    | waiting advanced _ _ => exact advanced.config
    | rearmed advanced timer => exact timer.config.trans advanced.config

theorem Expired.config {lost : List SeqNumber} (h : s.Expired p s' lost) :
    s'.config = s.config := by
  cases h with
  | received _ _ timer => exact timer.config
  | moved _ _ _ _ _ => rfl
  | reset _ _ _ _ => rfl

theorem config_onArrival (s : SinglePath) (now : Timestamp) (a : Arrival) :
    (s.onArrival now a).state.config = s.config := by
  cases hs : s.stopped with
  | true => simp [onArrival, hs]
  | false =>
    obtain ⟨lost, -, h⟩ := arrived_onArrival hs now a
    exact h.config

theorem config_onTimeout (s : SinglePath) (now : Timestamp) (key : TimerKey) :
    (s.onTimeout now key).state.config = s.config := by
  rcases s.onTimeout_cases now key with hstay | ⟨p, lost, -, -, -, h⟩
  · rw [hstay, Step.state_stay]
  · exact h.config

theorem config_onRepair (s : SinglePath) (a : Arrival) :
    (s.onRepair a).state.config = s.config := by
  cases hs : s.stopped <;> simp [onRepair, hs]

end LossWatch.SinglePath
