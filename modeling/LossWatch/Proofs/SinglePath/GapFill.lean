import LossWatch.Proofs.SinglePath.Steps

/-!
What a forward jump reports. The skipped numbers are tried one after another, each in the ledger that
the ones before it have left, so the losses reported are those that are open when they are reached, in
order and before any timer moves. A jump that is too long reports none and starts the timer anew.
-/

namespace LossWatch.SinglePath

variable {s s' : SinglePath} {now : Timestamp} {last seq : SeqNumber}

theorem mem_openAlong_between (newer : seq.newer last = true) (l : LossLedger) (now : Timestamp)
    (n : SeqNumber) : n ∈ l.openAlong now (last.between seq) ↔
      (0 < n.ahead last ∧ n.ahead last < seq.ahead last) ∧
        ¬ (l.assumeAll now (last.between n)).Settled n := by
  rw [← SeqNumber.mem_between_iff newer]
  by_cases hn : n ∈ last.between seq
  · obtain ⟨rest, hsplit⟩ := SeqNumber.between_eq_append newer hn
    have hnodup : (last.between seq).Nodup :=
      (SeqNumber.pairwise_ahead_between newer).imp fun hlt =>
        ne_of_apply_ne (SeqNumber.ahead · last) (Nat.ne_of_lt hlt)
    rw [hsplit] at hnodup ⊢
    rw [LossLedger.mem_openAlong_iff hnodup]
    simp
  · exact iff_of_false (fun h => hn ((l.openAlong_sublist now _).subset h)) fun h => hn h.1

/-! ### The newest number moves -/

theorem actions_disarm (s : SinglePath) :
    s.disarm.actions = s.pending.toList.map fun _ => .cancel .basic := by
  rw [disarm]
  cases s.pending <;> rfl

/-- Starting the timer anew at an arrival: what is armed is cancelled, and then a predictor that is ready
arms it for the packet one prediction later. -/
def restartTimer (s : SinglePath) (now : Timestamp) : List Action :=
  (s.pending.toList.map fun _ => .cancel .basic) ++ if s.predictor.isReady then
    [.arm .basic (now.futureDeadline ((now.after s.predictor.prediction).after s.config.guard))]
  else []

theorem emitted_restartTimer (s : SinglePath) (now : Timestamp) :
    emitted (s.restartTimer now) = [] := by
  rw [restartTimer, ← actions_disarm, emitted_append, emitted_disarm, List.nil_append]
  cases s.predictor.isReady <;> rfl

theorem actions_armFromPrediction (newest : s.maxSeen = some last) (current : s.lastArrival = now) :
    (s.armFromPrediction now).actions = s.restartTimer now := by
  rw [armFromPrediction, newest, restartTimer, ← actions_disarm]
  dsimp only
  cases s.predictor.isReady with
  | false => exact (Step.actions_alter ..).trans (List.append_nil _).symm
  | true =>
    simp only [if_true, arm, current, Step.actions_andThen, Step.actions_act, actions_disarm]
    rfl

theorem Rearmed.ledger (h : s.Rearmed s') :
    s'.ledger = s.ledger ∧ s'.predictor = s.predictor := by
  cases h <;> exact ⟨rfl, rfl⟩

theorem advance_near (newest : s.maxSeen = some last) (newer : seq.newer last = true)
    (near : seq.ahead last ≤ s.config.maxGapFill) (now : Timestamp) :
    ∃ counters, (s.advance now seq).state =
        { s with
          predictor := s.predictor.insert ((now.since s.lastArrival).share (seq.ahead last))
          ledger := s.ledger.assumeAll now (last.between seq), counters
          maxSeen := some seq, lastArrival := now } ∧
      (s.advance now seq).actions =
        (losses (s.ledger.openAlong now (last.between seq))).map .emit := by
  have hgap : (last.distance seq).toNat = seq.ahead last := by
    rw [SeqNumber.distance_of_newer newer, Int.toNat_natCast]
  have hnear : ¬ s.config.maxGapFill < (last.distance seq).toNat := by omega
  obtain ⟨counters, -, hstate, hactions⟩ := forEach_declareLost now (last.between seq)
    { s with predictor := s.predictor.insert ((now.since s.lastArrival).share (seq.ahead last)) }
  rw [advance]
  split
  · simp_all
  · rename_i newest' hnewest
    obtain rfl : newest' = last := Option.some.inj (hnewest.symm.trans newest)
    rw [if_pos newer]
    dsimp only
    rw [if_neg hnear, hgap, Step.state_alter, Step.actions_alter, hstate, hactions]
    exact ⟨counters, rfl, rfl⟩

theorem advance_far (newest : s.maxSeen = some last) (newer : seq.newer last = true)
    (far : s.config.maxGapFill < seq.ahead last) (now : Timestamp) :
    ∃ counters, (s.advance now seq).state =
        { s with pending := none, maxSeen := some seq, lastArrival := now, counters } ∧
      (s.advance now seq).actions = s.disarm.actions := by
  have hgap : (last.distance seq).toNat = seq.ahead last := by
    rw [SeqNumber.distance_of_newer newer, Int.toNat_natCast]
  have hfar : s.config.maxGapFill < (last.distance seq).toNat := by omega
  rw [advance]
  split
  · simp_all
  · rename_i newest' hnewest
    obtain rfl : newest' = last := Option.some.inj (hnewest.symm.trans newest)
    rw [if_pos newer]
    dsimp only
    rw [if_pos hfar, Step.state_alter, Step.actions_alter, Step.state_andThen,
      Step.actions_andThen, disarm_state, actions_disarm, actions_disarm]
    exact ⟨_, rfl, rfl⟩

/-- Over a near jump the losses are reported first, and then the timer follows if it waited for no later
number. -/
theorem accept_near (newest : s.maxSeen = some last) (newer : seq.newer last = true)
    (near : seq.ahead last ≤ s.config.maxGapFill) (now : Timestamp) :
    ∃ timers : List Action, emitted timers = [] ∧
      (s.accept now seq).actions =
        (losses (s.ledger.openAlong now (last.between seq))).map .emit ++ timers ∧
      (s.accept now seq).state.ledger = s.ledger.assumeAll now (last.between seq) ∧
      (s.accept now seq).state.predictor =
        s.predictor.insert ((now.since s.lastArrival).share (seq.ahead last)) ∧
      (s.accept now seq).state.maxSeen = some seq := by
  obtain ⟨counters, hstate, hactions⟩ :=
    advance_near (s := { s with consecutiveLosses := 0 }) newest newer near now
  rw [accept, Step.state_andThen, Step.actions_andThen, hactions]
  generalize hmoved : (advance { s with consecutiveLosses := 0 } now seq).state = moved
  rw [hmoved] at hstate
  split
  · obtain ⟨hrearmed, hsilent⟩ := moved.rearmed_armFromPrediction now
    obtain ⟨hledger, hpredictor⟩ := hrearmed.ledger
    exact ⟨_, hsilent, rfl, hledger.trans (by rw [hstate]), hpredictor.trans (by rw [hstate]),
      hrearmed.maxSeen.trans (by rw [hstate])⟩
  · rw [hstate]
    exact ⟨[], rfl, rfl, rfl, rfl, rfl⟩

/-- Over a far jump nothing is reported or learned, and the timer starts anew. -/
theorem accept_far (newest : s.maxSeen = some last) (newer : seq.newer last = true)
    (far : s.config.maxGapFill < seq.ahead last) (now : Timestamp) :
    (s.accept now seq).actions = s.restartTimer now ∧
      (s.accept now seq).state.ledger = s.ledger ∧
      (s.accept now seq).state.predictor = s.predictor ∧
      (s.accept now seq).state.maxSeen = some seq := by
  obtain ⟨counters, hstate, hactions⟩ :=
    advance_far (s := { s with consecutiveLosses := 0 }) newest newer far now
  let moved : SinglePath :=
    { s with consecutiveLosses := 0, pending := none, maxSeen := some seq, lastArrival := now, counters }
  have hmoved : (advance { s with consecutiveLosses := 0 } now seq).state = moved := hstate
  obtain ⟨hrearmed, -⟩ := moved.rearmed_armFromPrediction now
  obtain ⟨hledger, hpredictor⟩ := hrearmed.ledger
  have hsatisfied : moved.satisfiedBy seq = true := rfl
  rw [accept, Step.state_andThen, Step.actions_andThen, hactions, hmoved, if_pos hsatisfied,
    actions_armFromPrediction (s := moved) rfl rfl, hledger, hpredictor, hrearmed.maxSeen, actions_disarm]
  exact ⟨rfl, rfl, rfl, rfl⟩

theorem onArrival_of_recorded {a : Arrival} (running : s.stopped = false)
    (recorded : (s.ledger.receive now a.seq).1.isRecorded = true) :
    ∃ counters, let entered := { s with ledger := (s.ledger.receive now a.seq).2, counters }
      (s.onArrival now a).state = (entered.accept now a.seq).state ∧
      (s.onArrival now a).actions =
        ((s.ledger.receive now a.seq).1.lateReport a.seq a.position).map .emit ++
          (entered.accept now a.seq).actions := by
  have hrun : ¬ s.stopped = true := ne_true_of_eq_false running
  rw [onArrival, if_neg hrun]
  dsimp only
  cases hr : (s.ledger.receive now a.seq).1 with
  | fresh => exact ⟨s.counters, rfl, rfl⟩
  | recovered => exact ⟨s.counters, rfl, rfl⟩
  | falsePositive d => exact ⟨_, rfl, rfl⟩
  | duplicate => simp [hr, Reception.isRecorded] at recorded
  | stale => simp [hr, Reception.isRecorded] at recorded

/-- An arrival that is new or was taken for lost too early, and lies ahead of the newest number. If it
is at most `maxGapFill` ahead, the losses that the call reports are, in ascending order, those of the
numbers in between that the ledger does not know and whose slot no newer number holds when the pass has
come to them; they come before all timer actions, and the predictor gets the time since the last
arrival, shared among the steps. If it is further ahead, no loss is reported, nothing is learned, and a
timer that is armed is cancelled before the next one is armed. Either way the arrival is then the
newest number. -/
theorem gap_reported_in_order {a : Arrival} (running : s.stopped = false)
    (recorded : (s.ledger.receive now a.seq).1 = .fresh ∨
      ∃ lateBy, (s.ledger.receive now a.seq).1 = .falsePositive lateBy)
    (newest : s.maxSeen = some last) (newer : a.seq.newer last = true) :
    let gap := a.seq.ahead last
    let entered := (s.ledger.receive now a.seq).2
    let reached := fun n => entered.assumeAll now (last.between n)
    let after := (s.onArrival now a).state
    ∃ (lost : List SeqNumber) (timers : List Action),
      (s.onArrival now a).actions =
        ((s.ledger.receive now a.seq).1.lateReport a.seq a.position ++ losses lost).map .emit ++
          timers ∧
      emitted timers = [] ∧ after.maxSeen = some a.seq ∧
      if gap ≤ s.config.maxGapFill then
        lost.Pairwise (fun m n => m.ahead last < n.ahead last) ∧
        (∀ n, n ∈ lost ↔ (0 < n.ahead last ∧ n.ahead last < gap) ∧
          (reached n).isResolved n = false ∧ (reached n).overtaken n = false) ∧
        after.ledger = reached a.seq ∧
        after.predictor = s.predictor.insert ((now.since s.lastArrival).share gap)
      else
        lost = [] ∧ after.ledger = entered ∧ after.predictor = s.predictor ∧
        timers = s.restartTimer now := by
  intro gap entered reached after
  have hrecorded : (s.ledger.receive now a.seq).1.isRecorded = true := by
    rcases recorded with hr | ⟨lateBy, hr⟩ <;> rw [hr] <;> rfl
  obtain ⟨counters, hstate, hactions⟩ := onArrival_of_recorded running hrecorded
  have hafter : after = _ := hstate
  by_cases near : gap ≤ s.config.maxGapFill
  · obtain ⟨timers, hsilent, haccept, hledger, hpredictor, hmaxSeen⟩ :=
      accept_near (s := { s with ledger := entered, counters }) newest newer near now
    refine ⟨entered.openAlong now (last.between a.seq), timers, ?_, hsilent, ?_, ?_⟩
    · rw [hactions, haccept, List.map_append, List.append_assoc]
    · rw [hafter, hmaxSeen]
    · rw [if_pos near]
      have hsorted := SeqNumber.pairwise_ahead_between newer
      have hsub := entered.openAlong_sublist now (last.between a.seq)
      refine ⟨hsorted.sublist hsub, fun n => ?_, ?_, ?_⟩
      · rw [mem_openAlong_between newer, LossLedger.settled_iff, not_or, Bool.not_eq_true,
          Bool.not_eq_true]
      · rw [hafter, hledger]
      · rw [hafter, hpredictor]
  · obtain ⟨haccept, hledger, hpredictor, hmaxSeen⟩ :=
      accept_far (s := { s with ledger := entered, counters }) newest newer (Nat.lt_of_not_le near) now
    refine ⟨[], s.restartTimer now, ?_, s.emitted_restartTimer now, hafter ▸ hmaxSeen, ?_⟩
    · rw [hactions, haccept, losses, List.map_nil, List.append_nil]
      rfl
    · rw [if_neg near]
      exact ⟨rfl, hafter ▸ hledger, hafter ▸ hpredictor, rfl⟩

theorem gap_reported_in_order_of_three_missing :
    let p : Predictor := .movingAverage ⟨⟨1, []⟩, ⟨1, []⟩, 1, 1.0, none, 0.0, 0⟩
    let s := (SinglePath.onArrival { config := {}, predictor := p } .zero ⟨.ofNat 1, none⟩).state
    let a : Arrival := ⟨.ofNat 5, none⟩
    let now := Timestamp.ofMillis 40
    let reached := fun n => (s.ledger.receive now a.seq).2.assumeAll now ((SeqNumber.ofNat 1).between n)
    ∃ (lost : List SeqNumber) (timers : List Action),
      (s.onArrival now a).actions = (losses lost).map .emit ++ timers ∧ emitted timers = [] ∧
      ∀ n, n ∈ lost ↔ (0 < n.ahead (.ofNat 1) ∧ n.ahead (.ofNat 1) < 4) ∧
        (reached n).isResolved n = false ∧ (reached n).overtaken n = false := by
  intro p s a now reached
  have fresh : (s.ledger.receive now a.seq).1 = .fresh := by decide +kernel
  have gap : a.seq.ahead (.ofNat 1) = 4 := by decide +kernel
  have near : 4 ≤ s.config.maxGapFill := by decide +kernel
  have running : s.stopped = false := by decide +kernel
  have newest : s.maxSeen = some (.ofNat 1) := by decide +kernel
  have newer : a.seq.newer (.ofNat 1) = true := by decide +kernel
  have reported := gap_reported_in_order running (.inl fresh) newest newer
  simp only [if_pos near, gap, fresh] at reported
  obtain ⟨lost, timers, hactions, hsilent, -, -, hlost, -⟩ := reported
  exact ⟨lost, timers, hactions, hsilent, hlost⟩

end LossWatch.SinglePath
