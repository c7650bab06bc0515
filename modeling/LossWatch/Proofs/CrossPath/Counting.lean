import LossWatch.Proofs.CrossPath.History
import LossWatch.Proofs.Estimator.Counting

/-!
The cross-path estimator never looks at what it has counted, and whatever it learns, a reset takes
away: both models, the flows and their order, the anchor and the timers. It is left with its
configuration and the constants of its predictors.
-/

namespace LossWatch.CrossPath

variable {s : CrossPath} {now : Timestamp}

def uncounted (s : CrossPath) : CrossPath :=
  { s with counters := {}, ledger := s.ledger.untotaled }

def unlearnt (s : CrossPath) : CrossPath where
  config := s.config
  delta := s.delta.reset
  cross := s.cross.reset
  flows := s.flows.clear
  ledger := s.ledger.reset

/-- Two steps that go alike from `s`, the first with the counts and the second without. -/
abbrev Alike (s : CrossPath) (r r' : Step CrossPath) : Prop :=
  Step.Alike uncounted unlearnt s r r'

theorem alike_of_uncounted {f : CrossPath → Step CrossPath} {t t' : CrossPath}
    (hf : ∀ t : CrossPath, t.Alike (f t) (f t.uncounted)) (hv : t.uncounted = t'.uncounted)
    (hk : t.unlearnt = s.unlearnt) : s.Alike (f t) (f t') :=
  Step.Blind.congr hf hv hk

theorem alike_forEach {α : Type} {f : α → CrossPath → Step CrossPath}
    (hf : ∀ a (t : CrossPath), t.Alike (f a t) (f a t.uncounted)) (as : List α) (s : CrossPath) :
    s.Alike (Step.forEach f as s) (Step.forEach f as s.uncounted) :=
  Step.Blind.forEach hf (fun _ => rfl) as s

theorem uncounted_ledger {l l' : LossLedger} (h : l.untotaled = l'.untotaled)
    (counters counters' : CrossCounters) :
    ({ s with ledger := l, counters } : CrossPath).uncounted =
      ({ s with ledger := l', counters := counters' } : CrossPath).uncounted := by
  simp only [uncounted, h]

theorem unlearnt_ledger {l : LossLedger} (h : l.reset = s.ledger.reset) (counters : CrossCounters) :
    ({ s with ledger := l, counters } : CrossPath).unlearnt = s.unlearnt := by
  simp only [unlearnt, h]

/-! ### Learning -/

abbrev AlikeTo (s t t' : CrossPath) : Prop := s.Alike (.stay t) (.stay t')

theorem AlikeTo.of_uncounted {g : CrossPath → CrossPath} {t t' : CrossPath}
    (hg : ∀ t : CrossPath, t.AlikeTo (g t) (g t.uncounted)) (hv : t.uncounted = t'.uncounted)
    (hk : t.unlearnt = s.unlearnt) : s.AlikeTo (g t) (g t') :=
  Step.Blind.congr (f := fun t => .stay (g t)) hg hv hk

theorem alike_advance (s : CrossPath) (trigger : CrossTrigger) :
    s.AlikeTo (s.advance trigger) (s.uncounted.advance trigger) := by
  have hphase : s.uncounted.phase = s.phase := rfl
  unfold advance
  rw [hphase]
  cases s.phase.next trigger with
  | none => exact .same rfl rfl
  | some phase =>
    dsimp only
    split
    · exact .same rfl rfl
    · exact .same rfl rfl

theorem alike_anchorReference (s : CrossPath) (seq : SeqNumber) :
    s.AlikeTo (s.anchorReference seq) (s.uncounted.anchorReference seq) := by
  have hphase : s.uncounted.phase = s.phase := rfl
  unfold anchorReference
  rw [hphase]
  cases s.phase.next .referenceAnchored with
  | none => exact .same rfl rfl
  | some phase => exact .same rfl rfl

theorem alike_loseReference (s : CrossPath) : s.AlikeTo s.loseReference s.uncounted.loseReference :=
  AlikeTo.of_uncounted (g := (·.advance .referenceLost)) (alike_advance · .referenceLost) rfl rfl

theorem alike_awaitAlternate (s : CrossPath) (seq : SeqNumber) (onFastest : Bool)
    (update : FlowUpdate) :
    s.AlikeTo (s.awaitAlternate seq onFastest update)
      (s.uncounted.awaitAlternate seq onFastest update) := by
  have hawaited : s.uncounted.awaited = s.awaited := rfl
  unfold awaitAlternate
  rw [hawaited]
  cases s.awaited with
  | none => exact .same rfl rfl
  | some awaited =>
    dsimp only
    split
    · split
      · exact AlikeTo.of_uncounted (fun t => t.alike_anchorReference seq)
          s.alike_loseReference.state s.alike_loseReference.kept
      · split
        · exact .same rfl rfl
        · exact .same rfl rfl
    · split
      · exact AlikeTo.of_uncounted (fun t => t.alike_advance .alternateArrived) rfl rfl
      · split
        · exact s.alike_loseReference
        · exact .same rfl rfl

theorem alike_seedPredictors (s : CrossPath) :
    s.AlikeTo s.seedPredictors s.uncounted.seedPredictors := by
  have hfastest : s.uncounted.fastest? = s.fastest? := rfl
  have hflows : s.uncounted.flows = s.flows := rfl
  unfold seedPredictors
  rw [hfastest]
  cases s.fastest? with
  | none => exact .same rfl rfl
  | some fastest =>
    dsimp only
    rw [hflows]
    cases s.flows.get? fastest with
    | none =>
      refine .same rfl ?_
      simp only [unlearnt, Predictor.reset_foldl Predictor.reset_insert]
    | some flow =>
      refine .same rfl ?_
      simp only [unlearnt, Predictor.reset_foldl Predictor.reset_insert]
      rw [Predictor.reset_foldl]
      intro p r
      split
      · exact p.reset_insert _
      · rfl

theorem alike_learn (s : CrossPath) (seq : SeqNumber) (flow : Nat) :
    s.Alike (s.learn seq flow) (s.uncounted.learn seq flow) := by
  have hflows : s.uncounted.flows = s.flows := rfl
  have hconfig : s.uncounted.config = s.config := rfl
  unfold learn learnFlowOrder?
  rw [hflows, hconfig]
  cases s.flows.ranking s.config.minFlowSamples with
  | none => exact .same rfl rfl
  | some ranked =>
    obtain ⟨order, delta⟩ := ranked
    have hseeded : s.Alike
        (.note (seedPredictors { s with order, nominalDelta := delta }) (.flowOrder order delta))
        (.note (seedPredictors { s.uncounted with order, nominalDelta := delta })
          (.flowOrder order delta)) := by
      have hseed : s.AlikeTo (seedPredictors { s with order, nominalDelta := delta })
          (seedPredictors { s.uncounted with order, nominalDelta := delta }) :=
        .of_uncounted alike_seedPredictors rfl rfl
      exact .same hseed.state hseed.kept
    refine hseeded.alter fun t => ?_
    have hadvanced := t.alike_advance .flowOrderLearned
    have hfastest : (t.uncounted.advance .flowOrderLearned).fastest? =
        (t.advance .flowOrderLearned).fastest? := (congrArg fastest? hadvanced.state :).symm
    dsimp only
    rw [hfastest]
    split
    · exact AlikeTo.of_uncounted (fun t => t.alike_anchorReference seq) hadvanced.state
        hadvanced.kept
    · exact hadvanced

theorem alike_observeFastest (s : CrossPath) (now : Timestamp) (seq : SeqNumber) :
    (s.uncounted.observeFastest now seq).1 = (s.observeFastest now seq).1 ∧
      s.Alike (s.observeFastest now seq).2 (s.uncounted.observeFastest now seq).2 := by
  have hanchor : s.uncounted.anchor = s.anchor := rfl
  have hconfig : s.uncounted.config = s.config := rfl
  unfold observeFastest
  simp only [hanchor, hconfig]
  cases s.anchor with
  | none => exact ⟨rfl, .same rfl rfl⟩
  | some anchor =>
    dsimp only
    split
    · exact ⟨rfl, .same rfl rfl⟩
    · refine ⟨rfl, ?_⟩
      dsimp only
      refine Step.Alike.alter ?_ fun _ => .same rfl rfl
      split
      · refine .same rfl ?_
        simp only [sampleDelta, unlearnt, Predictor.reset_insert]
      · exact .same rfl rfl

theorem alike_observe (s : CrossPath) (now : Timestamp) (seq : SeqNumber) (flow : Nat) :
    (s.uncounted.observe now seq flow).1 = (s.observe now seq flow).1 ∧
      s.Alike (s.observe now seq flow).2 (s.uncounted.observe now seq flow).2 := by
  have hfastest : s.uncounted.fastest? = s.fastest? := rfl
  have hsample : s.uncounted.crossSample seq now = s.crossSample seq now := rfl
  unfold observe
  rw [hfastest, hsample]
  split
  · exact s.alike_observeFastest now seq
  · cases s.crossSample seq now with
    | none => exact ⟨rfl, .same rfl rfl⟩
    | some sample =>
      refine ⟨rfl, .same rfl ?_⟩
      simp only [unlearnt, Predictor.reset_insert]

/-! ### Losses and timers -/

theorem alike_declareGapLoss (now : Timestamp) (position : FlowPosition) (seq : SeqNumber)
    (s : CrossPath) :
    s.Alike (declareGapLoss now position seq s) (declareGapLoss now position seq s.uncounted) := by
  have hledger : s.uncounted.ledger = s.ledger.untotaled := rfl
  have h := s.ledger.assumeLost?_untotaled now seq
  unfold declareGapLoss
  rw [hledger]
  generalize s.ledger.assumeLost? now seq = declared,
    s.ledger.untotaled.assumeLost? now seq = declared' at h ⊢
  cases h with
  | none => exact .same rfl rfl
  | some h => exact .same (uncounted_ledger h.entries _ _) (unlearnt_ledger h.ring _)

theorem alike_declareFlowGap (s : CrossPath) (now : Timestamp) (seq : SeqNumber)
    (position : FlowPosition) (update : FlowUpdate) :
    s.Alike (s.declareFlowGap now seq position update)
      (s.uncounted.declareFlowGap now seq position update) := by
  have hconfig : s.uncounted.config = s.config := rfl
  have hresolved : ∀ n, s.uncounted.ledger.isResolved n = s.ledger.isResolved n := fun _ => rfl
  unfold declareFlowGap
  cases update.gapAfter with
  | none => exact .same rfl rfl
  | some previous =>
    simp only [hconfig, hresolved]
    split
    · exact .same rfl rfl
    · split
      · exact .same rfl rfl
      · apply alike_forEach
        intro p
        exact alike_declareGapLoss now _ p.1

theorem alike_dropShort (s : CrossPath) : s.Alike s.dropShort s.uncounted.dropShort := by
  have hshort : s.uncounted.short = s.short := rfl
  unfold dropShort
  rw [hshort]
  cases s.short with
  | none => exact .same rfl rfl
  | some short => exact .same rfl rfl

theorem alike_armShort (s : CrossPath) (now : Timestamp) (expected : SeqNumber)
    (timerDriven : Bool) :
    s.Alike (s.armShort now expected timerDriven) (s.uncounted.armShort now expected timerDriven) := by
  have hanchor : s.uncounted.anchor = s.anchor := rfl
  unfold armShort
  rw [hanchor]
  cases s.anchor with
  | none => exact .same rfl rfl
  | some anchor => exact s.alike_dropShort.andThen fun _ => .same rfl rfl

theorem alike_coverLong (now : Timestamp) (seq : SeqNumber) (s : CrossPath) :
    s.Alike (coverLong now seq s) (coverLong now seq s.uncounted) := by
  have hneeds : s.uncounted.needsLong seq = s.needsLong seq := rfl
  unfold coverLong
  rw [hneeds]
  split
  · exact .same rfl rfl
  · exact .same rfl rfl

theorem alike_reconcileShort (s : CrossPath) (now : Timestamp) (seq : SeqNumber) :
    s.Alike (s.reconcileShort now seq) (s.uncounted.reconcileShort now seq) := by
  have hshort : s.uncounted.short = s.short := rfl
  unfold reconcileShort
  rw [hshort]
  cases s.short with
  | none => exact .same rfl rfl
  | some short =>
    dsimp only
    split
    · exact .same rfl rfl
    · obtain ⟨counters, -, hcounted⟩ := s.resync_state short
      obtain ⟨counters', -, hcounted'⟩ := s.uncounted.resync_state short
      have hconfig : ({ s.uncounted with counters := counters' } : CrossPath).config =
        ({ s with counters } : CrossPath).config := rfl
      rw [hcounted, hcounted', hconfig]
      refine Step.Alike.andThen ?_ fun t => t.alike_armShort now seq.next false
      split
      · exact .same rfl rfl
      · exact alike_of_uncounted (alike_forEach (alike_coverLong now) _) rfl rfl

theorem alike_onShortTimeout (s : CrossPath) (now : Timestamp) :
    s.Alike (s.onShortTimeout now) (s.uncounted.onShortTimeout now) := by
  have hshort : s.uncounted.short = s.short := rfl
  unfold onShortTimeout
  rw [hshort]
  cases s.short with
  | none => exact .same rfl rfl
  | some short =>
    exact .andThen (alike_of_uncounted (alike_coverLong now short.expected) rfl rfl)
      fun t => t.alike_armShort now short.expected.next true

theorem alike_cancelTimers (s : CrossPath) : s.Alike s.cancelTimers s.uncounted.cancelTimers := by
  unfold cancelTimers
  exact s.alike_dropShort.andThen fun _ => .same rfl rfl

theorem alike_fullReset (s : CrossPath) : s.Alike s.fullReset s.uncounted.fullReset := by
  unfold fullReset
  refine s.alike_cancelTimers.alter fun t => .same rfl ?_
  simp only [unlearnt, Predictor.reset_reset, t.ledger.clearHistory_untotaled.ring]
  rfl

theorem alike_declareLongLoss (s : CrossPath) (now : Timestamp) (seq : SeqNumber) :
    s.Alike (s.declareLongLoss now seq) (s.uncounted.declareLongLoss now seq) := by
  have hledger : s.uncounted.ledger = s.ledger.untotaled := rfl
  have h := s.ledger.assumeLost?_untotaled now seq
  unfold declareLongLoss
  rw [hledger]
  generalize s.ledger.assumeLost? now seq = declared,
    s.ledger.untotaled.assumeLost? now seq = declared' at h ⊢
  cases h with
  | none => exact .same rfl rfl
  | some h =>
    let missed : CrossPath := { s with consecutiveLosses := s.consecutiveLosses + 1 }
    exact .same (uncounted_ledger (s := missed) h.entries _ _)
      (unlearnt_ledger (s := missed) h.ring _)

theorem alike_breakStall (s : CrossPath) : s.Alike s.breakStall s.uncounted.breakStall := by
  have hmany : (s.uncounted.config.maxConsecutiveLosses ≤ s.uncounted.consecutiveLosses) =
    (s.config.maxConsecutiveLosses ≤ s.consecutiveLosses) := rfl
  unfold breakStall
  simp only [hmany]
  split
  · exact .andThen (.same rfl rfl) alike_fullReset
  · exact .same rfl rfl

theorem alike_settleLong (s : CrossPath) (seq : SeqNumber) :
    s.Alike (s.settleLong seq) (s.uncounted.settleLong seq) := by
  have hlong : s.uncounted.hasLong seq = s.hasLong seq := rfl
  unfold settleLong
  rw [hlong]
  split
  · exact .same rfl rfl
  · exact .same rfl rfl

theorem onLongTimeout_of_hasLong {seq : SeqNumber} (h : s.hasLong seq = true) (now : Timestamp) :
    s.onLongTimeout now seq =
      let expired := { s with long := s.long.erase seq }.count fun c =>
        { c with longTimeouts := c.longTimeouts + 1 }
      if s.ledger.wasReceived seq then
        .note (expired.count fun c => { c with lateLongExpiries := c.lateLongExpiries + 1 })
          (.expiredAfterArrival seq)
      else (expired.declareLongLoss now seq).andThen breakStall := by
  rw [onLongTimeout, h]
  rfl

theorem alike_onLongTimeout (s : CrossPath) (now : Timestamp) (seq : SeqNumber) :
    s.Alike (s.onLongTimeout now seq) (s.uncounted.onLongTimeout now seq) := by
  have hlong : s.uncounted.hasLong seq = s.hasLong seq := rfl
  have hfound : s.uncounted.ledger.wasReceived seq = s.ledger.wasReceived seq := rfl
  cases h : s.hasLong seq with
  | false =>
    simp only [onLongTimeout, hlong, h]
    exact .same rfl rfl
  | true =>
    rw [onLongTimeout_of_hasLong h, onLongTimeout_of_hasLong (hlong.trans h), hfound]
    dsimp only
    split
    · exact .same rfl rfl
    · exact .andThen (alike_of_uncounted (fun t => t.alike_declareLongLoss now seq) rfl rfl)
        alike_breakStall

/-! ### Arrivals -/

theorem alike_tryStart (s : CrossPath) (now : Timestamp) (seq : SeqNumber) (update : FlowUpdate) :
    s.Alike (s.tryStart now seq update) (s.uncounted.tryStart now seq update) := by
  have hready : (s.uncounted.delta.isReady && s.uncounted.cross.isReady) =
    (s.delta.isReady && s.cross.isReady) := rfl
  unfold tryStart
  rw [hready]
  split
  · exact AlikeTo.of_uncounted (fun t => t.alike_anchorReference seq) s.alike_loseReference.state
      s.alike_loseReference.kept
  · split
    · have hadvanced := s.alike_advance .predictorsReady
      have hmaxSeen : s.uncounted.maxSeen = s.maxSeen := rfl
      rw [hmaxSeen]
      exact alike_of_uncounted (fun t => t.alike_armShort now _ false) hadvanced.state
        hadvanced.kept
    · exact .same rfl rfl

theorem alike_keepRunning (s : CrossPath) (now : Timestamp) (seq : SeqNumber) (o : Observation) :
    s.Alike (s.keepRunning now seq o) (s.uncounted.keepRunning now seq o) := by
  have hadvanced : ∀ trigger, s.Alike ((s.advance trigger).reconcileShort now seq)
      ((s.uncounted.advance trigger).reconcileShort now seq) := fun trigger =>
    alike_of_uncounted (fun t => t.alike_reconcileShort now seq) (s.alike_advance trigger).state
      (s.alike_advance trigger).kept
  cases o with
  | delta => exact hadvanced .deltaSample
  | cross => exact hadvanced .crossSample
  | stale => exact s.alike_reconcileShort now seq

theorem alike_dispatch (s : CrossPath) (now : Timestamp) (seq : SeqNumber) (onFastest : Bool)
    (update : FlowUpdate) (o : Observation) :
    s.Alike (s.dispatch now seq onFastest update o)
      (s.uncounted.dispatch now seq onFastest update o) := by
  have hphase : s.uncounted.phase = s.phase := rfl
  unfold dispatch
  rw [hphase]
  cases s.phase with
  | learnFlowOrder => exact .same rfl rfl
  | learnPathDifference =>
    dsimp only
    split
    · exact s.alike_anchorReference seq
    · exact .same rfl rfl
  | learnAwaitingAlternate => exact s.alike_awaitAlternate seq onFastest update
  | estAwaitingFastest =>
    dsimp only
    split
    · exact s.alike_tryStart now seq update
    · exact .same rfl rfl
  | estRunningA => exact s.alike_keepRunning now seq o
  | estRunningB => exact s.alike_keepRunning now seq o

theorem alike_follow (s : CrossPath) (now : Timestamp) (seq : SeqNumber) (position : FlowPosition) :
    s.Alike (s.follow now seq position) (s.uncounted.follow now seq position) := by
  have hflows : s.uncounted.flows = s.flows := rfl
  have hclear : (s.flows.record position.flow ⟨seq, position.flowSeq, now⟩).2.clear =
    s.flows.clear := rfl
  unfold follow
  rw [hflows]
  generalize s.flows.record position.flow ⟨seq, position.flowSeq, now⟩ = recorded at hclear ⊢
  obtain ⟨update, flows⟩ := recorded
  have hkept : ({ s with flows } : CrossPath).unlearnt = s.unlearnt := by
    simp only [unlearnt, hclear]
  have hrunning : ({ s.uncounted with flows } : CrossPath).phase.isRunning =
    ({ s with flows } : CrossPath).phase.isRunning := rfl
  dsimp only at hrunning ⊢
  refine .andThen ?_ fun t => ?_
  · rw [hrunning]
    split
    · exact .same rfl hkept
    · exact alike_of_uncounted (fun t => t.alike_declareFlowGap now seq position update) rfl hkept
  · have hphase : t.uncounted.phase = t.phase := rfl
    obtain ⟨hobservation, hobserved⟩ := t.alike_observe now seq position.flow
    rw [hphase, hobservation]
    split
    · exact t.alike_learn seq position.flow
    · refine hobserved.andThen fun t => ?_
      exact t.alike_dispatch now seq (t.fastest? = some position.flow) update _

theorem alike_accept (s : CrossPath) (now : Timestamp) (seq : SeqNumber) (position : FlowPosition) :
    s.Alike (s.accept now seq position) (s.uncounted.accept now seq position) := by
  unfold accept
  exact .andThen (alike_of_uncounted (fun t => t.alike_settleLong seq) rfl rfl)
    fun t => t.alike_follow now seq position

theorem alike_onArrival (s : CrossPath) (now : Timestamp) (a : Arrival) :
    s.Alike (s.onArrival now a) (s.uncounted.onArrival now a) := by
  have hstopped : s.uncounted.stopped = s.stopped := rfl
  have hledger : s.uncounted.ledger = s.ledger.untotaled := rfl
  obtain ⟨hreception, hsame⟩ := s.ledger.receive_untotaled now a.seq
  unfold onArrival
  rw [hstopped, hledger]
  split
  · exact .same rfl rfl
  · dsimp only
    rw [hreception]
    have hview := uncounted_ledger (s := s) hsame.entries
    have hkept := unlearnt_ledger (s := s) hsame.ring
    have haccept : ∀ counters counters' : CrossCounters, s.Alike
        (accept { s with ledger := (s.ledger.receive now a.seq).2, counters } now a.seq
          (a.position.getD ⟨0, a.seq⟩))
        (accept { s with ledger := (s.ledger.untotaled.receive now a.seq).2, counters := counters' }
          now a.seq (a.position.getD ⟨0, a.seq⟩)) := fun counters counters' =>
      alike_of_uncounted (fun t => t.alike_accept now a.seq _) (hview _ _) (hkept _)
    cases (s.ledger.receive now a.seq).1 with
    | fresh => exact haccept _ _
    | recovered => exact haccept _ _
    | duplicate => exact .same (hview _ _) (hkept _)
    | stale => exact .same (hview _ _) (hkept _)
    | falsePositive lateBy =>
      exact .andThen (.same (hview _ _) (hkept _)) fun t => t.alike_accept now a.seq _

/-! ### The calls -/

theorem alike_onRepair (s : CrossPath) (a : Arrival) :
    s.Alike (s.onRepair a) (s.uncounted.onRepair a) := by
  have hstopped : s.uncounted.stopped = s.stopped := rfl
  have hsame := s.ledger.receiveRepair_untotaled a.seq
  unfold onRepair
  rw [hstopped]
  split
  · exact .same rfl rfl
  · exact alike_of_uncounted (fun t => t.alike_settleLong a.seq)
      (uncounted_ledger hsame.entries _ _) (unlearnt_ledger hsame.ring _)

theorem alike_onTimeout (s : CrossPath) (now : Timestamp) (key : TimerKey) :
    s.Alike (s.onTimeout now key) (s.uncounted.onTimeout now key) := by
  have hstopped : s.uncounted.stopped = s.stopped := rfl
  unfold onTimeout
  rw [hstopped]
  split
  · exact .same rfl rfl
  · cases key with
    | basic => exact .same rfl rfl
    | short => exact s.alike_onShortTimeout now
    | long seq => exact s.alike_onLongTimeout now seq

theorem alike_noteWithdrawn (s : CrossPath) (seq : SeqNumber) :
    s.AlikeTo (s.noteWithdrawn seq) (s.uncounted.noteWithdrawn seq) := by
  have hsame := s.ledger.noteWithdrawn_untotaled seq
  exact .same (uncounted_ledger hsame.entries _ _) (unlearnt_ledger hsame.ring _)

theorem alike_reset (s : CrossPath) : s.Alike s.reset s.uncounted.reset := by
  unfold reset
  exact s.alike_fullReset.alter fun _ => .same rfl rfl

theorem alike_stop (s : CrossPath) : s.Alike s.stop s.uncounted.stop := by
  unfold stop
  exact s.alike_cancelTimers.alter fun _ => .same rfl rfl

/-! ### Starting over -/

def Renewed (s : CrossPath) : Prop := s.uncounted = s.unlearnt

theorem renewed_fullReset (hrun : s.stopped = false) : s.fullReset.state.Renewed := by
  have hledger : s.ledger.clearHistory.reset = s.ledger.reset :=
    s.ledger.clearHistory_untotaled.ring
  simp only [Renewed, fullReset_state, uncounted, unlearnt, Predictor.reset_reset, hledger, hrun]
  rfl

theorem renewed_reset (s : CrossPath) : s.reset.state.Renewed := by
  have hledger : s.ledger.clearHistory.reset = s.ledger.reset :=
    s.ledger.clearHistory_untotaled.ring
  simp only [Renewed, reset, Step.state_alter, fullReset_state, uncounted, unlearnt,
    Predictor.reset_reset, hledger]
  rfl

end LossWatch.CrossPath
