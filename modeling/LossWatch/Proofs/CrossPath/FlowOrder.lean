import LossWatch.Proofs.CrossPath.PhaseData
import LossWatch.Proofs.Flow.Arrivals

/-!
The flows are ranked once. Only the first phase looks for an order, and it is left with the first one
found; no later phase goes back to it. So between two resets the order is empty up to the arrival that
completes the records of every flow, and what that arrival found stays.
-/

namespace LossWatch.CrossPath

variable {s s' t : CrossPath} {c : EstimatorCall} {e : FlowEntry} {xs : List Exchange}

/-! ### What keeps the order -/

theorem order_forEach {α : Type} {f : α → CrossPath → Step CrossPath}
    (hf : ∀ a t, (f a t).state.order = t.order) (as : List α) (s : CrossPath) :
    (Step.forEach f as s).state.order = s.order := by
  induction as generalizing s with
  | nil => rfl
  | cons a as ih =>
    rw [Step.forEach, Step.state_andThen]
    exact (ih _).trans (hf a s)

theorem order_armShort (s : CrossPath) (now : Timestamp) (expected : SeqNumber)
    (timerDriven : Bool) : (s.armShort now expected timerDriven).state.order = s.order := by
  rw [armShort]
  cases s.anchor with
  | none => rfl
  | some anchor =>
    dsimp only
    rw [Step.state_andThen, dropShort_state]
    rfl

theorem order_coverLong (now : Timestamp) (n : SeqNumber) (s : CrossPath) :
    (s.coverLong now n).state.order = s.order := by
  obtain ⟨long, hstate, -⟩ := covering_coverLong now n s
  rw [hstate]

theorem order_reconcileShort (s : CrossPath) (now : Timestamp) (seq : SeqNumber) :
    (s.reconcileShort now seq).state.order = s.order := by
  rw [reconcileShort]
  cases s.short with
  | none => rfl
  | some short =>
    dsimp only
    split
    · rfl
    · obtain ⟨counters, -, hcounted⟩ := s.resync_state short
      rw [hcounted, Step.state_andThen, order_armShort]
      split
      · rfl
      · exact order_forEach (order_coverLong now) _ _

theorem order_onShortTimeout (s : CrossPath) (now : Timestamp) :
    (s.onShortTimeout now).state.order = s.order := by
  rw [onShortTimeout]
  cases s.short with
  | none => rfl
  | some short =>
    dsimp only
    rw [Step.state_andThen, order_armShort, order_coverLong]
    rfl

theorem order_advance (s : CrossPath) (trigger : CrossTrigger) :
    (s.advance trigger).order = s.order ∧ (s.advance trigger).anchor = s.anchor := by
  cases hnext : s.phase.next trigger with
  | none =>
    rw [advance_of_next_eq_none hnext]
    exact ⟨rfl, rfl⟩
  | some p =>
    obtain ⟨-, horder, hanchor, -⟩ := phase_advance_of_next hnext
    exact ⟨horder, hanchor⟩

theorem order_anchorReference (s : CrossPath) (seq : SeqNumber) :
    (s.anchorReference seq).order = s.order ∧ (s.anchorReference seq).anchor = s.anchor := by
  rw [anchorReference]
  cases s.phase.next .referenceAnchored <;> exact ⟨rfl, rfl⟩

theorem order_loseReference (s : CrossPath) : s.loseReference.order = s.order :=
  (order_advance _ .referenceLost).1

theorem order_awaitAlternate (s : CrossPath) (seq : SeqNumber) (onFastest : Bool)
    (update : FlowUpdate) : (s.awaitAlternate seq onFastest update).order = s.order := by
  rw [awaitAlternate]
  cases s.awaited with
  | none => rfl
  | some awaited =>
    dsimp only
    split
    · split
      · exact (order_anchorReference _ seq).1.trans s.order_loseReference
      · split <;> rfl
    · split
      · exact (order_advance _ .alternateArrived).1
      · split
        · exact s.order_loseReference
        · rfl

theorem order_observe (s : CrossPath) (now : Timestamp) (seq : SeqNumber) (flow : Nat) :
    (s.observe now seq flow).2.state.order = s.order := by
  rw [observe]
  split
  · rw [observeFastest]
    cases s.anchor with
    | none => rfl
    | some anchor =>
      dsimp only
      split
      · rfl
      · split <;> rfl
  · split <;> rfl

theorem order_tryStart (s : CrossPath) (now : Timestamp) (seq : SeqNumber) (update : FlowUpdate) :
    (s.tryStart now seq update).state.order = s.order := by
  rw [tryStart]
  split
  · exact (order_anchorReference _ seq).1.trans s.order_loseReference
  · split
    · exact (order_armShort _ now _ _).trans (order_advance _ _).1
    · rfl

theorem order_keepRunning (s : CrossPath) (now : Timestamp) (seq : SeqNumber) (o : Observation) :
    (s.keepRunning now seq o).state.order = s.order := by
  cases o with
  | delta => exact (order_reconcileShort _ now seq).trans (order_advance s .deltaSample).1
  | cross => exact (order_reconcileShort _ now seq).trans (order_advance s .crossSample).1
  | stale => exact order_reconcileShort s now seq

theorem order_dispatch (s : CrossPath) (now : Timestamp) (seq : SeqNumber) (onFastest : Bool)
    (update : FlowUpdate) (o : Observation) :
    (s.dispatch now seq onFastest update o).state.order = s.order := by
  rw [dispatch]
  cases s.phase with
  | learnFlowOrder => rfl
  | learnPathDifference =>
    dsimp only
    split
    · exact (order_anchorReference _ seq).1
    · rfl
  | learnAwaitingAlternate => exact order_awaitAlternate s seq onFastest update
  | estAwaitingFastest =>
    dsimp only
    split
    · exact order_tryStart s now seq update
    · rfl
  | estRunningA => exact order_keepRunning s now seq o
  | estRunningB => exact order_keepRunning s now seq o

/-! ### The ranking -/

/-- The call ranks the flows: it is an arrival that is entered into the table, every flow of the table
then has the records asked for, and the order and the anchor are found from the table. -/
structure Ranks (s : CrossPath) (c : EstimatorCall) (s' : CrossPath) : Prop where
  entry : ∃ e, Exchange.accepted? ⟨.cross s, c⟩ = some e ∧ s'.flows = s.flows.enter e
  ranked : s'.flows.Ranked s.config.minFlowSamples s'.order
  anchored : Anchored s'.flows s'

def MovesOrder (s : CrossPath) (flows : FlowTable) (s' : CrossPath) : Prop :=
  s'.order = s.order ∨ s.phase = .learnFlowOrder ∧
    flows.Ranked s.config.minFlowSamples s'.order ∧ Anchored flows s'

theorem movesOrder_learn (hphase : s.phase = .learnFlowOrder) (hnodup : s.flows.ids.Nodup)
    (seq : SeqNumber) (flow : Nat) : s.MovesOrder s.flows (s.learn seq flow).state := by
  rw [learn]
  cases hr : s.learnFlowOrder? with
  | none => exact .inl rfl
  | some ranked =>
    right
    obtain ⟨hranked, f, hf, hfastest, hanchor⟩ := ranked_of_learnFlowOrder? hnodup hr
    have hkept : ∀ u : CrossPath, u.order = ranked.state.order → u.anchor = ranked.state.anchor →
        s.flows.Ranked s.config.minFlowSamples u.order ∧ Anchored s.flows u := by
      intro u horder hu
      rw [horder]
      refine ⟨hranked, f, hf, ?_, hu ▸ hanchor⟩
      rw [fastest?, horder]
      exact hfastest
    obtain ⟨horder, hanchored⟩ := order_advance ranked.state .flowOrderLearned
    refine ⟨hphase, ?_⟩
    dsimp only
    rw [Step.state_alter]
    split
    · obtain ⟨horder', hanchored'⟩ :=
        order_anchorReference (ranked.state.advance .flowOrderLearned) seq
      exact hkept _ (horder'.trans horder) (hanchored'.trans hanchored)
    · exact hkept _ horder hanchored

variable {now : Timestamp} {a : Arrival}

theorem movesOrder_follow (s : CrossPath) (now : Timestamp) (seq : SeqNumber) (position : FlowPosition)
    {flows : FlowTable} (hflows : flows = s.flows.enter ⟨position.flow, seq, position.flowSeq, now⟩)
    (hnodup : flows.ids.Nodup) : s.MovesOrder flows (s.follow now seq position).state := by
  let update := (s.flows.record position.flow ⟨seq, position.flowSeq, now⟩).1
  let recorded : CrossPath := { s with flows }
  obtain ⟨ledger, counters, hread⟩ : ∃ (ledger : LossLedger) (counters : CrossCounters),
      (if recorded.phase.isRunning = true then Step.stay recorded
        else recorded.declareFlowGap now seq position update).state =
          { recorded with ledger, counters } := by
    split
    · exact ⟨recorded.ledger, recorded.counters, rfl⟩
    · obtain ⟨ledger, counters, -, -, hstate⟩ := recorded.declareFlowGap_state now seq position update
      exact ⟨ledger, counters, hstate⟩
  let told : CrossPath := { recorded with ledger, counters }
  have hfollow : (s.follow now seq position).state =
      (if told.phase = .learnFlowOrder then told.learn seq position.flow
      else (told.observe now seq position.flow).2.andThen fun t =>
        t.dispatch now seq (decide (t.fastest? = some position.flow)) update
          (told.observe now seq position.flow).1).state := by
    subst hflows
    unfold follow
    dsimp only
    rw [Step.state_andThen]
    exact congrArg (fun t : CrossPath => (if t.phase = .learnFlowOrder then t.learn seq position.flow
      else (t.observe now seq position.flow).2.andThen fun u =>
        u.dispatch now seq (decide (u.fastest? = some position.flow)) update
          (t.observe now seq position.flow).1).state) hread
  rw [hfollow]
  split
  case isTrue hphase =>
    exact movesOrder_learn (s := told) hphase hnodup seq position.flow
  case isFalse =>
    rw [Step.state_andThen]
    exact .inl ((order_dispatch _ now seq _ update _).trans (order_observe told now seq position.flow))

theorem movesOrder_accept (s : CrossPath) (now : Timestamp) (seq : SeqNumber) (position : FlowPosition)
    {flows : FlowTable} (hflows : flows = s.flows.enter ⟨position.flow, seq, position.flowSeq, now⟩)
    (hnodup : flows.ids.Nodup) : s.MovesOrder flows (s.accept now seq position).state := by
  rw [accept]
  generalize hmoved : ({ s with consecutiveLosses := 0, maxSeen := _ } : CrossPath) = moved
  obtain ⟨long, hsettled, -⟩ := moved.settleLong_state seq
  rw [Step.state_andThen, hsettled]
  subst hmoved
  exact movesOrder_follow _ now seq position hflows hnodup

theorem onArrival_of_accepted {now : Timestamp} {a : Arrival}
    (he : Exchange.accepted? ⟨.cross s, .arrival now a⟩ = some e) :
    e = ⟨a.place.flow, a.seq, a.place.flowSeq, now⟩ ∧
      ∃ (ledger : LossLedger) (counters : CrossCounters), (s.onArrival now a).state =
        (accept { s with ledger, counters } now a.seq a.place).state := by
  obtain ⟨hstopped, hrecorded, rfl⟩ := Exchange.accepted?_arrival.mp he
  have hrun : ¬ s.stopped = true := ne_true_of_eq_false hstopped
  have hr : (s.ledger.receive now a.seq).1.isRecorded = true := hrecorded
  refine ⟨rfl, (s.ledger.receive now a.seq).2, ?_⟩
  rw [onArrival, if_neg hrun]
  dsimp only
  cases hreception : (s.ledger.receive now a.seq).1 with
  | duplicate => simp [hreception, Reception.isRecorded] at hr
  | stale => simp [hreception, Reception.isRecorded] at hr
  | fresh => exact ⟨_, rfl⟩
  | recovered => exact ⟨_, rfl⟩
  | falsePositive d => exact ⟨_, rfl⟩

/-- A call keeps the order, unless it ranks the flows. -/
theorem order_call (hconsistent : s.Consistent) (hnodup : s'.flows.ids.Nodup)
    (hstep : ((Estimator.cross s).call c).state = .cross s')
    (hresets : s'.counters.resets = s.counters.resets) :
    s'.order = s.order ∨ s.order = [] ∧ s.Ranks c s' := by
  cases c with
  | arrival now a =>
    obtain rfl : (s.onArrival now a).state = s' := Estimator.cross.inj hstep
    cases he : Exchange.accepted? ⟨.cross s, .arrival now a⟩ with
    | none =>
      obtain ⟨ledger, hstay⟩ := onArrival_of_unaccepted he
      rw [hstay]
      exact .inl rfl
    | some e =>
      have hflows := (heard_onArrival he).flows
      obtain ⟨rfl, ledger, counters, hstate⟩ := onArrival_of_accepted he
      have horder := movesOrder_accept { s with ledger, counters } now a.seq a.place hflows hnodup
      rw [← hstate] at horder
      refine horder.imp_right fun ⟨hphase, hranked, hanchored⟩ => ?_
      exact ⟨hconsistent.order.mpr hphase, ⟨_, he, hflows⟩, hranked, hanchored⟩
  | repair a =>
    obtain rfl : (s.onRepair a).state = s' := Estimator.cross.inj hstep
    left
    cases hstopped : s.stopped with
    | true => simp [onRepair, hstopped]
    | false =>
      obtain ⟨long, hstate, -⟩ := onRepair_state hstopped a
      rw [hstate]
  | timeout now key =>
    obtain rfl : (s.onTimeout now key).state = s' := Estimator.cross.inj hstep
    left
    cases hstopped : s.stopped with
    | true => simp only [onTimeout, hstopped, if_true, Step.state_stay]
    | false =>
      simp only [onTimeout, hstopped, Bool.false_eq_true, if_false] at hresets ⊢
      cases key with
      | basic => rfl
      | short => exact order_onShortTimeout s now
      | long n =>
        have hexpired := s.longExpired_onLongTimeout now n
        dsimp only at hresets ⊢
        generalize (s.onLongTimeout now n).state = s' at hexpired hresets
        cases hexpired with
        | unarmed => rfl
        | late => rfl
        | declared => rfl
        | reset _ resets restarted =>
          have := restarted.resets
          omega
  | withdrawn n =>
    obtain rfl : s.noteWithdrawn n = s' := Estimator.cross.inj hstep
    exact .inl rfl

/-! ### From one reset to the next -/

theorem nodup_ids_of_sinceReset (h : Estimator.SinceReset xs (.cross s)) : s.flows.ids.Nodup := by
  rw [(remembers_entries h).flows]
  exact FlowTable.nodup_ids_enterAll _ _

def orderBefore (x : Exchange) : Option (List Nat) := x.before.asCross?.map (·.order)

/-- Either no call has found an order, or exactly one has, and what it found is the order from then on. -/
inductive RankedOnce (xs : List Exchange) (s : CrossPath) : Prop
  | unranked (none : s.order = []) (before : ∀ x ∈ xs, orderBefore x = some [])
  | ranked {pre post : List Exchange} {t t' : CrossPath} {c : EstimatorCall}
      (history : xs = pre ++ ⟨.cross t, c⟩ :: post)
      (step : ((Estimator.cross t).call c).state = .cross t') (ranks : t.Ranks c t')
      (none : t.order = []) (before : ∀ x ∈ pre, orderBefore x = some [])
      (found : t'.order = s.order) (after : ∀ x ∈ post, orderBefore x = some s.order)

theorem RankedOnce.keep (h : RankedOnce xs s) (hkept : s'.order = s.order) :
    RankedOnce (xs ++ [⟨.cross s, c⟩]) s' := by
  have hthis : orderBefore ⟨.cross s, c⟩ = some s'.order := congrArg some hkept.symm
  cases h with
  | unranked none before =>
    refine .unranked (hkept.trans none) fun x hx => ?_
    rcases List.mem_append.mp hx with hx | hx
    · exact before x hx
    · rw [List.mem_singleton.mp hx, hthis, hkept, none]
  | @ranked pre post t t' d history step ranks none before found after =>
    have hhistory : xs ++ [⟨.cross s, c⟩] = pre ++ ⟨.cross t, d⟩ :: (post ++ [⟨.cross s, c⟩]) := by
      rw [history, List.append_assoc, List.cons_append]
    refine .ranked hhistory step ranks none before (found.trans hkept.symm) fun x hx => ?_
    rcases List.mem_append.mp hx with hx | hx
    · rw [after x hx, hkept]
    · rw [List.mem_singleton.mp hx, hthis]

theorem RankedOnce.rank (h : RankedOnce xs s)
    (hstep : ((Estimator.cross s).call c).state = .cross s') (none : s.order = [])
    (ranks : s.Ranks c s') : RankedOnce (xs ++ [⟨.cross s, c⟩]) s' := by
  cases h with
  | unranked _ before => exact .ranked rfl hstep ranks none before rfl (by simp)
  | ranked _ _ ranks _ _ found _ => exact absurd (found.trans none) ranks.ranked.ne_nil

/-- Since the last reset either no call has found an order, or exactly one has: an arrival, with two flows
at least known by then and the records asked for in each of them. The order it found names the flows
known by then, each once, by virtual time, first arrival and id. The anchor is then a record of the
first one's window, the newest if it is newer than all other numbers of the window. All calls after it
find that order, whatever they are. -/
theorem flows_ranked_once (h : Estimator.SinceReset xs (.cross s)) : RankedOnce xs s := by
  refine sinceReset_induction (P := fun xs s => RankedOnce xs s) ?_ ?_ ?_ h
  · intro s _ hblank
    exact .unranked hblank.order (by simp)
  · intro xs s s' c hs ih hstep hresets
    have hnodup := nodup_ids_of_sinceReset (sinceReset_call hs hstep hresets)
    rcases order_call (consistent_of_sinceReset hs) hnodup hstep hresets with hkept | ⟨none, ranks⟩
    · exact ih.keep hkept
    · exact ih.rank hstep none ranks
  · intro xs s _ ih
    rw [stop, Step.state_alter, cancelTimers_state]
    cases ih with
    | unranked none before => exact .unranked none before
    | ranked history step ranks none before found after =>
      exact .ranked history step ranks none before found after

theorem flows_ranked_once_of_skipping :
    ∃ s : CrossPath, Estimator.SinceReset ((Estimator.cross quick).exchanges skipping) (.cross s) ∧
      s.order = [0, 1] ∧ RankedOnce ((Estimator.cross quick).exchanges skipping) s := by
  obtain ⟨s, hs⟩ := quick.after_state skipping
  have history : Estimator.SinceReset ((Estimator.cross quick).exchanges skipping) (.cross s) :=
    hs ▸ .of_fresh fresh_quick (by decide +kernel)
  have order : ((Estimator.cross quick).after skipping).asCross?.map (·.order) = some [0, 1] := by
    decide +kernel
  rw [hs] at order
  exact ⟨s, history, Option.some.inj order, flows_ranked_once history⟩

/-- The faster flow brings 0, then the number exactly half the space ahead, and then 1. -/
def straddling : List EstimatorCall :=
  [.arrival (.ofMillis 1) (.onFlow (.ofNat 0) 1 (.ofNat 0)),
    .arrival (.ofMillis 2) (.onFlow (.ofNat 32768) 1 (.ofNat 1)),
    .arrival (.ofMillis 3) (.onFlow (.ofNat 1) 1 (.ofNat 2)),
    .arrival (.ofMillis 13) (.onFlow (.ofNat 2) 2 (.ofNat 0)),
    .arrival (.ofMillis 14) (.onFlow (.ofNat 3) 2 (.ofNat 1)),
    .arrival (.ofMillis 15) (.onFlow (.ofNat 4) 2 (.ofNat 2))]

/-- The last arrival ranks the flows and takes 1 for the anchor, although the window holds a newer number
and none is newer than that one. -/
theorem anchor_behind_newest :
    let e : Estimator := .cross { quick with config := {} }
    let ranked := e.after straddling
    e.Fresh ∧ (e.after straddling.dropLast).asCross?.map (·.order) = some [] ∧
      ranked.asCross?.map (fun s => (s.order, s.anchor)) =
        some ([1, 2], some ⟨.ofNat 1, .ofMillis 3⟩) ∧
      ranked.asCross?.map (fun s => (s.flows.get? 1).map fun f => f.window.map (·.seq)) =
        some (some [.ofNat 0, .ofNat 32768, .ofNat 1]) ∧
      (SeqNumber.ofNat 32768).newer (.ofNat 1) = true ∧
      (SeqNumber.ofNat 0).newer (.ofNat 32768) = false ∧
      (SeqNumber.ofNat 1).newer (.ofNat 32768) = false := by
  refine ⟨.cross _ _ _ _, ?_, ?_, ?_, ?_, ?_, ?_⟩ <;> decide +kernel

end LossWatch.CrossPath
