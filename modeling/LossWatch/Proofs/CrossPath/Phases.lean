import LossWatch.Proofs.CrossPath.Coverage

/-!
The phase tells which data the cross-path estimator has. An order exists from the first ranking on,
and with it an anchor; a number is awaited in one phase only. Every stage of an arrival keeps this,
and none but the first touches what has arrived, which is the table of flows and the newest number.
-/

namespace LossWatch.CrossPath

variable {s s' s'' : CrossPath}

/-- The phase tells which of the data of learning are there. -/
structure Consistent (s : CrossPath) : Prop where
  awaited : s.awaited.isSome = true ↔ s.phase = .learnAwaitingAlternate
  order : s.order = [] ↔ s.phase = .learnFlowOrder
  anchored : s.phase ≠ .learnFlowOrder → s.anchor.isSome = true

/-- What has arrived is the same, and the phase still fits the data if it did. -/
structure Coheres (s s' : CrossPath) : Prop where
  flows : s'.flows = s.flows
  maxSeen : s'.maxSeen = s.maxSeen
  resets : s'.counters.resets = s.counters.resets
  consistent : s.Consistent → s'.Consistent

namespace Coheres

theorem refl (s : CrossPath) : s.Coheres s := ⟨rfl, rfl, rfl, id⟩

theorem trans (h : s.Coheres s') (h' : s'.Coheres s'') : s.Coheres s'' :=
  ⟨h'.flows.trans h.flows, h'.maxSeen.trans h.maxSeen, h'.resets.trans h.resets,
    h'.consistent ∘ h.consistent⟩

theorem of_sameRecord (h : s.SameRecord s') (hc : s.Consistent → s'.Consistent) : s.Coheres s' :=
  ⟨h.flows, h.maxSeen, h.resets, hc⟩

theorem forEach {α : Type} {f : α → CrossPath → Step CrossPath}
    (hf : ∀ a (t : CrossPath), t.Coheres (f a t).state) (as : List α) (s : CrossPath) :
    s.Coheres (Step.forEach f as s).state := by
  induction as generalizing s with
  | nil => exact .refl s
  | cons a as ih => exact (hf a s).trans (ih (f a s).state)

end Coheres

/-! ### Timers and losses -/

theorem coheres_dropShort (s : CrossPath) : s.Coheres s.dropShort.state := by
  rw [dropShort_state]
  exact ⟨rfl, rfl, rfl, fun h => ⟨h.awaited, h.order, h.anchored⟩⟩

theorem coheres_armShort (s : CrossPath) (now : Timestamp) (expected : SeqNumber)
    (timerDriven : Bool) : s.Coheres (s.armShort now expected timerDriven).state := by
  simp only [armShort]
  split
  · exact .refl s
  · refine s.coheres_dropShort.trans ?_
    exact ⟨rfl, rfl, rfl, fun h => ⟨h.awaited, h.order, h.anchored⟩⟩

theorem coheres_coverLong (now : Timestamp) (n : SeqNumber) (s : CrossPath) :
    s.Coheres (s.coverLong now n).state := by
  obtain ⟨long, hstate, -⟩ := covering_coverLong now n s
  rw [hstate]
  exact ⟨rfl, rfl, rfl, fun h => ⟨h.awaited, h.order, h.anchored⟩⟩

theorem coheres_reconcileShort (s : CrossPath) (now : Timestamp) (seq : SeqNumber) :
    s.Coheres (s.reconcileShort now seq).state := by
  simp only [reconcileShort]
  split
  · exact .refl s
  · split
    · exact .refl s
    · rename_i short _ _
      obtain ⟨counters, hresets, hcounted⟩ := s.resync_state short
      have hsame : s.Coheres { s with counters } :=
        ⟨rfl, rfl, hresets, fun h => ⟨h.awaited, h.order, h.anchored⟩⟩
      rw [hcounted, Step.state_andThen]
      refine (hsame.trans ?_).trans (coheres_armShort _ now _ _)
      split
      · exact .refl _
      · exact .forEach (coheres_coverLong now) _ _

theorem coheres_settleLong (s : CrossPath) (seq : SeqNumber) :
    s.Coheres (s.settleLong seq).state := by
  obtain ⟨long, hstate, -⟩ := s.settleLong_state seq
  rw [hstate]
  exact ⟨rfl, rfl, rfl, fun h => ⟨h.awaited, h.order, h.anchored⟩⟩

theorem coheres_declareFlowGap (s : CrossPath) (now : Timestamp) (seq : SeqNumber)
    (position : FlowPosition) (update : FlowUpdate) :
    s.Coheres (s.declareFlowGap now seq position update).state := by
  obtain ⟨ledger, counters, -, hresets, hstate⟩ := s.declareFlowGap_state now seq position update
  rw [hstate]
  exact ⟨rfl, rfl, hresets, fun h => ⟨h.awaited, h.order, h.anchored⟩⟩

theorem coheres_onShortTimeout (s : CrossPath) (now : Timestamp) :
    s.Coheres (s.onShortTimeout now).state := by
  simp only [onShortTimeout]
  split
  · exact .refl s
  · rename_i short _
    let counted : CrossPath := count { s with short := none } fun c =>
      { c with shortTimeouts := c.shortTimeouts + 1 }
    have hcounted : s.Coheres counted := ⟨rfl, rfl, rfl, fun h => ⟨h.awaited, h.order, h.anchored⟩⟩
    exact (hcounted.trans (coheres_coverLong now short.expected counted)).trans
      (coheres_armShort _ now _ _)

/-! ### Learning -/

theorem Consistent.moved (h : s.Consistent) (hleft : s.phase ≠ .learnFlowOrder)
    (hentered : s'.phase ≠ .learnFlowOrder) (horder : s'.order = s.order)
    (hanchor : s.anchor.isSome = true → s'.anchor.isSome = true)
    (hawaited : s'.awaited.isSome = true ↔ s'.phase = .learnAwaitingAlternate) :
    s'.Consistent where
  awaited := hawaited
  order := by
    rw [horder, h.order]
    exact iff_of_false hleft hentered
  anchored _ := hanchor (h.anchored hleft)

theorem phase_advance_of_next {t : CrossTrigger} {p : CrossPhase} (h : s.phase.next t = some p) :
    (s.advance t).phase = p ∧ (s.advance t).order = s.order ∧
      (s.advance t).anchor = s.anchor ∧ (s.advance t).awaited = s.awaited := by
  simp only [advance, h]
  by_cases ht : t = .referenceLost <;> simp [ht, count]

theorem advance_of_next_eq_none {t : CrossTrigger} (h : s.phase.next t = none) :
    s.advance t = s := by
  simp only [advance, h]

theorem coheres_advance (s : CrossPath) {t : CrossTrigger}
    (ht : t = .predictorsReady ∨ t = .deltaSample ∨ t = .crossSample) :
    s.Coheres (s.advance t) := by
  refine .of_sameRecord (s.sameRecord_advance t) fun h => ?_
  cases hnext : s.phase.next t with
  | none => rwa [advance_of_next_eq_none hnext]
  | some p =>
    obtain ⟨hphase, horder, hanchor, hawaited⟩ := phase_advance_of_next hnext
    have hapart : s.phase ≠ .learnFlowOrder ∧ p ≠ .learnFlowOrder ∧
        s.phase ≠ .learnAwaitingAlternate ∧ p ≠ .learnAwaitingAlternate := by
      rcases ht with rfl | rfl | rfl <;> cases hp : s.phase <;> rw [hp] at hnext <;>
        simp [CrossPhase.next] at hnext ⊢ <;> simp [← hnext]
    obtain ⟨hleft, hentered, hawaits, hawaits'⟩ := hapart
    refine h.moved hleft (hphase ▸ hentered) horder (hanchor ▸ id) ?_
    rw [hawaited, hphase, h.awaited]
    exact iff_of_false hawaits hawaits'

theorem coheres_anchorReference (s : CrossPath) (seq : SeqNumber) :
    s.Coheres (s.anchorReference seq) := by
  refine .of_sameRecord (s.sameRecord_anchorReference seq) fun h => ?_
  cases hp : s.phase with
  | learnPathDifference =>
    simp only [anchorReference, hp, CrossPhase.next]
    exact h.moved (by simp [hp]) (by simp) rfl id (by simp)
  | _ =>
    simp only [anchorReference, hp, CrossPhase.next]
    exact h

theorem coheres_loseReference (s : CrossPath) : s.Coheres s.loseReference := by
  refine .of_sameRecord s.sameRecord_loseReference fun h => ?_
  have hmoved : ∀ {p : CrossPhase}, s.phase.next .referenceLost = some p →
      s.phase ≠ .learnFlowOrder → p = .learnPathDifference → s.loseReference.Consistent := by
    intro p hnext hleft hp
    obtain ⟨hphase, horder, hanchor, hawaited⟩ :=
      phase_advance_of_next (s := { s with awaited := none }) hnext
    refine h.moved hleft ?_ horder (hanchor ▸ id) ?_
    · rw [loseReference, hphase, hp]
      simp
    · rw [loseReference, hphase, hawaited, hp]
      simp
  have hstays : s.phase.next .referenceLost = none → s.phase ≠ .learnAwaitingAlternate →
      s.loseReference.Consistent := by
    intro hnext hawaits
    rw [loseReference, advance_of_next_eq_none (s := { s with awaited := none }) hnext]
    exact ⟨iff_of_false (by simp) hawaits, h.order, h.anchored⟩
  cases hp : s.phase with
  | learnFlowOrder => exact hstays (by rw [hp]; rfl) (by simp [hp])
  | learnPathDifference => exact hstays (by rw [hp]; rfl) (by simp [hp])
  | learnAwaitingAlternate => exact hmoved (by rw [hp]; rfl) (by simp [hp]) rfl
  | estAwaitingFastest => exact hmoved (by rw [hp]; rfl) (by simp [hp]) rfl
  | estRunningA => exact hmoved (by rw [hp]; rfl) (by simp [hp]) rfl
  | estRunningB => exact hmoved (by rw [hp]; rfl) (by simp [hp]) rfl

theorem coheres_awaitAlternate (s : CrossPath) (seq : SeqNumber) (onFastest : Bool)
    (update : FlowUpdate) : s.Coheres (s.awaitAlternate seq onFastest update) := by
  cases hawaited : s.awaited with
  | none =>
    simp only [awaitAlternate, hawaited]
    exact .refl s
  | some awaited =>
    have hphase : s.Consistent → s.phase = .learnAwaitingAlternate := fun h =>
      h.awaited.mp (by simp [hawaited])
    simp only [awaitAlternate, hawaited]
    split
    · split
      · exact s.coheres_loseReference.trans (coheres_anchorReference _ seq)
      · split
        · refine .of_sameRecord (s.sameRecord_awaited _) fun h => ?_
          exact ⟨iff_of_true rfl (hphase h), h.order, h.anchored⟩
        · exact .refl s
    · split
      · refine .of_sameRecord ((s.sameRecord_awaited none).trans (sameRecord_advance _ _))
          fun h => ?_
        have hnext : (({ s with awaited := none } : CrossPath).phase.next .alternateArrived) =
            some .estAwaitingFastest := by
          rw [hphase h]
          rfl
        obtain ⟨hphase', horder, hanchor, hawaited'⟩ := phase_advance_of_next hnext
        refine h.moved (by simp [hphase h]) (by simp [hphase']) horder ?_ ?_
        · rw [hanchor]
          exact id
        · rw [hphase', hawaited']
          simp
      · split
        · exact s.coheres_loseReference
        · exact .refl s

theorem coheres_learn (s : CrossPath) (seq : SeqNumber) (flow : Nat) :
    s.Coheres (s.learn seq flow).state := by
  cases hr : s.learnFlowOrder? with
  | none =>
    simp only [learn, hr]
    exact .refl s
  | some ranked =>
    obtain ⟨hsame, -⟩ := sameRecord_learnFlowOrder? hr
    obtain ⟨-, hne, hanchor, hawaited, hphase⟩ := learnFlowOrder?_eq_some hr
    have hadvanced : s.Coheres (ranked.state.advance .flowOrderLearned) := by
      refine .of_sameRecord (hsame.trans (sameRecord_advance _ _)) fun h => ?_
      cases hp : s.phase with
      | learnFlowOrder =>
        have hnext : ranked.state.phase.next .flowOrderLearned = some .learnPathDifference := by
          rw [hphase, hp]
          rfl
        obtain ⟨hphase', horder, hanchor', hawaited'⟩ := phase_advance_of_next hnext
        constructor
        · rw [hawaited', hphase', hawaited, h.awaited, hp]
          simp
        · rw [horder, hphase']
          exact iff_of_false hne (by simp)
        · rw [hanchor']
          exact fun _ => hanchor
      | _ =>
        have hnext : ranked.state.phase.next .flowOrderLearned = none := by
          rw [hphase, hp]
          rfl
        rw [advance_of_next_eq_none hnext]
        constructor
        · rw [hawaited, hphase, h.awaited]
        · rw [hphase]
          exact iff_of_false hne (by simp [hp])
        · exact fun _ => hanchor
    simp only [learn, hr, Step.state_alter]
    split
    · exact hadvanced.trans (coheres_anchorReference _ seq)
    · exact hadvanced

theorem coheres_observe (s : CrossPath) (now : Timestamp) (seq : SeqNumber) (flow : Nat) :
    s.Coheres (s.observe now seq flow).2.state := by
  have hanchored : ∀ {anchor : Anchor} {delta : Predictor} {nominalDelta : Float},
      s.Coheres { s with anchor := some anchor, delta, nominalDelta } :=
    ⟨rfl, rfl, rfl, fun h => ⟨h.awaited, h.order, fun _ => rfl⟩⟩
  simp only [observe]
  split
  · simp only [observeFastest]
    split
    · exact hanchored
    · split
      · exact .refl s
      · simp only [Step.state_alter]
        split <;> exact hanchored
  · split
    · exact ⟨rfl, rfl, rfl, fun h => ⟨h.awaited, h.order, h.anchored⟩⟩
    · exact .refl s

/-! ### Arrivals -/

theorem coheres_tryStart (s : CrossPath) (now : Timestamp) (seq : SeqNumber)
    (update : FlowUpdate) : s.Coheres (s.tryStart now seq update).state := by
  simp only [tryStart]
  split
  · exact s.coheres_loseReference.trans (coheres_anchorReference _ seq)
  · split
    · exact (s.coheres_advance (.inl rfl)).trans (coheres_armShort _ now _ _)
    · exact .refl s

theorem coheres_keepRunning (s : CrossPath) (now : Timestamp) (seq : SeqNumber)
    (o : Observation) : s.Coheres (s.keepRunning now seq o).state := by
  cases o with
  | delta =>
    exact (s.coheres_advance (.inr (.inl rfl))).trans (coheres_reconcileShort _ now seq)
  | cross =>
    exact (s.coheres_advance (.inr (.inr rfl))).trans (coheres_reconcileShort _ now seq)
  | stale => exact s.coheres_reconcileShort now seq

theorem coheres_dispatch (s : CrossPath) (now : Timestamp) (seq : SeqNumber) (onFastest : Bool)
    (update : FlowUpdate) (o : Observation) :
    s.Coheres (s.dispatch now seq onFastest update o).state := by
  simp only [dispatch]
  cases s.phase with
  | learnFlowOrder => exact .refl s
  | learnPathDifference =>
    simp only [Step.state_stay]
    split
    · exact s.coheres_anchorReference seq
    · exact .refl s
  | learnAwaitingAlternate => exact s.coheres_awaitAlternate seq onFastest update
  | estAwaitingFastest =>
    dsimp only
    split
    · exact s.coheres_tryStart now seq update
    · exact .refl s
  | estRunningA => exact s.coheres_keepRunning now seq o
  | estRunningB => exact s.coheres_keepRunning now seq o

theorem coheres_follow (s : CrossPath) (now : Timestamp) (seq : SeqNumber)
    (position : FlowPosition) :
    Coheres { s with flows := (s.flows.record position.flow ⟨seq, position.flowSeq, now⟩).2 }
      (s.follow now seq position).state := by
  let recorded : CrossPath :=
    { s with flows := (s.flows.record position.flow ⟨seq, position.flowSeq, now⟩).2 }
  have hread : recorded.Coheres (if recorded.phase.isRunning = true then Step.stay recorded
      else recorded.declareFlowGap now seq position
        (s.flows.record position.flow ⟨seq, position.flowSeq, now⟩).1).state := by
    split
    · exact .refl recorded
    · exact recorded.coheres_declareFlowGap now seq position _
  have huse : ∀ (t : CrossPath) (update : FlowUpdate), t.Coheres
      (if t.phase = .learnFlowOrder then t.learn seq position.flow
      else (t.observe now seq position.flow).2.andThen fun u =>
        u.dispatch now seq (u.fastest? = some position.flow) update
          (t.observe now seq position.flow).1).state := by
    intro t update
    split
    · exact t.coheres_learn seq position.flow
    · exact (t.coheres_observe now seq position.flow).trans (coheres_dispatch _ now seq _ update _)
  exact hread.trans (huse _ _)

end LossWatch.CrossPath
