import LossWatch.Proofs.CrossPath.Expiry

/-!
Which losses the cross-path estimator reports. Timers are moved and models taught in silence. So while
the timers run, an arrival reports no loss and an expiry one without a position; before that, an
arrival reports what the gap before it on its flow skipped, if exactly as many numbers are unresolved.
-/

namespace LossWatch

namespace LossLedger

variable {l : LossLedger} {a b n : SeqNumber}

/-- The numbers strictly between two numbers of which the ledger knows nothing. -/
def unresolvedBetween (l : LossLedger) (a b : SeqNumber) : List SeqNumber :=
  (a.between b).filter (!l.isResolved ·)

theorem mem_unresolvedBetween :
    n ∈ l.unresolvedBetween a b ↔ n ∈ a.between b ∧ l.isResolved n = false := by
  simp [unresolvedBetween]

/-- Exactly as many numbers are unresolved between the flow's last arrival and this one as the flow
skipped. -/
structure Reveals (l : LossLedger) (maxGap : Nat) (seq : SeqNumber) (update : FlowUpdate)
    (g : SeqNumber) : Prop where
  after : update.gapAfter = some g
  skips : update.gap ≠ 0
  near : g.distance seq ≤ maxGap
  counted : (l.unresolvedBetween g seq).length = update.gap

end LossLedger

theorem emitted_andThen {σ : Type} (r : Step σ) (f : σ → Step σ) :
    emitted (r.andThen f).actions = emitted r.actions ++ emitted (f r.state).actions :=
  emitted_append _ _

namespace CrossPath

variable {s s' t : CrossPath} {c : EstimatorCall} {n seq : SeqNumber} {now : Timestamp}
  {position : FlowPosition}

/-! ### Silent stages -/

theorem emitted_armShort (s : CrossPath) (now : Timestamp) (expected : SeqNumber)
    (timerDriven : Bool) : emitted (s.armShort now expected timerDriven).actions = [] := by
  rw [armShort]
  split
  · rfl
  · rw [emitted_andThen, emitted_dropShort]
    rfl

theorem emitted_coverLong (now : Timestamp) (seq : SeqNumber) (s : CrossPath) :
    emitted (s.coverLong now seq).actions = [] := by
  rw [coverLong]
  split <;> rfl

theorem emitted_settleLong (s : CrossPath) (seq : SeqNumber) :
    emitted (s.settleLong seq).actions = [] := by
  rw [settleLong]
  split <;> rfl

theorem emitted_onRepair (s : CrossPath) (a : Arrival) : emitted (s.onRepair a).actions = [] := by
  rw [onRepair]
  split
  · rfl
  · exact emitted_settleLong _ a.seq

theorem emitted_onShortTimeout (s : CrossPath) (now : Timestamp) :
    emitted (s.onShortTimeout now).actions = [] := by
  rw [onShortTimeout]
  split
  · rfl
  · rw [emitted_andThen, emitted_coverLong, emitted_armShort]
    rfl

theorem emitted_forEach_coverLong (now : Timestamp) (ns : List SeqNumber) (s : CrossPath) :
    emitted (Step.forEach (coverLong now) ns s).actions = [] := by
  induction ns generalizing s with
  | nil => rfl
  | cons n ns ih => rw [Step.forEach, emitted_andThen, emitted_coverLong, ih, List.append_nil]

theorem emitted_reconcileShort (s : CrossPath) (now : Timestamp) (seq : SeqNumber) :
    emitted (s.reconcileShort now seq).actions = [] := by
  rw [reconcileShort]
  split
  · rfl
  · rename_i short _
    split
    · rfl
    · obtain ⟨counters, -, hcounted⟩ := s.resync_state short
      rw [emitted_andThen, emitted_armShort, List.append_nil, hcounted]
      split
      · rfl
      · exact emitted_forEach_coverLong now _ _

theorem emitted_tryStart (s : CrossPath) (now : Timestamp) (seq : SeqNumber)
    (update : FlowUpdate) : emitted (s.tryStart now seq update).actions = [] := by
  rw [tryStart]
  split
  · rfl
  · split
    · exact emitted_armShort _ now _ _
    · rfl

theorem emitted_dispatch (s : CrossPath) (now : Timestamp) (seq : SeqNumber) (onFastest : Bool)
    (update : FlowUpdate) (o : Observation) :
    emitted (s.dispatch now seq onFastest update o).actions = [] := by
  rw [dispatch]
  cases s.phase with
  | learnFlowOrder => rfl
  | learnPathDifference => rfl
  | learnAwaitingAlternate => rfl
  | estAwaitingFastest =>
    cases onFastest with
    | true => exact s.emitted_tryStart now seq update
    | false => rfl
  | estRunningA => exact emitted_reconcileShort _ now seq
  | estRunningB => exact emitted_reconcileShort _ now seq

/-! ### Gaps -/

def gapLosses (now : Timestamp) (flow : Nat) (first : SeqNumber) (ps : List (SeqNumber × Nat))
    (s : CrossPath) : Step CrossPath :=
  Step.forEach (fun p => declareGapLoss now ⟨flow, first.add p.2⟩ p.1) ps s

variable {flow : Nat} {first : SeqNumber} {ps : List (SeqNumber × Nat)} {ev : LossEvent}
  {update : FlowUpdate} {g : SeqNumber}

theorem emitted_declareGapLoss (now : Timestamp) (position : FlowPosition) (n : SeqNumber)
    (s : CrossPath) : emitted (declareGapLoss now position n s).actions =
      if (s.ledger.assumeLost? now n).isSome then [.lost n (some position)] else [] := by
  rw [declareGapLoss]
  cases s.ledger.assumeLost? now n <;> rfl

theorem mem_gapLosses (h : ev ∈ emitted (s.gapLosses now flow first ps).actions) :
    ∃ p ∈ ps, ev = .lost p.1 (some ⟨flow, first.add p.2⟩) := by
  induction ps generalizing s with
  | nil => exact absurd h List.not_mem_nil
  | cons p ps ih =>
    rw [gapLosses, Step.forEach, emitted_andThen, List.mem_append, emitted_declareGapLoss] at h
    rcases h with h | h
    · refine ⟨p, List.mem_cons_self, ?_⟩
      split at h
      · exact List.mem_singleton.mp h
      · exact absurd h List.not_mem_nil
    · obtain ⟨q, hq, hev⟩ := ih h
      exact ⟨q, List.mem_cons_of_mem _ hq, hev⟩

/-- In ascending order no declaration takes the slot of a later number. -/
theorem gapLosses_of_open (now : Timestamp) (flow : Nat) (first : SeqNumber) {p : SeqNumber × Nat}
    (hl : s.ledger.Placed)
    (horder : ps.Pairwise fun p q => q.1.newer p.1 = true) (hp : p ∈ ps)
    (hopen : ¬ s.ledger.Settled p.1) :
    .lost p.1 (some ⟨flow, first.add p.2⟩) ∈ emitted (s.gapLosses now flow first ps).actions := by
  induction ps generalizing s with
  | nil => exact absurd hp List.not_mem_nil
  | cons q ps ih =>
    obtain ⟨hfirst, hrest⟩ := List.pairwise_cons.mp horder
    rw [gapLosses, Step.forEach, emitted_andThen, List.mem_append, emitted_declareGapLoss]
    rcases List.mem_cons.mp hp with rfl | hp
    · refine Or.inl ?_
      have hdeclared : (s.ledger.assumeLost? now p.1).isSome = true :=
        Option.isSome_iff_ne_none.mpr (mt LossLedger.assumeLost?_eq_none_iff.mp hopen)
      rw [if_pos hdeclared]
      exact List.mem_singleton_self _
    · refine Or.inr (ih ?_ hrest hp ?_)
      · rw [declareGapLoss]
        cases h : s.ledger.assumeLost? now q.1 with
        | none => exact hl
        | some ledger => exact hl.assumeLost? h
      · rw [declareGapLoss]
        cases h : s.ledger.assumeLost? now q.1 with
        | none => exact hopen
        | some ledger => exact LossLedger.not_settled_assumeLost? hl.size_pos h hopen (hfirst p hp)

theorem declareFlowGap_of_reveals (h : s.ledger.Reveals s.config.maxGap seq update g)
    (now : Timestamp) (position : FlowPosition) :
    s.declareFlowGap now seq position update =
      s.gapLosses now position.flow (position.flowSeq.sub update.gap)
        (s.ledger.unresolvedBetween g seq).zipIdx := by
  have hnear : ¬ (s.config.maxGap : Int) < g.distance seq := Int.not_lt.mpr h.near
  rw [declareFlowGap, h.after]
  dsimp only
  rw [if_neg (by simp [h.skips, hnear])]
  exact if_neg (not_not_intro h.counted)

theorem reveals_of_emitted (h : emitted (s.declareFlowGap now seq position update).actions ≠ []) :
    ∃ g, s.ledger.Reveals s.config.maxGap seq update g := by
  rw [declareFlowGap] at h
  cases hafter : update.gapAfter with
  | none => simp [hafter, emitted] at h
  | some g =>
    rw [hafter] at h
    dsimp only at h
    split at h
    · exact absurd rfl h
    · rename_i hnear
      split at h
      · exact absurd rfl h
      · rename_i hcount
        simp only [Bool.or_eq_true, decide_eq_true_eq, not_or] at hnear
        exact ⟨g, hafter, hnear.1, Int.not_lt.mp hnear.2, not_not.mp hcount⟩

/-! ### Arrivals -/

theorem emitted_follow (s : CrossPath) (now : Timestamp) (seq : SeqNumber)
    (position : FlowPosition) :
    ∃ t : CrossPath, t.config = s.config ∧ t.ledger = s.ledger ∧
      emitted (s.follow now seq position).actions =
        if s.phase.isRunning then [] else emitted (t.declareFlowGap now seq position
          (s.flows.record position.flow ⟨seq, position.flowSeq, now⟩).1).actions := by
  let recorded : CrossPath :=
    { s with flows := (s.flows.record position.flow ⟨seq, position.flowSeq, now⟩).2 }
  refine ⟨recorded, rfl, rfl, ?_⟩
  have huse : ∀ (t : CrossPath) (update : FlowUpdate), emitted
      (if t.phase = .learnFlowOrder then t.learn seq position.flow
      else (t.observe now seq position.flow).2.andThen fun u =>
        u.dispatch now seq (u.fastest? = some position.flow) update
          (t.observe now seq position.flow).1).actions = [] := by
    intro t update
    split
    · rw [(t.sameRecord_learn seq position.flow).2]
      rfl
    · rw [emitted_andThen, emitted_dispatch, (t.sameRecord_observe now seq position.flow).2]
      rfl
  rw [follow]
  dsimp only
  rw [emitted_andThen]
  refine (congrArg (_ ++ ·) (huse _ _)).trans ?_
  rw [List.append_nil]
  split <;> rfl

theorem emitted_accept (s : CrossPath) (now : Timestamp) (seq : SeqNumber)
    (position : FlowPosition) :
    ∃ t : CrossPath, t.config = s.config ∧ t.ledger = s.ledger ∧
      emitted (s.accept now seq position).actions =
        if s.phase.isRunning then [] else emitted (t.declareFlowGap now seq position
          (s.flows.record position.flow ⟨seq, position.flowSeq, now⟩).1).actions := by
  rw [accept]
  generalize hm : ({ s with consecutiveLosses := 0, maxSeen := _ } : CrossPath) = moved
  obtain ⟨long, hstate, -⟩ := moved.settleLong_state seq
  obtain ⟨t, hconfig, hledger, hemitted⟩ := emitted_follow { moved with long } now seq position
  rw [emitted_andThen, emitted_settleLong, hstate, List.nil_append]
  subst hm
  exact ⟨t, hconfig, hledger, hemitted⟩

theorem events_of_accepted {e : FlowEntry} (he : Exchange.accepted? ⟨.cross s, c⟩ = some e) :
    ∃ (t : CrossPath) (now : Timestamp), t.config = s.config ∧
      t.ledger = Exchange.recorded ⟨.cross s, c⟩ ∧ Exchange.events ⟨.cross s, c⟩ =
        Exchange.falseAlarms ⟨.cross s, c⟩ ++ if s.phase.isRunning then []
          else emitted (t.declareFlowGap now e.record.seq ⟨e.flow, e.record.flowSeq⟩
            (s.flows.record e.flow e.record).1).actions := by
  obtain ⟨now, a, hcall, -, hrecorded⟩ := Exchange.arrival_of_accepted? he
  obtain rfl : c = .arrival now a := hcall
  obtain ⟨hstopped, hr, rfl⟩ := Exchange.accepted?_arrival.mp he
  have hrun : ¬ s.stopped = true := Bool.eq_false_iff.mp hstopped
  have hr : (s.ledger.receive now a.seq).1.isRecorded = true := hr
  have halarms : Exchange.falseAlarms ⟨.cross s, .arrival now a⟩ =
      (s.ledger.receive now a.seq).1.lateReport a.seq (some a.place) := if_neg hrun
  have hevents : Exchange.events ⟨.cross s, .arrival now a⟩ =
      emitted (s.onArrival now a).actions := rfl
  have haccept := fun counters : CrossCounters =>
    emitted_accept { s with ledger := (s.ledger.receive now a.seq).2, counters } now a.seq a.place
  rw [hevents, hrecorded, halarms, onArrival, if_neg hrun]
  dsimp only
  cases hreception : (s.ledger.receive now a.seq).1 with
  | duplicate => simp [hreception, Reception.isRecorded] at hr
  | stale => simp [hreception, Reception.isRecorded] at hr
  | fresh =>
    obtain ⟨t, hconfig, hledger, hemitted⟩ := haccept s.counters
    exact ⟨t, now, hconfig, hledger, hemitted⟩
  | recovered =>
    obtain ⟨t, hconfig, hledger, hemitted⟩ := haccept s.counters
    exact ⟨t, now, hconfig, hledger, hemitted⟩
  | falsePositive d =>
    obtain ⟨t, hconfig, hledger, hemitted⟩ := haccept
      { s.counters with falsePositives := s.counters.falsePositives + 1 }
    exact ⟨t, now, hconfig, hledger, congrArg (_ :: ·) hemitted⟩

/-! ### Every call -/

theorem running_of_timer (h : s.Sound) (hlong : s.hasLong n = true) : s.phase.isRunning = true := by
  cases hrun : s.phase.isRunning with
  | true => rfl
  | false => exact absurd hlong (by simp [hasLong, (h.idle hrun).2 n])

theorem lost_of_timeout (h : s.Sound) {key : TimerKey} {q : Option FlowPosition}
    (hlost : .lost n q ∈ emitted (s.onTimeout now key).actions) :
    s.phase.isRunning = true ∧ q = none := by
  cases hstopped : s.stopped with
  | true => simp [onTimeout, hstopped, emitted] at hlost
  | false =>
    have hrun : ¬ s.stopped = true := by simp [hstopped]
    cases key with
    | basic =>
      rw [onTimeout, if_neg hrun] at hlost
      exact absurd hlost List.not_mem_nil
    | short =>
      rw [onTimeout, if_neg hrun] at hlost
      exact absurd hlost (by simp [s.emitted_onShortTimeout])
    | long m =>
      cases hlong : s.hasLong m with
      | true =>
        rw [emitted_onTimeout_long h hstopped hlong] at hlost
        split at hlost
        · exact absurd hlost List.not_mem_nil
        · have hq := LossEvent.lost.inj (List.mem_singleton.mp hlost)
          exact ⟨running_of_timer h hlong, hq.2⟩
      | false =>
        rw [onTimeout, if_neg hrun] at hlost
        have hsilent : s.onLongTimeout now m = .stay s := by simp [onLongTimeout, hlong]
        exact absurd hlost (by simp [hsilent, emitted])

theorem lost_of_unaccepted (h : s.Sound) {q : Option FlowPosition}
    (hnone : Exchange.accepted? ⟨.cross s, c⟩ = none)
    (hlost : .lost n q ∈ Exchange.events ⟨.cross s, c⟩) : s.phase.isRunning = true ∧ q = none := by
  cases c with
  | arrival now a =>
    obtain ⟨ledger, hstay⟩ := onArrival_of_unaccepted hnone
    have hmem : LossEvent.lost n q ∈ emitted (s.onArrival now a).actions := hlost
    exact absurd hmem (by simp [hstay, emitted])
  | repair a =>
    have hmem : LossEvent.lost n q ∈ emitted (s.onRepair a).actions := hlost
    exact absurd hmem (by simp [s.emitted_onRepair])
  | timeout now key => exact lost_of_timeout h hlost
  | withdrawn m => exact absurd hlost List.not_mem_nil

/-- What a call reports lost: a number given up by its timer, or one of those that a gap skipped. -/
theorem lost_cases (h : s.Sound) {q : Option FlowPosition}
    (hlost : .lost n q ∈ Exchange.events ⟨.cross s, c⟩) :
    (s.phase.isRunning = true ∧ q = none) ∨ (s.phase.isRunning = false ∧
      ∃ e g i, Exchange.accepted? ⟨.cross s, c⟩ = some e ∧
        (Exchange.recorded ⟨.cross s, c⟩).Reveals s.config.maxGap e.record.seq
          (s.flows.record e.flow e.record).1 g ∧
        ((Exchange.recorded ⟨.cross s, c⟩).unresolvedBetween g e.record.seq)[i]? = some n ∧
        q = some ⟨e.flow,
          (e.record.flowSeq.sub (s.flows.record e.flow e.record).1.gap).add i⟩) := by
  cases he : Exchange.accepted? ⟨.cross s, c⟩ with
  | some e =>
    obtain ⟨t, now, hconfig, hledger, hevents⟩ := events_of_accepted he
    rw [hevents, List.mem_append] at hlost
    have hlost := hlost.resolve_left fun h =>
      absurd (Exchange.mem_falseAlarms h).1 (by simp [LossEvent.isLost])
    cases hrun : s.phase.isRunning with
    | true => simp [hrun] at hlost
    | false =>
      rw [hrun, if_neg (by simp)] at hlost
      obtain ⟨g, hreveals⟩ := reveals_of_emitted (List.ne_nil_of_mem hlost)
      rw [declareFlowGap_of_reveals hreveals] at hlost
      obtain ⟨⟨m, i⟩, hmi, hev⟩ := mem_gapLosses hlost
      obtain ⟨rfl, rfl⟩ := LossEvent.lost.inj hev
      rw [hconfig, hledger] at hreveals
      rw [hledger] at hmi
      exact Or.inr ⟨rfl, e, g, i, rfl, hreveals, List.mem_zipIdx_iff_getElem?.mp hmi, rfl⟩
  | none => exact Or.inl (lost_of_unaccepted h he hlost)

theorem reportsLoss_of_reveals {e : FlowEntry} {g : SeqNumber} (h : s.Sound)
    (hidle : s.phase.isRunning = false) (he : Exchange.accepted? ⟨.cross s, c⟩ = some e)
    (hreveals : (Exchange.recorded ⟨.cross s, c⟩).Reveals s.config.maxGap e.record.seq
      (s.flows.record e.flow e.record).1 g)
    (hn : n ∈ (Exchange.recorded ⟨.cross s, c⟩).unresolvedBetween g e.record.seq)
    (hslot : (Exchange.recorded ⟨.cross s, c⟩).overtaken n = false) :
    Exchange.ReportsLoss ⟨.cross s, c⟩ n := by
  obtain ⟨t, now, hconfig, hledger, hevents⟩ := events_of_accepted he
  obtain ⟨i, hi⟩ := List.mem_iff_getElem?.mp hn
  have hopen : ¬ t.ledger.Settled n := by
    rw [hledger, LossLedger.settled_iff, (LossLedger.mem_unresolvedBetween.mp hn).2, hslot]
    simp
  have hplaced : t.ledger.Placed := hledger ▸ Exchange.placed_recorded h.placed
  rw [← hconfig, ← hledger] at hreveals
  have horder : (t.ledger.unresolvedBetween g e.record.seq).zipIdx.Pairwise
      fun p q => q.1.newer p.1 = true := by
    have hsorted : (t.ledger.unresolvedBetween g e.record.seq).Pairwise
        fun m n => n.newer m = true := (SeqNumber.pairwise_between g e.record.seq).filter _
    rw [← List.zipIdx_map_fst 0 (t.ledger.unresolvedBetween g e.record.seq)] at hsorted
    exact List.pairwise_map.mp hsorted
  have hmem : (n, i) ∈ (t.ledger.unresolvedBetween g e.record.seq).zipIdx :=
    List.mem_zipIdx_iff_getElem?.mpr (hledger ▸ hi)
  have hdeclared := gapLosses_of_open now e.flow
    (e.record.flowSeq.sub (s.flows.record e.flow e.record).1.gap) hplaced horder hmem hopen
  rw [if_neg (by simp [hidle]), declareFlowGap_of_reveals hreveals] at hevents
  exact ⟨_, hevents ▸ List.mem_append_right _ hdeclared⟩

end CrossPath
end LossWatch
