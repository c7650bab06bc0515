import LossWatch.Proofs.CrossPath.History
import LossWatch.Proofs.CrossPath.Reports
import LossWatch.Proofs.LossLedger.Totals
import LossWatch.Proofs.SinglePath.Counting

/-!
What an estimator and its ledger count of the events. Both count every loss and every false alarm in
the step that reports it, and nothing else moves these counts; a reset keeps them. So after any run
they tell how many events of each kind it has reported.
-/

namespace LossWatch

/-- The counts that go with the events, kept by the estimator and once more by its ledger. -/
structure EventTally where
  losses : Nat
  assumedLost : Nat
  falsePositives : Nat
  lateArrivals : Nat
  withdrawn : Nat
deriving DecidableEq

namespace EventTally

variable {losses falsePositives : Nat} {l l' : LossLedger} {n : SeqNumber} {now : Timestamp}

def of (losses falsePositives : Nat) (l : LossLedger) : EventTally where
  losses := losses
  assumedLost := l.totals.assumedLost
  falsePositives := falsePositives
  lateArrivals := l.totals.falsePositives
  withdrawn := l.totals.withdrawn

def after (t : EventTally) (es : List LossEvent) : EventTally :=
  { t with
    losses := t.losses + es.countP (·.isLost)
    assumedLost := t.assumedLost + es.countP (·.isLost)
    falsePositives := t.falsePositives + es.countP (!·.isLost)
    lateArrivals := t.lateArrivals + es.countP (!·.isLost) }

theorem after_append (t : EventTally) (es fs : List LossEvent) :
    t.after (es ++ fs) = (t.after es).after fs := by
  simp only [after, List.countP_append, Nat.add_assoc]

theorem of_assumeLost? (h : l.assumeLost? now n = some l') (position : Option FlowPosition) :
    of (losses + 1) falsePositives l' = (of losses falsePositives l).after [.lost n position] := by
  obtain ⟨hlost, hlate, hwithdrawn⟩ := LossLedger.totals_assumeLost? h
  rw [of, hlost, hlate, hwithdrawn]
  rfl

theorem of_receive (losses falsePositives : Nat) (l : LossLedger) (now : Timestamp)
    (n : SeqNumber) (position : Option FlowPosition) :
    of losses (falsePositives + (l.receive now n).1.isLate.toNat) (l.receive now n).2 =
      (of losses falsePositives l).after ((l.receive now n).1.lateReport n position) := by
  obtain ⟨hlost, hlate, hwithdrawn⟩ := l.totals_receive now n
  rw [of, hlost, hlate, hwithdrawn]
  cases (l.receive now n).1 <;> rfl

theorem of_receiveRepair (l : LossLedger) (n : SeqNumber) :
    of losses falsePositives (l.receiveRepair n).2 = of losses falsePositives l := by
  have hsame := l.sameTotals_receiveRepair n
  rw [of, hsame.assumedLost, hsame.falsePositives, hsame.withdrawn]
  rfl

end EventTally

namespace Step

variable {σ τ : Type} {v : σ → EventTally} {t : EventTally} {r : Step σ} {s : σ}

def Tallies (r : Step σ) (v : σ → EventTally) (t : EventTally) : Prop :=
  v r.state = t.after (emitted r.actions)

theorem Tallies.of_silent (ha : emitted r.actions = []) (ht : v r.state = t) : r.Tallies v t := by
  rw [Tallies, ha, ht]
  rfl

theorem Tallies.stay (ht : v s = t) : (stay s).Tallies v t := .of_silent rfl ht

theorem Tallies.emit {e : LossEvent} (hs : v s = t.after [e]) : (act s (.emit e)).Tallies v t := hs

theorem Tallies.of_eq {t' : EventTally} (hr : r.Tallies v t') (ht : t' = t) : r.Tallies v t :=
  ht ▸ hr

theorem Tallies.andThen {f : σ → Step σ} (hr : r.Tallies v t) (hf : ∀ s, (f s).Tallies v (v s)) :
    (r.andThen f).Tallies v t := by
  have hnext := hf r.state
  rw [Tallies, hr] at hnext
  rw [Tallies, state_andThen, actions_andThen, emitted_append, EventTally.after_append, hnext]

theorem Tallies.alter {v' : τ → EventTally} {f : σ → τ} (hr : r.Tallies v t)
    (hf : v' (f r.state) = v r.state) : (r.alter f).Tallies v' t := by
  rw [Tallies, state_alter, actions_alter, hf]
  exact hr

theorem Tallies.forEach {α : Type} {f : α → σ → Step σ} (hf : ∀ a s, (f a s).Tallies v (v s))
    (as : List α) (s : σ) : (forEach f as s).Tallies v (v s) := by
  induction as generalizing s with
  | nil => exact .stay rfl
  | cons a as ih => exact (hf a s).andThen ih

end Step

/-! ### The single-path estimator -/

namespace SinglePath

variable {s : SinglePath} {now : Timestamp}

def tally (s : SinglePath) : EventTally :=
  .of s.counters.losses s.counters.falsePositives s.ledger

theorem tallies_disarm (s : SinglePath) : s.disarm.Tallies tally s.tally :=
  .of_silent s.emitted_disarm (by rw [disarm_state]; rfl)

theorem tallies_arm (s : SinglePath) (now : Timestamp) (seq : SeqNumber) (due : Timestamp) :
    (s.arm now seq due).Tallies tally s.tally := by
  rw [arm]
  exact s.tallies_disarm.andThen fun _ => .of_silent rfl rfl

theorem tallies_armFromPrediction (s : SinglePath) (now : Timestamp) :
    (s.armFromPrediction now).Tallies tally s.tally := by
  rw [armFromPrediction]
  cases s.maxSeen with
  | none => exact .stay rfl
  | some last =>
    dsimp only
    split
    · exact tallies_arm _ now _ _
    · exact s.tallies_disarm.alter rfl

theorem tallies_declareLost (now : Timestamp) (n : SeqNumber) (s : SinglePath) :
    (s.declareLost now n).Tallies tally s.tally := by
  rw [declareLost]
  cases h : s.ledger.assumeLost? now n with
  | none => exact .stay rfl
  | some ledger => exact .emit (EventTally.of_assumeLost? h none)

theorem tallies_fullReset (s : SinglePath) : s.fullReset.Tallies tally s.tally := by
  rw [fullReset]
  exact s.tallies_disarm.alter rfl

theorem tallies_advance (s : SinglePath) (now : Timestamp) (seq : SeqNumber) :
    (s.advance now seq).Tallies tally s.tally := by
  rw [advance]
  cases s.maxSeen with
  | none => exact .stay rfl
  | some last =>
    dsimp only
    split
    · refine Step.Tallies.alter (v := tally) ?_ rfl
      split
      · exact .andThen (.of_silent rfl rfl) tallies_disarm
      · exact .forEach (tallies_declareLost now) _ _
    · exact .stay rfl

theorem tallies_accept (s : SinglePath) (now : Timestamp) (seq : SeqNumber) :
    (s.accept now seq).Tallies tally s.tally := by
  rw [accept]
  refine (tallies_advance _ now seq).andThen fun t => ?_
  split
  · exact t.tallies_armFromPrediction now
  · exact .stay rfl

theorem tallies_onArrival (s : SinglePath) (now : Timestamp) (a : Arrival) :
    (s.onArrival now a).Tallies tally s.tally := by
  have hentered := EventTally.of_receive s.counters.losses s.counters.falsePositives
    s.ledger now a.seq a.position
  rw [onArrival]
  split
  · exact .stay rfl
  · dsimp only
    generalize (s.ledger.receive now a.seq).1 = reception at hentered ⊢
    cases reception with
    | duplicate => exact .stay hentered
    | stale => exact .stay hentered
    | fresh => exact (tallies_accept _ now a.seq).of_eq hentered
    | recovered => exact (tallies_accept _ now a.seq).of_eq hentered
    | falsePositive lateBy => exact .andThen (.emit hentered) fun t => t.tallies_accept now a.seq

theorem tallies_onRepair (s : SinglePath) (a : Arrival) :
    (s.onRepair a).Tallies tally s.tally := by
  rw [onRepair]
  split
  · exact .stay rfl
  · exact .stay (EventTally.of_receiveRepair s.ledger a.seq)

theorem tallies_afterMiss (s : SinglePath) (now : Timestamp) (p : ExpectedPacket) :
    (s.afterMiss now p).Tallies tally s.tally := by
  rw [afterMiss]
  split
  · exact .andThen (.of_silent rfl rfl) tallies_fullReset
  · exact s.tallies_arm now _ _

theorem tallies_miss (s : SinglePath) (now : Timestamp) (p : ExpectedPacket) :
    (s.miss now p).Tallies tally s.tally := by
  rw [miss]
  refine Step.Tallies.andThen (v := tally) ?_ fun t => t.tallies_afterMiss now p
  exact (s.tallies_declareLost now p.seq).alter rfl

theorem tallies_onTimeout (s : SinglePath) (now : Timestamp) (key : TimerKey) :
    (s.onTimeout now key).Tallies tally s.tally := by
  rw [onTimeout]
  split
  · exact .stay rfl
  · cases s.pending with
    | none => exact .stay rfl
    | some p =>
      dsimp only
      split
      · exact tallies_armFromPrediction _ now
      · exact tallies_miss _ now p

theorem tally_reset (s : SinglePath) : s.reset.state.tally = s.tally := by
  rw [reset, Step.state_alter, fullReset_state]
  rfl

theorem tally_stop (s : SinglePath) : s.stop.state.tally = s.tally := by
  rw [stop, Step.state_alter, disarm_state]
  rfl

end SinglePath

/-! ### The cross-path estimator -/

namespace CrossPath

variable {s s' : CrossPath} {now : Timestamp}

def tally (s : CrossPath) : EventTally :=
  .of s.counters.losses s.counters.falsePositives s.ledger

theorem SameRecord.tally_eq (h : s.SameRecord s') : s'.tally = s.tally := by
  rw [tally, h.losses, h.falsePositives, h.ledger]
  rfl

theorem tallies_dropShort (s : CrossPath) : s.dropShort.Tallies tally s.tally :=
  .of_silent s.emitted_dropShort (by rw [dropShort_state]; rfl)

theorem tallies_armShort (s : CrossPath) (now : Timestamp) (expected : SeqNumber)
    (timerDriven : Bool) : (s.armShort now expected timerDriven).Tallies tally s.tally := by
  rw [armShort]
  cases s.anchor with
  | none => exact .stay rfl
  | some anchor => exact s.tallies_dropShort.andThen fun _ => .of_silent rfl rfl

theorem tallies_coverLong (now : Timestamp) (n : SeqNumber) (s : CrossPath) :
    (s.coverLong now n).Tallies tally s.tally := by
  rw [coverLong]
  split
  · exact .of_silent rfl rfl
  · exact .stay rfl

theorem tallies_settleLong (s : CrossPath) (n : SeqNumber) :
    (s.settleLong n).Tallies tally s.tally := by
  rw [settleLong]
  split
  · exact .of_silent rfl rfl
  · exact .stay rfl

theorem tallies_reconcileShort (s : CrossPath) (now : Timestamp) (seq : SeqNumber) :
    (s.reconcileShort now seq).Tallies tally s.tally := by
  rw [reconcileShort]
  cases s.short with
  | none => exact .stay rfl
  | some short =>
    dsimp only
    split
    · exact .stay rfl
    · refine Step.Tallies.andThen (v := tally) ?_ fun t => t.tallies_armShort now _ _
      have hcounted : tally (if short.timerDriven = true
          then s.count fun c => { c with resyncs := c.resyncs + 1 } else s) = s.tally := by
        split <;> rfl
      generalize (if short.timerDriven = true
        then s.count fun c => { c with resyncs := c.resyncs + 1 } else s) = t at hcounted ⊢
      split
      · exact .of_silent rfl hcounted
      · exact (Step.Tallies.forEach (tallies_coverLong now) _ _).of_eq hcounted

theorem tallies_keepRunning (s : CrossPath) (now : Timestamp) (seq : SeqNumber) (o : Observation) :
    (s.keepRunning now seq o).Tallies tally s.tally := by
  unfold keepRunning
  cases o with
  | delta =>
    exact (tallies_reconcileShort _ now seq).of_eq (s.sameRecord_advance .deltaSample).tally_eq
  | cross =>
    exact (tallies_reconcileShort _ now seq).of_eq (s.sameRecord_advance .crossSample).tally_eq
  | stale => exact s.tallies_reconcileShort now seq

theorem tallies_fullReset (s : CrossPath) : s.fullReset.Tallies tally s.tally :=
  .of_silent s.emitted_cancelTimers (by rw [fullReset_state]; rfl)

theorem tallies_declareGapLoss (now : Timestamp) (position : FlowPosition) (n : SeqNumber)
    (s : CrossPath) : (s.declareGapLoss now position n).Tallies tally s.tally := by
  rw [declareGapLoss]
  cases h : s.ledger.assumeLost? now n with
  | none => exact .stay rfl
  | some ledger => exact .emit (EventTally.of_assumeLost? h (some position))

theorem tallies_declareFlowGap (s : CrossPath) (now : Timestamp) (seq : SeqNumber)
    (position : FlowPosition) (update : FlowUpdate) :
    (s.declareFlowGap now seq position update).Tallies tally s.tally := by
  rw [declareFlowGap]
  cases update.gapAfter with
  | none => exact .stay rfl
  | some previous =>
    dsimp only
    split
    · exact .stay rfl
    · split
      · exact .stay rfl
      · exact .forEach (fun p t => t.tallies_declareGapLoss now _ p.1) _ _

theorem tallies_tryStart (s : CrossPath) (now : Timestamp) (seq : SeqNumber)
    (update : FlowUpdate) : (s.tryStart now seq update).Tallies tally s.tally := by
  rw [tryStart]
  split
  · exact .stay (s.sameRecord_loseReference.trans (sameRecord_anchorReference _ seq)).tally_eq
  · split
    · exact (tallies_armShort _ now _ _).of_eq (s.sameRecord_advance .predictorsReady).tally_eq
    · exact .stay rfl

theorem tallies_dispatch (s : CrossPath) (now : Timestamp) (seq : SeqNumber) (onFastest : Bool)
    (update : FlowUpdate) (o : Observation) :
    (s.dispatch now seq onFastest update o).Tallies tally s.tally := by
  rw [dispatch]
  cases s.phase with
  | learnFlowOrder => exact .stay rfl
  | learnPathDifference =>
    refine .stay ?_
    split
    · exact (s.sameRecord_anchorReference seq).tally_eq
    · rfl
  | learnAwaitingAlternate =>
    exact .stay (s.sameRecord_awaitAlternate seq onFastest update).tally_eq
  | estAwaitingFastest =>
    dsimp only
    split
    · exact s.tallies_tryStart now seq update
    · exact .stay rfl
  | estRunningA => exact s.tallies_keepRunning now seq o
  | estRunningB => exact s.tallies_keepRunning now seq o

theorem tallies_follow (s : CrossPath) (now : Timestamp) (seq : SeqNumber)
    (position : FlowPosition) : (s.follow now seq position).Tallies tally s.tally := by
  rw [follow]
  refine Step.Tallies.andThen (v := tally) ?_ fun t => ?_
  · dsimp only
    split
    · exact .stay rfl
    · exact (tallies_declareFlowGap _ now seq position _).of_eq rfl
  · split
    · obtain ⟨hsame, hactions⟩ := t.sameRecord_learn seq position.flow
      exact .of_silent (congrArg emitted hactions) hsame.tally_eq
    · obtain ⟨hsame, hactions⟩ := t.sameRecord_observe now seq position.flow
      exact .andThen (.of_silent (congrArg emitted hactions) hsame.tally_eq) fun u =>
        u.tallies_dispatch now seq _ _ _

theorem tallies_accept (s : CrossPath) (now : Timestamp) (seq : SeqNumber)
    (position : FlowPosition) : (s.accept now seq position).Tallies tally s.tally := by
  rw [accept]
  exact .andThen (tallies_settleLong _ seq) fun t => t.tallies_follow now seq position

theorem tallies_onArrival (s : CrossPath) (now : Timestamp) (a : Arrival) :
    (s.onArrival now a).Tallies tally s.tally := by
  have hentered := EventTally.of_receive s.counters.losses s.counters.falsePositives
    s.ledger now a.seq
    (some (a.position.getD ⟨0, a.seq⟩))
  rw [onArrival]
  split
  · exact .stay rfl
  · dsimp only
    generalize (s.ledger.receive now a.seq).1 = reception at hentered ⊢
    cases reception with
    | duplicate => exact .stay hentered
    | stale => exact .stay hentered
    | fresh => exact (tallies_accept _ now a.seq _).of_eq hentered
    | recovered => exact (tallies_accept _ now a.seq _).of_eq hentered
    | falsePositive lateBy => exact .andThen (.emit hentered) fun t => t.tallies_accept now a.seq _

theorem tallies_onRepair (s : CrossPath) (a : Arrival) : (s.onRepair a).Tallies tally s.tally := by
  rw [onRepair]
  split
  · exact .stay rfl
  · exact (tallies_settleLong _ a.seq).of_eq (EventTally.of_receiveRepair s.ledger a.seq)

theorem tallies_onShortTimeout (s : CrossPath) (now : Timestamp) :
    (s.onShortTimeout now).Tallies tally s.tally := by
  rw [onShortTimeout]
  cases s.short with
  | none => exact .stay rfl
  | some short => exact .andThen (tallies_coverLong now _ _) fun t => t.tallies_armShort now _ _

theorem tallies_declareLongLoss (s : CrossPath) (now : Timestamp) (n : SeqNumber) :
    (s.declareLongLoss now n).Tallies tally s.tally := by
  rw [declareLongLoss]
  cases h : s.ledger.assumeLost? now n with
  | none => exact .stay rfl
  | some ledger => exact .emit (EventTally.of_assumeLost? h none)

theorem tallies_breakStall (s : CrossPath) : s.breakStall.Tallies tally s.tally := by
  rw [breakStall]
  split
  · exact .andThen (.of_silent rfl rfl) tallies_fullReset
  · exact .stay rfl

theorem tallies_onLongTimeout (s : CrossPath) (now : Timestamp) (n : SeqNumber) :
    (s.onLongTimeout now n).Tallies tally s.tally := by
  rw [onLongTimeout]
  split
  · exact .stay rfl
  · dsimp only
    split
    · exact .of_silent rfl rfl
    · exact .andThen (tallies_declareLongLoss _ now n) tallies_breakStall

theorem tallies_onTimeout (s : CrossPath) (now : Timestamp) (key : TimerKey) :
    (s.onTimeout now key).Tallies tally s.tally := by
  unfold onTimeout
  split
  · exact .stay rfl
  · cases key with
    | basic => exact .stay rfl
    | short => exact s.tallies_onShortTimeout now
    | long n => exact s.tallies_onLongTimeout now n

theorem tally_reset (s : CrossPath) : s.reset.state.tally = s.tally := by
  rw [reset, Step.state_alter, fullReset_state]
  rfl

theorem tally_stop (s : CrossPath) : s.stop.state.tally = s.tally := by
  rw [stop, Step.state_alter, cancelTimers_state]
  rfl

end CrossPath

/-! ### Either estimator -/

namespace Estimator

def tally (e : Estimator) : EventTally :=
  .of e.diagnostics.losses e.diagnostics.falsePositives e.ledger

variable {e : Estimator} {cs : List EstimatorCall} {n : SeqNumber}

theorem tally_reset (e : Estimator) : e.reset.state.tally = e.tally := by
  cases e with
  | single s => exact s.tally_reset
  | cross c => exact c.tally_reset

theorem tally_stop (e : Estimator) : e.stop.state.tally = e.tally := by
  cases e with
  | single s => exact s.tally_stop
  | cross c => exact c.tally_stop

theorem Fresh.tally_eq (h : e.Fresh) : e.tally = ⟨0, 0, 0, 0, 0⟩ := by
  cases h <;> rfl

theorem tallies_call (e : Estimator) {c : EstimatorCall} (hc : ∀ n, c ≠ .withdrawn n) :
    (e.call c).Tallies tally e.tally := by
  cases e with
  | single s =>
    cases c with
    | arrival now a => exact (s.tallies_onArrival now a).alter rfl
    | repair a => exact (s.tallies_onRepair a).alter rfl
    | timeout now key => exact (s.tallies_onTimeout now key).alter rfl
    | withdrawn n => exact absurd rfl (hc n)
  | cross s =>
    cases c with
    | arrival now a => exact (s.tallies_onArrival now a).alter rfl
    | repair a => exact (s.tallies_onRepair a).alter rfl
    | timeout now key => exact (s.tallies_onTimeout now key).alter rfl
    | withdrawn n => exact absurd rfl (hc n)

/-- After a run without notes of withdrawals the counts tell the events of the run. -/
theorem tally_after (e : Estimator) (hcs : ∀ c ∈ cs, ∀ n, c ≠ .withdrawn n) :
    (e.after cs).tally = e.tally.after (e.events cs) := by
  induction cs generalizing e with
  | nil => rfl
  | cons c cs ih =>
    have hfirst : (e.call c).state.tally = e.tally.after (Exchange.events ⟨e, c⟩) :=
      e.tallies_call (hcs c List.mem_cons_self)
    have hrest := ih (e.call c).state fun d hd => hcs d (List.mem_cons_of_mem c hd)
    rw [hfirst, ← EventTally.after_append] at hrest
    exact hrest

theorem resets_onArrival (e : Estimator) (now : Timestamp) (a : Arrival) :
    (e.onArrival now a).state.diagnostics.resets = e.diagnostics.resets := by
  cases e with
  | single s => exact s.resets_onArrival now a
  | cross s =>
    cases he : Exchange.accepted? ⟨.cross s, .arrival now a⟩ with
    | some entry => exact (CrossPath.heard_onArrival he).resets
    | none =>
      obtain ⟨ledger, hstay⟩ := CrossPath.onArrival_of_unaccepted he
      exact congrArg (fun r => (Step.state r).counters.resets) hstay

theorem tally_noteWithdrawn (h : e.ledger.IsLate n) :
    (e.noteWithdrawn n).tally = { e.tally with withdrawn := e.tally.withdrawn + 1 } := by
  have hnoted : ∀ losses falsePositives : Nat,
      EventTally.of losses falsePositives (e.ledger.noteWithdrawn n) =
        { EventTally.of losses falsePositives e.ledger with
          withdrawn := e.ledger.totals.withdrawn + 1 } := by
    intro losses falsePositives
    rw [EventTally.of, LossLedger.totals_noteWithdrawn h]
    rfl
  cases e with
  | single s => exact hnoted _ _
  | cross s => exact hnoted _ _

end Estimator

/-! ### What stays on record, and late packets -/

def LossScope.olderThan (n : SeqNumber) : LossScope := ⟨fun _ => True, (n.newer · = true)⟩

theorem LossScope.admits_olderThan (n : SeqNumber) : (olderThan n).Admits n :=
  ⟨trivial, fun _ _ _ hc => SeqNumber.newer_of_mem_between hc⟩

namespace Exchange

variable {x : Exchange} {n : SeqNumber} {position : Option FlowPosition}

theorem mem_falseAlarms_of_alarm (h : .falsePositive n position ∈ x.events) :
    .falsePositive n position ∈ x.falseAlarms := by
  obtain ⟨rest, -, hevents, hlogged⟩ := events_logged x.fits_all fun _ _ => trivial
  rw [hevents, List.mem_append] at h
  rcases h with h | h
  · exact h
  · exact absurd (hlogged.events _ h).1 Bool.false_ne_true

theorem isLost_of_mem_events (hcall : ∀ now a, x.call ≠ .arrival now a) {ev : LossEvent}
    (h : ev ∈ x.events) : ev.isLost = true := by
  cases ev with
  | lost n position => rfl
  | falsePositive n position =>
    obtain ⟨-, now, a, harrival, -⟩ := mem_falseAlarms (mem_falseAlarms_of_alarm h)
    exact absurd harrival (hcall now a)

/-- Only older numbers are declared lost with an arrival, so what it has put on record stays. -/
theorem status_of_recorded {now : Timestamp} {a : Arrival} {st : PacketStatus}
    (hcall : x.call = .arrival now a) (hsize : 0 < x.before.ledger.slots.size)
    (hst : x.recorded.status a.seq = some st) : x.step.state.ledger.status a.seq = some st := by
  have hfits : x.Fits (.olderThan a.seq) := by
    rw [Fits, hcall]
    exact LossScope.admits_olderThan a.seq
  obtain ⟨rest, hstate, -, hlogged⟩ := events_logged hfits fun _ _ => trivial
  have hresets : rest.state.lossRecord.resets = x.before.lossRecord.resets := by
    rw [← hstate, Estimator.resets_lossRecord, Estimator.resets_lossRecord, step, hcall]
    exact x.before.resets_onArrival now a
  have hlarge : 0 < x.recorded.slots.size :=
    Nat.lt_of_lt_of_eq hsize x.history_recorded.symm
  rw [hstate, ← Estimator.ledger_lossRecord]
  refine (hlogged.declares hresets).status_of_newer hlarge hst ?_
  intro c hc
  obtain ⟨ev, hev, rfl⟩ := List.mem_map.mp hc
  exact (hlogged.events ev hev).2

theorem isLate_of_alarm (x : Exchange) (hsize : 0 < x.before.ledger.slots.size)
    (h : .falsePositive n position ∈ x.events) : x.step.state.ledger.IsLate n := by
  have halarm := mem_falseAlarms_of_alarm h
  obtain ⟨-, now, a, hcall, rfl : n = a.seq⟩ := mem_falseAlarms halarm
  have hrecorded : x.recorded.IsLate a.seq := by
    cases x.brings with
    | nothing _ halarms => simp [halarms] at halarm
    | repair _ _ _ halarms => simp [halarms] at halarm
    | original now' a' hcall' hrecorded halarms =>
      rw [hcall, EstimatorCall.arrival.injEq] at hcall'
      obtain ⟨rfl, rfl⟩ := hcall'
      rw [hrecorded]
      apply LossLedger.isLate_receive hsize
      rw [halarms] at halarm
      cases hr : (x.before.ledger.receive now a.seq).1 <;>
        simp_all [Reception.lateReport, Reception.isLate]
  obtain ⟨lateBy, hst⟩ := hrecorded
  exact ⟨lateBy, status_of_recorded hcall hsize hst⟩

end Exchange

theorem Estimator.isLost_of_mem_events {e : Estimator} {cs : List EstimatorCall}
    (hcs : ∀ c ∈ cs, ∀ now a, c ≠ .arrival now a) {ev : LossEvent} (h : ev ∈ e.events cs) :
    ev.isLost = true := by
  obtain ⟨x, hx, hev⟩ := List.mem_flatMap.mp h
  exact Exchange.isLost_of_mem_events (hcs x.call (call_mem_of_mem_exchanges hx)) hev

end LossWatch
