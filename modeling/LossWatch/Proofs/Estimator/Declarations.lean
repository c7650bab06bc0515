import LossWatch.Proofs.CrossPath.Learning
import LossWatch.Proofs.Estimator.Idle
import LossWatch.Proofs.Flow.Newest
import LossWatch.Proofs.LossLedger.Life

/-!
What an estimator declares lost. Every loss it reports was written into the ledger just then, in the
order of the reports, and nothing else is written but the packet at hand. The numbers declared are
those that a timer waited for and those between two arrivals, so they stay in any scope that has room
for these. A reset by a run of losses forgets the ledger and shows in the count of resets.
-/

namespace LossWatch

def Action.event? : Action → Option LossEvent
  | .emit e => some e
  | _ => none

def emitted (as : List Action) : List LossEvent := as.filterMap Action.event?

theorem emitted_append (as bs : List Action) : emitted (as ++ bs) = emitted as ++ emitted bs :=
  List.filterMap_append

def Reception.lateReport (seq : SeqNumber) (position : Option FlowPosition) :
    Reception → List LossEvent
  | .falsePositive _ => [.falsePositive seq position]
  | _ => []

/-- What the declarations of losses depend on and change. -/
structure LossRecord where
  ledger : LossLedger
  resets : Nat
  stopped : Bool
  newest : List SeqNumber

/-- Which numbers gaps are counted from, and which may be declared lost. -/
structure LossScope where
  newest : SeqNumber → Prop
  lost : SeqNumber → Prop

namespace LossScope

def Admits (S : LossScope) (seq : SeqNumber) : Prop :=
  S.newest seq ∧ ∀ n, S.newest n → ∀ c ∈ n.between seq, S.lost c

def window (base : SeqNumber) : LossScope := ⟨(·.InWindow base), (·.InWindow base)⟩

theorem admits_window {base seq : SeqNumber} (h : seq.InWindow base) : (window base).Admits seq :=
  ⟨h, fun _ hn _ hc => SeqNumber.inWindow_of_mem_between hn h hc⟩

def without (seq : SeqNumber) : LossScope := ⟨fun _ => True, (· ≠ seq)⟩

theorem admits_without (seq : SeqNumber) : (without seq).Admits seq :=
  ⟨trivial, fun _ _ _ hc => SeqNumber.ne_of_mem_between hc⟩

def all : LossScope := ⟨fun _ => True, fun _ => True⟩

theorem admits_all (seq : SeqNumber) : all.Admits seq := ⟨trivial, fun _ _ _ _ => trivial⟩

end LossScope

def LossRecord.Within (R : LossRecord) (S : LossScope) : Prop := ∀ n ∈ R.newest, S.newest n

namespace Step

variable {σ τ : Type} {v : σ → LossRecord} {S : LossScope} {R : LossRecord} {s : σ}
  {r : Step σ}

/-- The reported numbers are lost ones in scope, declared in the ledger of `R` one after another,
unless the step resets the estimator. -/
structure Logged (r : Step σ) (v : σ → LossRecord) (S : LossScope) (R : LossRecord) : Prop where
  within : (v r.state).Within S
  resets_le : R.resets ≤ (v r.state).resets
  stopped : (v r.state).stopped = R.stopped
  history : (v r.state).ledger.history = R.ledger.history
  events : ∀ e ∈ emitted r.actions, e.isLost = true ∧ S.lost e.seq
  declares : (v r.state).resets = R.resets →
    R.ledger.Declares ((emitted r.actions).map LossEvent.seq) (v r.state).ledger

def Logs (r : Step σ) (v : σ → LossRecord) (S : LossScope) (R : LossRecord) : Prop :=
  R.Within S → r.Logged v S R

theorem Logs.of_silent (ha : emitted r.actions = []) (hR : v r.state = R) :
    r.Logs v S R := by
  intro hw
  subst hR
  refine ⟨hw, Nat.le_refl _, rfl, rfl, by simp [ha], fun _ => ?_⟩
  rw [ha]
  exact .nil _

theorem Logs.stay (hR : v s = R) : (stay s).Logs v S R := .of_silent rfl hR

theorem Logs.andThen {f : σ → Step σ} (hr : r.Logs v S R)
    (hf : ∀ t, (f t).Logs v S (v t)) : (r.andThen f).Logs v S R := by
  intro hw
  have hfirst := hr hw
  have hnext := hf r.state hfirst.within
  have hle := hfirst.resets_le
  have hle' := hnext.resets_le
  refine ⟨hnext.within, Nat.le_trans hle hle', hnext.stopped.trans hfirst.stopped,
    hnext.history.trans hfirst.history, ?_, fun hsame => ?_⟩
  · intro e he
    rw [actions_andThen, emitted_append, List.mem_append] at he
    exact he.elim (hfirst.events e) (hnext.events e)
  · rw [state_andThen] at hsame
    rw [actions_andThen, emitted_append, List.map_append]
    exact (hfirst.declares (by omega)).append (hnext.declares (by omega))

theorem Logged.alter {v' : τ → LossRecord} {f : σ → τ} {ns : List SeqNumber}
    (h : r.Logged v S R) (hf : v' (f r.state) = { v r.state with newest := ns })
    (hw : ∀ n ∈ ns, S.newest n) : (r.alter f).Logged v' S R := by
  refine ⟨?_, ?_, ?_, ?_, h.events, ?_⟩ <;> rw [state_alter, hf]
  · exact hw
  · exact h.resets_le
  · exact h.stopped
  · exact h.history
  · exact h.declares

theorem Logs.alter {v' : τ → LossRecord} {f : σ → τ} (hr : r.Logs v S R)
    (hf : v' (f r.state) = v r.state) : (r.alter f).Logs v' S R := by
  intro hw
  have h := hr hw
  exact h.alter hf h.within

theorem Logs.forEach {α : Type} {f : α → σ → Step σ} {as : List α}
    (hf : ∀ a ∈ as, ∀ t, (f a t).Logs v S (v t)) (s : σ) :
    (forEach f as s).Logs v S (v s) := by
  induction as generalizing s with
  | nil => exact .stay rfl
  | cons a as ih => exact (hf a (by simp) s).andThen (ih fun b hb => hf b (by simp [hb]))

theorem Logs.declare {t : σ} {now : Timestamp} {e : LossEvent} {l : LossLedger}
    (hl : R.ledger.assumeLost? now e.seq = some l) (ht : v t = { R with ledger := l })
    (he : e.isLost = true) (hseq : S.lost e.seq) : (act t (.emit e)).Logs v S R := by
  intro hw
  have hevents : ∀ e' ∈ emitted [.emit e], e'.isLost = true ∧ S.lost e'.seq := by
    intro e' he'
    have hsame : e' = e := by simpa [emitted, Action.event?] using he'
    rw [hsame]
    exact ⟨he, hseq⟩
  have hledger : (v t).ledger = l := by rw [ht]
  have hresets : (v t).resets = R.resets := by rw [ht]
  have hstopped : (v t).stopped = R.stopped := by rw [ht]
  have hnewest : (v t).newest = R.newest := by rw [ht]
  refine ⟨fun n hn => hw n (hnewest ▸ hn), Nat.le_of_eq hresets.symm, hstopped, ?_, hevents,
    fun _ => ?_⟩
  · exact (congrArg LossLedger.history hledger).trans (LossLedger.history_assumeLost? hl)
  · rw [state_act, hledger]
    exact .cons hl (.nil _)

theorem Logs.of_reset (ha : emitted r.actions = [])
    (hv : v r.state = ⟨R.ledger.clearHistory, R.resets + 1, R.stopped, []⟩) : r.Logs v S R := by
  intro _
  refine ⟨?_, ?_, ?_, ?_, by simp [ha], fun h => ?_⟩
  · rw [hv]
    exact fun n hn => absurd hn List.not_mem_nil
  · rw [hv]
    exact Nat.le_succ _
  · rw [hv]
  · rw [hv]
    exact LossLedger.history_clearHistory _
  · rw [hv] at h
    exact absurd h (Nat.succ_ne_self _)

end Step

/-! ### The single-path estimator -/

namespace SinglePath

variable {S : LossScope}

def lossRecord (s : SinglePath) : LossRecord :=
  ⟨s.ledger, s.counters.resets, s.stopped, s.maxSeen.toList⟩

theorem emitted_disarm (s : SinglePath) : emitted s.disarm.actions = [] := by
  unfold disarm
  split <;> rfl

theorem lossRecord_disarm (s : SinglePath) : s.disarm.state.lossRecord = s.lossRecord := by
  unfold disarm
  split <;> rfl

theorem logs_disarm (s : SinglePath) : s.disarm.Logs lossRecord S s.lossRecord :=
  .of_silent s.emitted_disarm s.lossRecord_disarm

theorem logs_arm (s : SinglePath) (now : Timestamp) (seq : SeqNumber) (due : Timestamp) :
    (s.arm now seq due).Logs lossRecord S s.lossRecord := by
  unfold arm
  apply s.logs_disarm.andThen
  intro t
  exact .of_silent rfl rfl

theorem logs_armFromPrediction (s : SinglePath) (now : Timestamp) :
    (s.armFromPrediction now).Logs lossRecord S s.lossRecord := by
  unfold armFromPrediction
  split
  · exact .stay rfl
  · split
    · exact logs_arm _ now _ _
    · exact s.logs_disarm.alter rfl

theorem logs_declareLost (s : SinglePath) {seq : SeqNumber} (hseq : S.lost seq)
    (now : Timestamp) : (s.declareLost now seq).Logs lossRecord S s.lossRecord := by
  unfold declareLost
  cases h : s.ledger.assumeLost? now seq with
  | none => exact .stay rfl
  | some ledger => exact Step.Logs.declare (e := .lost seq none) h rfl rfl hseq

theorem lossRecord_fullReset (s : SinglePath) : s.fullReset.state.lossRecord =
    ⟨s.ledger.clearHistory, s.counters.resets + 1, s.stopped, []⟩ := by
  show (⟨s.disarm.state.lossRecord.ledger.clearHistory, s.disarm.state.lossRecord.resets + 1,
    s.disarm.state.lossRecord.stopped, []⟩ : LossRecord) = _
  rw [s.lossRecord_disarm]
  rfl

theorem logs_fullReset (s : SinglePath) : s.fullReset.Logs lossRecord S s.lossRecord :=
  .of_reset s.emitted_disarm s.lossRecord_fullReset

theorem lossRecord_reset (s : SinglePath) :
    s.reset.state.lossRecord = ⟨s.ledger.clearHistory, s.counters.resets + 1, false, []⟩ := by
  show { s.fullReset.state.lossRecord with stopped := false } = _
  rw [s.lossRecord_fullReset]

theorem lossRecord_stop (s : SinglePath) :
    s.stop.state.lossRecord = { s.lossRecord with stopped := true } := by
  show { s.disarm.state.lossRecord with stopped := true } = _
  rw [s.lossRecord_disarm]

theorem logs_advance (s : SinglePath) {seq : SeqNumber} (hseq : S.Admits seq)
    (now : Timestamp) : (s.advance now seq).Logs lossRecord S s.lossRecord := by
  intro hw
  have hnewest : ∀ n ∈ [seq], S.newest n := by simpa using hseq.1
  unfold advance
  split
  · have hstay : (Step.stay s).Logged lossRecord S s.lossRecord := Step.Logs.stay rfl hw
    let moved (t : SinglePath) : SinglePath :=
      { t with maxSeen := some seq, lastArrival := now, phase := .predicting }
    exact hstay.alter (f := moved) rfl hnewest
  · rename_i last hlast
    split
    · refine Step.Logged.alter (v := lossRecord) ?_ rfl hnewest
      have hold : S.newest last := hw last (by simp [lossRecord, hlast])
      split
      · exact Step.Logs.andThen (.of_silent rfl rfl) logs_disarm hw
      · exact Step.Logs.forEach (fun c hc t => t.logs_declareLost (hseq.2 last hold c hc) now) _ hw
    · exact Step.Logs.stay rfl hw

theorem logs_accept (s : SinglePath) {seq : SeqNumber} (hseq : S.Admits seq)
    (now : Timestamp) : (s.accept now seq).Logs lossRecord S s.lossRecord := by
  unfold accept
  apply (logs_advance _ hseq now).andThen
  intro t
  split
  · exact t.logs_armFromPrediction now
  · exact .stay rfl

theorem logs_afterMiss (s : SinglePath) (now : Timestamp) (p : ExpectedPacket) :
    (s.afterMiss now p).Logs lossRecord S s.lossRecord := by
  unfold afterMiss
  split
  · exact Step.Logs.andThen (.of_silent rfl rfl) fun t => t.logs_fullReset
  · exact s.logs_arm now _ _

theorem logs_miss (s : SinglePath) (now : Timestamp) {p : ExpectedPacket}
    (hp : S.lost p.seq) : (s.miss now p).Logs lossRecord S s.lossRecord := by
  unfold miss
  refine Step.Logs.andThen (v := lossRecord) ?_ fun t => t.logs_afterMiss now p
  exact (s.logs_declareLost hp now).alter rfl

theorem logs_onTimeout (s : SinglePath) (now : Timestamp) (key : TimerKey)
    (hp : ∀ n ∈ s.expected, S.lost n) :
    (s.onTimeout now key).Logs lossRecord S s.lossRecord := by
  unfold onTimeout
  split
  · exact .stay rfl
  · split
    · exact .stay rfl
    · rename_i p hpending
      dsimp only
      split
      · exact logs_armFromPrediction _ now
      · exact logs_miss _ now (hp p.seq (by simp [expected, hpending]))

theorem logs_onArrival {s : SinglePath} (hrun : s.stopped = false) (now : Timestamp) {a : Arrival}
    (ha : S.Admits a.seq) :
    ∃ rest : Step SinglePath, (s.onArrival now a).state = rest.state ∧
      (s.onArrival now a).actions =
        ((s.ledger.receive now a.seq).1.lateReport a.seq a.position).map .emit ++ rest.actions ∧
      rest.Logs lossRecord S
        { s.lossRecord with ledger := (s.ledger.receive now a.seq).2 } := by
  unfold onArrival
  rw [if_neg (by simp [hrun])]
  dsimp only
  -- The cases are those of the reception, but the ledger after it is the same in all of them.
  generalize hs : ({ s with ledger := (s.ledger.receive now a.seq).2 } : SinglePath) = t
  have hrecord : t.lossRecord =
      { s.lossRecord with ledger := (s.ledger.receive now a.seq).2 } := by rw [← hs]; rfl
  rw [← hrecord]
  cases (s.ledger.receive now a.seq).1 with
  | duplicate => exact ⟨.stay t, rfl, rfl, .stay rfl⟩
  | stale => exact ⟨.stay t, rfl, rfl, .stay rfl⟩
  | falsePositive d =>
    let counted := t.count fun c => { c with falsePositives := c.falsePositives + 1 }
    exact ⟨counted.accept now a.seq, rfl, rfl, counted.logs_accept ha now⟩
  | fresh => exact ⟨t.accept now a.seq, rfl, rfl, t.logs_accept ha now⟩
  | recovered => exact ⟨t.accept now a.seq, rfl, rfl, t.logs_accept ha now⟩

theorem logs_onRepair {s : SinglePath} (hrun : s.stopped = false) (a : Arrival) :
    (s.onRepair a).Logs lossRecord S
      { s.lossRecord with ledger := (s.ledger.receiveRepair a.seq).2 } := by
  unfold onRepair
  rw [if_neg (by simp [hrun])]
  exact .stay rfl

end SinglePath

/-! ### The cross-path estimator -/

namespace CrossPath

variable {S : LossScope}

def lossRecord (s : CrossPath) : LossRecord :=
  ⟨s.ledger, s.counters.resets, s.stopped, FlowTable.newest s.flows.flows⟩

theorem SameRecord.lossRecord_eq {s s' : CrossPath} (h : s.SameRecord s') :
    s'.lossRecord = s.lossRecord := by
  unfold lossRecord
  rw [h.ledger, h.resets, h.stopped, h.flows]

theorem emitted_dropShort (s : CrossPath) : emitted s.dropShort.actions = [] := by
  unfold dropShort
  split <;> rfl

theorem lossRecord_dropShort (s : CrossPath) : s.dropShort.state.lossRecord = s.lossRecord := by
  unfold dropShort
  split <;> rfl

theorem logs_armShort (s : CrossPath) (now : Timestamp) (expected : SeqNumber)
    (timerDriven : Bool) :
    (s.armShort now expected timerDriven).Logs lossRecord S s.lossRecord := by
  unfold armShort
  split
  · exact .stay rfl
  · apply Step.Logs.andThen (.of_silent s.emitted_dropShort s.lossRecord_dropShort)
    intro t
    exact .of_silent rfl rfl

theorem logs_coverLong (now : Timestamp) (seq : SeqNumber) (s : CrossPath) :
    (s.coverLong now seq).Logs lossRecord S s.lossRecord := by
  unfold coverLong
  split
  · exact .of_silent rfl rfl
  · exact .stay rfl

theorem logs_settleLong (s : CrossPath) (seq : SeqNumber) :
    (s.settleLong seq).Logs lossRecord S s.lossRecord := by
  unfold settleLong
  split
  · exact .of_silent rfl rfl
  · exact .stay rfl

theorem logs_reconcileShort (s : CrossPath) (now : Timestamp) (seq : SeqNumber) :
    (s.reconcileShort now seq).Logs lossRecord S s.lossRecord := by
  unfold reconcileShort
  split
  · exact .stay rfl
  · split
    · exact .stay rfl
    · refine Step.Logs.andThen (v := lossRecord) ?_ fun t => t.logs_armShort now _ _
      have hcovered : ∀ (t : CrossPath) (n : Notice) (l : List SeqNumber) (p : Prop) [Decidable p],
          t.lossRecord = s.lossRecord →
          (if p then Step.note t n else Step.forEach (coverLong now) l t).Logs lossRecord S
            s.lossRecord := by
        intro t n l p _ ht
        rw [← ht]
        by_cases hp : p
        · rw [if_pos hp]
          exact .of_silent rfl rfl
        · rw [if_neg hp]
          exact Step.Logs.forEach (fun c _ u => u.logs_coverLong now c) t
      exact hcovered _ _ _ _ (by split <;> rfl)

theorem logs_keepRunning (s : CrossPath) (now : Timestamp) (seq : SeqNumber) (o : Observation) :
    (s.keepRunning now seq o).Logs lossRecord S s.lossRecord := by
  unfold keepRunning
  cases o with
  | delta =>
    rw [← (s.sameRecord_advance .deltaSample).lossRecord_eq]
    exact logs_reconcileShort _ now seq
  | cross =>
    rw [← (s.sameRecord_advance .crossSample).lossRecord_eq]
    exact logs_reconcileShort _ now seq
  | stale => exact s.logs_reconcileShort now seq

theorem emitted_cancelTimers (s : CrossPath) : emitted s.cancelTimers.actions = [] := by
  have hlong : emitted (s.dropShort.state.long.map fun p => Action.cancel (.long p.1)) = [] := by
    unfold emitted
    rw [List.filterMap_map]
    exact List.filterMap_eq_nil_iff.mpr fun _ _ => rfl
  have hactions : s.cancelTimers.actions =
      s.dropShort.actions ++ s.dropShort.state.long.map fun p => Action.cancel (.long p.1) := rfl
  rw [hactions, emitted_append, s.emitted_dropShort, hlong]
  rfl

theorem lossRecord_cancelTimers (s : CrossPath) :
    s.cancelTimers.state.lossRecord = s.lossRecord :=
  s.lossRecord_dropShort

theorem lossRecord_fullReset (s : CrossPath) : s.fullReset.state.lossRecord =
    ⟨s.ledger.clearHistory, s.counters.resets + 1, s.stopped, []⟩ := by
  show (⟨s.cancelTimers.state.lossRecord.ledger.clearHistory,
    s.cancelTimers.state.lossRecord.resets + 1, s.cancelTimers.state.lossRecord.stopped, []⟩ :
      LossRecord) = _
  rw [s.lossRecord_cancelTimers]
  rfl

theorem logs_fullReset (s : CrossPath) : s.fullReset.Logs lossRecord S s.lossRecord :=
  .of_reset s.emitted_cancelTimers s.lossRecord_fullReset

theorem lossRecord_reset (s : CrossPath) :
    s.reset.state.lossRecord = ⟨s.ledger.clearHistory, s.counters.resets + 1, false, []⟩ := by
  show { s.fullReset.state.lossRecord with stopped := false } = _
  rw [s.lossRecord_fullReset]

theorem lossRecord_stop (s : CrossPath) :
    s.stop.state.lossRecord = { s.lossRecord with stopped := true } := by
  show { s.cancelTimers.state.lossRecord with stopped := true } = _
  rw [s.lossRecord_cancelTimers]

theorem logs_declareGapLoss (now : Timestamp) (position : FlowPosition) {seq : SeqNumber}
    (hseq : S.lost seq) (s : CrossPath) :
    (s.declareGapLoss now position seq).Logs lossRecord S s.lossRecord := by
  unfold declareGapLoss
  cases h : s.ledger.assumeLost? now seq with
  | none => exact .stay rfl
  | some ledger => exact Step.Logs.declare (e := .lost seq (some position)) h rfl rfl hseq

theorem logs_declareFlowGap (s : CrossPath) {seq : SeqNumber} (hseq : S.Admits seq)
    (now : Timestamp) (position : FlowPosition) {update : FlowUpdate}
    (hgap : ∀ n ∈ update.gapAfter, S.newest n) :
    (s.declareFlowGap now seq position update).Logs lossRecord S s.lossRecord := by
  unfold declareFlowGap
  split
  · exact .stay rfl
  · rename_i previous hprevious
    split
    · exact .stay rfl
    · dsimp only
      split
      · exact .stay rfl
      · refine Step.Logs.forEach (fun p hp t => ?_) s
        have hmem : p.1 ∈ previous.between seq := by
          have hmissing := List.fst_mem_of_mem_zipIdx hp
          exact (List.mem_filter.mp hmissing).1
        exact t.logs_declareGapLoss now _ (hseq.2 previous (hgap previous hprevious) p.1 hmem)

theorem logs_tryStart (s : CrossPath) (now : Timestamp) (seq : SeqNumber) (update : FlowUpdate) :
    (s.tryStart now seq update).Logs lossRecord S s.lossRecord := by
  unfold tryStart
  split
  · have hsame := s.sameRecord_loseReference.trans (sameRecord_anchorReference _ seq)
    exact .stay hsame.lossRecord_eq
  · split
    · rw [← (s.sameRecord_advance .predictorsReady).lossRecord_eq]
      exact logs_armShort _ now _ _
    · exact .stay rfl

theorem logs_dispatch (s : CrossPath) (now : Timestamp) (seq : SeqNumber) (onFastest : Bool)
    (update : FlowUpdate) (o : Observation) :
    (s.dispatch now seq onFastest update o).Logs lossRecord S s.lossRecord := by
  unfold dispatch
  cases s.phase with
  | learnFlowOrder => exact .stay rfl
  | learnPathDifference =>
    refine .stay ?_
    split
    · exact (s.sameRecord_anchorReference seq).lossRecord_eq
    · rfl
  | learnAwaitingAlternate =>
    exact .stay (s.sameRecord_awaitAlternate seq onFastest update).lossRecord_eq
  | estAwaitingFastest =>
    dsimp only
    split
    · exact s.logs_tryStart now seq update
    · exact .stay rfl
  | estRunningA => exact s.logs_keepRunning now seq o
  | estRunningB => exact s.logs_keepRunning now seq o

theorem logs_follow (s : CrossPath) {seq : SeqNumber} (hseq : S.Admits seq)
    (now : Timestamp) (position : FlowPosition) :
    (s.follow now seq position).Logs lossRecord S s.lossRecord := by
  intro hw
  have hrecorded : (lossRecord { s with
      flows := (s.flows.record position.flow ⟨seq, position.flowSeq, now⟩).2 }).Within S := by
    intro n hn
    rcases FlowTable.mem_newest_record hn with rfl | hold
    · exact hseq.1
    · exact hw n hold
  suffices h : (s.follow now seq position).Logs lossRecord S (lossRecord { s with
      flows := (s.flows.record position.flow ⟨seq, position.flowSeq, now⟩).2 }) by
    obtain ⟨hwithin, hresets, hstopped, hhistory, hevents, hdeclares⟩ := h hrecorded
    exact ⟨hwithin, hresets, hstopped, hhistory, hevents, hdeclares⟩
  unfold follow
  dsimp only
  refine Step.Logs.andThen (v := lossRecord) ?_ fun t => ?_
  · split
    · exact .stay rfl
    · exact logs_declareFlowGap _ hseq now position
        fun n hn => hw n (FlowTable.gapAfter_mem_newest hn)
  · split
    · obtain ⟨hsame, hactions⟩ := t.sameRecord_learn seq position.flow
      exact .of_silent (by rw [hactions]; rfl) hsame.lossRecord_eq
    · obtain ⟨hsame, hactions⟩ := t.sameRecord_observe now seq position.flow
      exact Step.Logs.andThen (.of_silent (by rw [hactions]; rfl) hsame.lossRecord_eq) fun u =>
        u.logs_dispatch now seq _ _ _

theorem logs_accept (s : CrossPath) {seq : SeqNumber} (hseq : S.Admits seq)
    (now : Timestamp) (position : FlowPosition) :
    (s.accept now seq position).Logs lossRecord S s.lossRecord :=
  Step.Logs.andThen (logs_settleLong _ seq) fun t => t.logs_follow hseq now position

theorem logs_onArrival {s : CrossPath} (hrun : s.stopped = false) (now : Timestamp) {a : Arrival}
    (ha : S.Admits a.seq) :
    ∃ rest : Step CrossPath, (s.onArrival now a).state = rest.state ∧
      (s.onArrival now a).actions =
        ((s.ledger.receive now a.seq).1.lateReport a.seq
          (some (a.position.getD ⟨0, a.seq⟩))).map .emit ++ rest.actions ∧
      rest.Logs lossRecord S
        { s.lossRecord with ledger := (s.ledger.receive now a.seq).2 } := by
  unfold onArrival
  rw [if_neg (by simp [hrun])]
  dsimp only
  generalize hs : ({ s with ledger := (s.ledger.receive now a.seq).2 } : CrossPath) = t
  have hrecord : t.lossRecord =
      { s.lossRecord with ledger := (s.ledger.receive now a.seq).2 } := by rw [← hs]; rfl
  rw [← hrecord]
  cases (s.ledger.receive now a.seq).1 with
  | duplicate => exact ⟨.stay t, rfl, rfl, .stay rfl⟩
  | stale => exact ⟨.stay t, rfl, rfl, .stay rfl⟩
  | falsePositive d =>
    let counted := t.count fun c => { c with falsePositives := c.falsePositives + 1 }
    exact ⟨counted.accept now a.seq (a.position.getD ⟨0, a.seq⟩), rfl, rfl,
      counted.logs_accept ha now _⟩
  | fresh =>
    exact ⟨t.accept now a.seq (a.position.getD ⟨0, a.seq⟩), rfl, rfl, t.logs_accept ha now _⟩
  | recovered =>
    exact ⟨t.accept now a.seq (a.position.getD ⟨0, a.seq⟩), rfl, rfl, t.logs_accept ha now _⟩

theorem logs_onRepair {s : CrossPath} (hrun : s.stopped = false) (a : Arrival) :
    (s.onRepair a).Logs lossRecord S
      { s.lossRecord with ledger := (s.ledger.receiveRepair a.seq).2 } := by
  unfold onRepair
  rw [if_neg (by simp [hrun])]
  exact logs_settleLong _ a.seq

theorem logs_onShortTimeout (s : CrossPath) (now : Timestamp) :
    (s.onShortTimeout now).Logs lossRecord S s.lossRecord := by
  unfold onShortTimeout
  split
  · exact .stay rfl
  · exact Step.Logs.andThen (logs_coverLong now _ _) fun t => t.logs_armShort now _ _

theorem logs_declareLongLoss (s : CrossPath) {seq : SeqNumber} (hseq : S.lost seq)
    (now : Timestamp) : (s.declareLongLoss now seq).Logs lossRecord S s.lossRecord := by
  unfold declareLongLoss
  cases h : s.ledger.assumeLost? now seq with
  | none => exact .stay rfl
  | some ledger => exact Step.Logs.declare (e := .lost seq none) h rfl rfl hseq

theorem logs_breakStall (s : CrossPath) : s.breakStall.Logs lossRecord S s.lossRecord := by
  unfold breakStall
  split
  · exact Step.Logs.andThen (.of_silent rfl rfl) fun t => t.logs_fullReset
  · exact .stay rfl

theorem logs_onLongTimeout (s : CrossPath) (now : Timestamp) (seq : SeqNumber)
    (hseq : s.hasLong seq = true → S.lost seq) :
    (s.onLongTimeout now seq).Logs lossRecord S s.lossRecord := by
  unfold onLongTimeout
  by_cases hlong : s.hasLong seq = true
  · rw [if_neg (by simp [hlong])]
    dsimp only
    split
    · exact .of_silent rfl rfl
    · exact Step.Logs.andThen (logs_declareLongLoss _ (hseq hlong) now) fun t => t.logs_breakStall
  · rw [if_pos (by simpa using hlong)]
    exact .stay rfl

theorem logs_onTimeout (s : CrossPath) (now : Timestamp) (key : TimerKey)
    (hlong : ∀ seq, s.hasLong seq = true → S.lost seq) :
    (s.onTimeout now key).Logs lossRecord S s.lossRecord := by
  unfold onTimeout
  split
  · exact .stay rfl
  · cases key with
    | basic => exact .stay rfl
    | short => exact s.logs_onShortTimeout now
    | long seq => exact s.logs_onLongTimeout now seq (hlong seq)

end CrossPath

/-! ### Either estimator -/

namespace Estimator

variable {e : Estimator} {S : LossScope}

def lossRecord : Estimator → LossRecord
  | single s => s.lossRecord
  | cross c => c.lossRecord

theorem ledger_lossRecord (e : Estimator) : e.lossRecord.ledger = e.ledger := by
  cases e <;> rfl

theorem resets_lossRecord (e : Estimator) : e.lossRecord.resets = e.diagnostics.resets := by
  cases e <;> rfl

theorem stopped_lossRecord (e : Estimator) : e.lossRecord.stopped = e.isStopped := by
  cases e <;> rfl

theorem lossRecord_stop (e : Estimator) :
    e.stop.state.lossRecord = { e.lossRecord with stopped := true } := by
  cases e with
  | single s => exact s.lossRecord_stop
  | cross c => exact c.lossRecord_stop

theorem lossRecord_reset (e : Estimator) : e.reset.state.lossRecord =
    ⟨e.ledger.clearHistory, e.diagnostics.resets + 1, false, []⟩ := by
  cases e with
  | single s => exact s.lossRecord_reset
  | cross c => exact c.lossRecord_reset

def awaited : Estimator → List SeqNumber
  | single s => s.expected.toList
  | cross c => c.expected.toList ++ c.long.map (·.1)

def lateAt (e : Estimator) (a : Arrival) : Option FlowPosition :=
  match e with
  | single _ => a.position
  | cross _ => some (a.position.getD ⟨0, a.seq⟩)

theorem logs_onArrival (hrun : e.isStopped = false) (now : Timestamp) {a : Arrival}
    (ha : S.Admits a.seq) :
    ∃ rest : Step Estimator, (e.onArrival now a).state = rest.state ∧
      (e.onArrival now a).actions =
        ((e.ledger.receive now a.seq).1.lateReport a.seq (e.lateAt a)).map .emit ++ rest.actions ∧
      rest.Logs lossRecord S
        { e.lossRecord with ledger := (e.ledger.receive now a.seq).2 } := by
  cases e with
  | single s =>
    obtain ⟨rest, hstate, hactions, hlogs⟩ := SinglePath.logs_onArrival hrun now ha
    exact ⟨rest.alter single, congrArg single hstate, hactions, hlogs.alter rfl⟩
  | cross c =>
    obtain ⟨rest, hstate, hactions, hlogs⟩ := CrossPath.logs_onArrival hrun now ha
    exact ⟨rest.alter cross, congrArg cross hstate, hactions, hlogs.alter rfl⟩

theorem logs_onRepair (hrun : e.isStopped = false) (a : Arrival) :
    (e.onRepair a).Logs lossRecord S
      { e.lossRecord with ledger := (e.ledger.receiveRepair a.seq).2 } := by
  cases e with
  | single s => exact (SinglePath.logs_onRepair hrun a).alter rfl
  | cross c => exact (CrossPath.logs_onRepair hrun a).alter rfl

theorem logs_onTimeout (e : Estimator) (now : Timestamp) (key : TimerKey)
    (hawaited : ∀ n ∈ e.awaited, S.lost n) :
    (e.onTimeout now key).Logs lossRecord S e.lossRecord := by
  cases e with
  | single s =>
    refine Step.Logs.alter (s.logs_onTimeout now key fun n hn => ?_) rfl
    exact hawaited n (Option.mem_toList.mpr hn)
  | cross c =>
    refine Step.Logs.alter (c.logs_onTimeout now key fun seq hseq => ?_) rfl
    refine hawaited seq (List.mem_append_right _ ?_)
    obtain ⟨p, hp, hpseq⟩ := List.any_eq_true.mp hseq
    exact List.mem_map.mpr ⟨p, hp, by simpa using hpseq⟩

end Estimator
end LossWatch
