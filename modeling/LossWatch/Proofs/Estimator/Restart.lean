import LossWatch.Proofs.CrossPath.Counting
import LossWatch.Proofs.CrossPath.PhaseData
import LossWatch.Proofs.SinglePath.Counting

/-!
A reset makes a new estimator. After it, be it asked for or the end of a long run of losses, the
estimator is the one that was built but for its counters; and since no estimator looks at its
counters, the two go on alike whatever they are told.
-/

namespace LossWatch

inductive EstimatorOp
  | call (c : EstimatorCall)
  | reset
  | stop

namespace Estimator

variable {e e' : Estimator}

def perform (e : Estimator) : EstimatorOp → Step Estimator
  | .call c => e.call c
  | .reset => e.reset
  | .stop => e.stop

def afterOps (e : Estimator) (ops : List EstimatorOp) : Estimator :=
  ops.foldl (fun e op => (e.perform op).state) e

/-- What is requested and noticed, operation by operation. -/
def replies (e : Estimator) : List EstimatorOp → List (List Action × List Notice)
  | [] => []
  | op :: ops =>
    ((e.perform op).actions, (e.perform op).notices) :: (e.perform op).state.replies ops

theorem afterOps_append (e : Estimator) (ops ops' : List EstimatorOp) :
    e.afterOps (ops ++ ops') = (e.afterOps ops).afterOps ops' := List.foldl_append

/-- The estimator less what it has counted: its counters and the totals of its ledger. -/
def uncounted : Estimator → Estimator
  | single s => single s.uncounted
  | cross c => cross c.uncounted

def unlearnt : Estimator → Estimator
  | single s => single s.unlearnt
  | cross c => cross c.unlearnt

/-! ### The counters do not matter -/

abbrev Alike (e : Estimator) (r r' : Step Estimator) : Prop := Step.Alike uncounted unlearnt e r r'

theorem alike_single {s : SinglePath} {r r' : Step SinglePath} (h : s.Alike r r') :
    (single s).Alike (r.alter single) (r'.alter single) :=
  ⟨congrArg single h.state, congrArg single h.kept, h.actions, h.notices⟩

theorem alike_cross {c : CrossPath} {r r' : Step CrossPath} (h : c.Alike r r') :
    (cross c).Alike (r.alter cross) (r'.alter cross) :=
  ⟨congrArg cross h.state, congrArg cross h.kept, h.actions, h.notices⟩

theorem alike_call (e : Estimator) (c : EstimatorCall) :
    e.Alike (e.call c) (e.uncounted.call c) := by
  cases e with
  | single s =>
    cases c with
    | arrival now a => exact alike_single (s.alike_onArrival now a)
    | repair a => exact alike_single (s.alike_onRepair a)
    | timeout now key => exact alike_single (s.alike_onTimeout now key)
    | withdrawn seq => exact alike_single (s.alike_noteWithdrawn seq)
  | cross s =>
    cases c with
    | arrival now a => exact alike_cross (s.alike_onArrival now a)
    | repair a => exact alike_cross (s.alike_onRepair a)
    | timeout now key => exact alike_cross (s.alike_onTimeout now key)
    | withdrawn seq => exact alike_cross (s.alike_noteWithdrawn seq)

theorem alike_perform (e : Estimator) (op : EstimatorOp) :
    e.Alike (e.perform op) (e.uncounted.perform op) := by
  cases op with
  | call c => exact e.alike_call c
  | reset =>
    cases e with
    | single s => exact alike_single s.alike_reset
    | cross c => exact alike_cross c.alike_reset
  | stop =>
    cases e with
    | single s => exact alike_single s.alike_stop
    | cross c => exact alike_cross c.alike_stop

theorem perform_alike (h : e.uncounted = e'.uncounted) (op : EstimatorOp) :
    e.Alike (e.perform op) (e'.perform op) :=
  Step.Blind.congr (fun e => e.alike_perform op) h rfl

/-- Estimators that differ in their counters only go on alike. -/
theorem replies_alike (h : e.uncounted = e'.uncounted) (ops : List EstimatorOp) :
    e.replies ops = e'.replies ops ∧ (e.afterOps ops).uncounted = (e'.afterOps ops).uncounted := by
  induction ops generalizing e e' with
  | nil => exact ⟨rfl, h⟩
  | cons op ops ih =>
    have hfirst := perform_alike h op
    obtain ⟨hreplies, hstate⟩ := ih hfirst.state
    refine ⟨?_, hstate⟩
    rw [replies, replies, hfirst.actions, hfirst.notices, hreplies]

theorem unlearnt_afterOps (e : Estimator) (ops : List EstimatorOp) :
    (e.afterOps ops).unlearnt = e.unlearnt := by
  induction ops generalizing e with
  | nil => rfl
  | cons op ops ih => exact (ih _).trans (e.alike_perform op).kept

theorem unlearnt_after (e : Estimator) (cs : List EstimatorCall) :
    (e.after cs).unlearnt = e.unlearnt := by
  induction cs generalizing e with
  | nil => rfl
  | cons c cs ih => exact (ih _).trans (e.alike_call c).kept

/-! ### What a reset leaves -/

/-- All that was learnt is gone, and the estimator listens. -/
def Renewed (e : Estimator) : Prop := e.uncounted = e.unlearnt

/-- The operation starts the estimator over: it is a reset, or it is counted as one, because a run of
losses has become too long. -/
def Restarts (e : Estimator) (op : EstimatorOp) : Prop :=
  op = .reset ∨ e.diagnostics.resets < (e.perform op).state.diagnostics.resets

theorem renewed_reset (e : Estimator) : e.reset.state.Renewed := by
  cases e with
  | single s => exact congrArg single s.renewed_reset
  | cross c => exact congrArg cross c.renewed_reset

theorem resets_call_of_stopped (h : e.isStopped = true) (c : EstimatorCall) :
    (e.call c).state.diagnostics.resets = e.diagnostics.resets := by
  cases c with
  | arrival now a => rw [call, onArrival_of_stopped h, Step.state_stay]
  | repair a => rw [call, onRepair_of_stopped h, Step.state_stay]
  | timeout now key => rw [call, onTimeout_of_stopped h, Step.state_stay]
  | withdrawn seq => cases e <;> rfl

theorem resets_stop (e : Estimator) : e.stop.state.diagnostics.resets = e.diagnostics.resets := by
  rw [← resets_lossRecord, lossRecord_stop, ← resets_lossRecord]

theorem renewed_call {c : EstimatorCall}
    (h : e.diagnostics.resets < (e.call c).state.diagnostics.resets) :
    (e.call c).state.Renewed := by
  have hresets : (e.call c).state.diagnostics.resets ≠ e.diagnostics.resets := Nat.ne_of_gt h
  cases e with
  | single s =>
    cases c with
    | arrival now a => exact absurd (s.resets_onArrival now a) hresets
    | repair a => exact absurd (s.resets_onRepair a) hresets
    | timeout now key => exact congrArg single (SinglePath.renewed_onTimeout hresets)
    | withdrawn seq => exact absurd rfl hresets
  | cross s =>
    obtain ⟨s', hstep⟩ := s.call_state c
    have hrun : s.stopped = false := by
      cases hstopped : s.stopped with
      | false => rfl
      | true => exact absurd (resets_call_of_stopped (e := cross s) hstopped c) hresets
    have hkept := CrossPath.stopped_of_call hstep
    rw [hstep] at hresets ⊢
    obtain ⟨t, -, hrestarted⟩ := (CrossPath.told_call hstep).restarted_of_ne hresets
    have hfull := hrestarted.full
    have hstopped : t.stopped = false := by
      rw [hfull, CrossPath.fullReset_state, hrun] at hkept
      exact hkept
    rw [hfull]
    exact congrArg cross (CrossPath.renewed_fullReset hstopped)

theorem Restarts.renewed {op : EstimatorOp} (h : e.Restarts op) : (e.perform op).state.Renewed := by
  cases op with
  | call c =>
    rcases h with h | h
    · cases h
    · exact renewed_call h
  | reset => exact e.renewed_reset
  | stop =>
    rcases h with h | h
    · cases h
    · have hstop : (e.perform .stop).state.diagnostics.resets = e.diagnostics.resets := e.resets_stop
      omega

end Estimator

/-! ### What was built -/

theorem MovingAverage.reset_ofConstants {history bias : Nat} {p : Float} {m : MovingAverage}
    (h : ofConstants history bias p = .ok m) : m.reset = m := by
  obtain ⟨_, -, hm⟩ := Except.bind_eq_ok.mp h
  rw [← Except.ok.inj hm]
  rfl

theorem Autoregression.reset_ofConstants {history bias : Nat} {p : Float} {a : Autoregression}
    (h : ofConstants history bias p = .ok a) : a.reset = a := by
  obtain ⟨_, -, ha⟩ := Except.bind_eq_ok.mp h
  rw [← Except.ok.inj ha]
  rfl

theorem PredictorConfig.reset_of_build {c : PredictorConfig} {p : Predictor}
    (h : c.build = .ok p) : p.reset = p := by
  unfold build at h
  cases hkind : c.kind with
  | movingAverage =>
    rw [hkind] at h
    obtain ⟨m, hm, rfl⟩ := Except.map_eq_ok.mp h
    exact congrArg Predictor.movingAverage (MovingAverage.reset_ofConstants hm)
  | autoregression =>
    rw [hkind] at h
    obtain ⟨a, ha, rfl⟩ := Except.map_eq_ok.mp h
    exact congrArg Predictor.autoregression (Autoregression.reset_ofConstants ha)

theorem LossLedger.reset_ofHistory (history : Nat) : (ofHistory history).reset = ofHistory history := by
  simp only [reset, clearHistory, ofHistory, Array.size_replicate]

theorem Estimator.unlearnt_of_build {kind : EstimatorKind} {predictor : PredictorConfig}
    {single : SinglePathConfig} {cross : CrossPathConfig} {e : Estimator}
    (h : build kind predictor single cross = .ok e) : e.unlearnt = e ∧ e.uncounted = e := by
  have hledger : LossLedger.initial.reset = .initial := LossLedger.reset_ofHistory 1024
  obtain ⟨p, hp, rfl | rfl⟩ := eq_of_build h
  · refine ⟨congrArg Estimator.single ?_, rfl⟩
    simp only [SinglePath.unlearnt, PredictorConfig.reset_of_build hp, hledger]
  · refine ⟨congrArg Estimator.cross ?_, rfl⟩
    simp only [CrossPath.unlearnt, PredictorConfig.reset_of_build hp, hledger]
    rfl

namespace Estimator

variable {kind : EstimatorKind} {predictor : PredictorConfig} {single : SinglePathConfig}
  {cross : CrossPathConfig} {e : Estimator}

/-! ### What an estimator shows -/

/-- What can be asked of an estimator besides its counters. -/
structure Appearance where
  phase : String
  isStopped : Bool
  expected : Option SeqNumber
  deadlines : List (TimerKey × Timestamp)
  order : List Nat
  /-- Of each predictor whether it is ready, its prediction and the spread of its errors. -/
  predictors : List (Bool × Duration × Float)
  consecutiveLosses : Nat

def appearance : Estimator → Appearance
  | .single s => {
      phase := s.phase.name, isStopped := s.stopped, expected := s.expected
      deadlines := s.deadline.toList.map (TimerKey.basic, ·), order := []
      predictors := [s.predictor].map fun p => (p.isReady, p.prediction, p.errorStdDev)
      consecutiveLosses := s.consecutiveLosses }
  | .cross c => {
      phase := c.phase.name, isStopped := c.stopped, expected := c.expected
      deadlines := c.shortDeadline.toList.map (TimerKey.short, ·) ++
        c.long.map fun (seq, deadline) => (.long seq, deadline)
      order := c.order
      predictors := [c.delta, c.cross].map fun p => (p.isReady, p.prediction, p.errorStdDev)
      consecutiveLosses := c.consecutiveLosses }

theorem appearance_uncounted (e : Estimator) : e.uncounted.appearance = e.appearance := by
  cases e <;> rfl

/-! ### From a reset on -/

theorem Renewed.uncounted_eq {s : Estimator} (h : s.Renewed)
    (built : build kind predictor single cross = .ok e) (hs : s.unlearnt = e.unlearnt) :
    s.uncounted = e.uncounted := by
  obtain ⟨hunlearnt, huncounted⟩ := unlearnt_of_build built
  exact h.trans (hs.trans (hunlearnt.trans huncounted.symm))

theorem Restarts.uncounted_eq {before : List EstimatorOp} {op : EstimatorOp}
    (h : (e.afterOps before).Restarts op) (built : build kind predictor single cross = .ok e) :
    (e.afterOps (before ++ [op])).uncounted = e.uncounted := by
  rw [afterOps_append]
  refine h.renewed.uncounted_eq built ?_
  rw [((e.afterOps before).alike_perform op).kept, unlearnt_afterOps]

end Estimator

end LossWatch
