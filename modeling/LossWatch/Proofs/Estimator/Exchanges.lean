import LossWatch.Proofs.Estimator.Declarations

/-!
Runs of an estimator as exchanges: each call together with the estimator it finds. A call brings at
most one packet, which is entered into the ledger first and may turn out to have been declared lost
too early; whatever else the call reports is losses, declared in the ledger with that packet.
-/

namespace LossWatch

inductive EstimatorCall
  | arrival (now : Timestamp) (a : Arrival)
  | repair (a : Arrival)
  | timeout (now : Timestamp) (key : TimerKey)
  | withdrawn (seq : SeqNumber)

def Estimator.call (e : Estimator) : EstimatorCall → Step Estimator
  | .arrival now a => e.onArrival now a
  | .repair a => e.onRepair a
  | .timeout now key => e.onTimeout now key
  | .withdrawn seq => .stay (e.noteWithdrawn seq)

structure Exchange where
  before : Estimator
  call : EstimatorCall

namespace Exchange

def step (x : Exchange) : Step Estimator := x.before.call x.call

def events (x : Exchange) : List LossEvent := emitted x.step.actions

def original? (x : Exchange) : Option (SeqNumber × Reception) :=
  match x.call with
  | .arrival now a =>
    if x.before.isStopped then none else some (a.seq, (x.before.ledger.receive now a.seq).1)
  | _ => none

def repair? (x : Exchange) : Option (SeqNumber × Reception) :=
  match x.call with
  | .repair a =>
    if x.before.isStopped then none else some (a.seq, (x.before.ledger.receiveRepair a.seq).1)
  | _ => none

/-- The ledger with the packet at hand, before anything is declared lost. -/
def recorded (x : Exchange) : LossLedger :=
  match x.call with
  | .arrival now a =>
    if x.before.isStopped then x.before.ledger else (x.before.ledger.receive now a.seq).2
  | .repair a =>
    if x.before.isStopped then x.before.ledger else (x.before.ledger.receiveRepair a.seq).2
  | .timeout .. => x.before.ledger
  | .withdrawn seq => x.before.ledger.noteWithdrawn seq

def falseAlarms (x : Exchange) : List LossEvent :=
  match x.call with
  | .arrival now a =>
    if x.before.isStopped then []
    else (x.before.ledger.receive now a.seq).1.lateReport a.seq (x.before.lateAt a)
  | _ => []

variable {x : Exchange} {S : LossScope}

/-! ### The packet of a call -/

/-- What a call does before it declares anything lost. -/
inductive Brings (x : Exchange) : Prop
  | nothing (hslots : x.recorded.slots = x.before.ledger.slots) (halarms : x.falseAlarms = [])
      (horiginal : x.original? = none) (hrepair : x.repair? = none)
  | original (now : Timestamp) (a : Arrival) (hcall : x.call = .arrival now a)
      (hrecorded : x.recorded = (x.before.ledger.receive now a.seq).2)
      (halarms : x.falseAlarms =
        (x.before.ledger.receive now a.seq).1.lateReport a.seq (x.before.lateAt a))
      (horiginal : x.original? = some (a.seq, (x.before.ledger.receive now a.seq).1))
      (hrepair : x.repair? = none)
  | repair (a : Arrival) (hcall : x.call = .repair a)
      (hrecorded : x.recorded = (x.before.ledger.receiveRepair a.seq).2)
      (halarms : x.falseAlarms = []) (horiginal : x.original? = none)
      (hrepair : x.repair? = some (a.seq, (x.before.ledger.receiveRepair a.seq).1))

theorem brings (x : Exchange) : x.Brings := by
  obtain ⟨e, c⟩ := x
  cases c with
  | arrival now a =>
    cases hs : e.isStopped with
    | true => exact .nothing (by simp [recorded, hs]) (if_pos hs) (if_pos hs) rfl
    | false =>
      have hrun : ¬ e.isStopped = true := by simp [hs]
      exact .original now a rfl (if_neg hrun) (if_neg hrun) (if_neg hrun) rfl
  | repair a =>
    cases hs : e.isStopped with
    | true => exact .nothing (by simp [recorded, hs]) rfl rfl (if_pos hs)
    | false =>
      have hrun : ¬ e.isStopped = true := by simp [hs]
      exact .repair a rfl (if_neg hrun) rfl rfl (if_neg hrun)
  | timeout now key => exact .nothing rfl rfl rfl rfl
  | withdrawn seq => exact .nothing (e.ledger.slots_noteWithdrawn seq) rfl rfl rfl

theorem mem_falseAlarms {ev : LossEvent} (h : ev ∈ x.falseAlarms) :
    ev.isLost = false ∧ ∃ now a, x.call = .arrival now a ∧ ev.seq = a.seq := by
  have hlate : ∀ (r : Reception) (n : SeqNumber) (position : Option FlowPosition),
      ev ∈ r.lateReport n position → ev.isLost = false ∧ ev.seq = n := by
    intro r n position hmem
    cases r <;> simp_all [Reception.lateReport, LossEvent.isLost, LossEvent.seq]
  cases x.brings with
  | nothing _ halarms => simp [halarms] at h
  | original now a hcall _ halarms =>
    rw [halarms] at h
    obtain ⟨hkind, hseq⟩ := hlate _ _ _ h
    exact ⟨hkind, now, a, hcall, hseq⟩
  | repair _ _ _ halarms => simp [halarms] at h

/-! ### The losses of a call -/

/-- The call's packet and the timers leave room for no declaration out of scope. -/
def Fits (x : Exchange) (S : LossScope) : Prop :=
  match x.call with
  | .arrival _ a => S.Admits a.seq
  | .timeout .. => ∀ n ∈ x.before.awaited, S.lost n
  | _ => True

theorem fits_all (x : Exchange) : x.Fits .all := by
  obtain ⟨e, c⟩ := x
  cases c with
  | arrival now a => exact LossScope.admits_all a.seq
  | repair a => trivial
  | timeout now key => exact fun _ _ => trivial
  | withdrawn seq => trivial

/-- False alarms are reported first, then losses, each declared in the recorded ledger. -/
theorem step_logs (hfits : x.Fits S) :
    ∃ rest : Step Estimator, x.step.state = rest.state ∧
      x.step.actions = x.falseAlarms.map .emit ++ rest.actions ∧
      rest.Logs Estimator.lossRecord S { x.before.lossRecord with ledger := x.recorded } := by
  obtain ⟨e, c⟩ := x
  have hsame : e.lossRecord = { e.lossRecord with ledger := e.ledger } := by
    rw [← e.ledger_lossRecord]
  cases c with
  | arrival now a =>
    cases hs : e.isStopped with
    | true =>
      have hrecorded : recorded ⟨e, .arrival now a⟩ = e.ledger := if_pos hs
      have hfalse : falseAlarms ⟨e, .arrival now a⟩ = [] := if_pos hs
      have hstep : step ⟨e, .arrival now a⟩ = .stay e := Estimator.onArrival_of_stopped hs now a
      rw [hrecorded, hfalse, hstep, ← hsame]
      exact ⟨.stay e, rfl, rfl, .stay rfl⟩
    | false =>
      obtain ⟨rest, hstate, hactions, hlogs⟩ := Estimator.logs_onArrival hs now hfits
      have hrecorded : recorded ⟨e, .arrival now a⟩ = (e.ledger.receive now a.seq).2 :=
        if_neg (by simp [hs])
      have hfalse : falseAlarms ⟨e, .arrival now a⟩ =
          (e.ledger.receive now a.seq).1.lateReport a.seq (e.lateAt a) := if_neg (by simp [hs])
      rw [hrecorded, hfalse]
      exact ⟨rest, hstate, hactions, hlogs⟩
  | repair a =>
    cases hs : e.isStopped with
    | true =>
      have hrecorded : recorded ⟨e, .repair a⟩ = e.ledger := if_pos hs
      have hstep : step ⟨e, .repair a⟩ = .stay e := Estimator.onRepair_of_stopped hs a
      rw [hrecorded, hstep, ← hsame]
      exact ⟨.stay e, rfl, rfl, .stay rfl⟩
    | false =>
      have hrecorded : recorded ⟨e, .repair a⟩ = (e.ledger.receiveRepair a.seq).2 :=
        if_neg (by simp [hs])
      rw [hrecorded]
      exact ⟨_, rfl, rfl, Estimator.logs_onRepair hs a⟩
  | timeout now key =>
    have hlogs : (e.onTimeout now key).Logs Estimator.lossRecord S e.lossRecord :=
      e.logs_onTimeout now key hfits
    rw [hsame] at hlogs
    exact ⟨_, rfl, rfl, hlogs⟩
  | withdrawn seq =>
    refine ⟨_, rfl, rfl, .stay ?_⟩
    cases e <;> rfl

theorem events_logged (hfits : x.Fits S) (hrec : x.before.lossRecord.Within S) :
    ∃ rest : Step Estimator, x.step.state = rest.state ∧
      x.events = x.falseAlarms ++ emitted rest.actions ∧
      rest.Logged Estimator.lossRecord S { x.before.lossRecord with ledger := x.recorded } := by
  obtain ⟨rest, hstate, hactions, hlogs⟩ := step_logs hfits
  have hemit : emitted (x.falseAlarms.map .emit) = x.falseAlarms := by
    unfold emitted
    rw [List.filterMap_map]
    exact List.filterMap_some
  refine ⟨rest, hstate, ?_, hlogs hrec⟩
  rw [events, hactions, emitted_append, hemit]

theorem within_after (hfits : x.Fits S) (hrec : x.before.lossRecord.Within S) :
    x.step.state.lossRecord.Within S := by
  obtain ⟨rest, hstate, -, hlogged⟩ := events_logged hfits hrec
  rw [hstate]
  exact hlogged.within

theorem history_recorded (x : Exchange) : x.recorded.history = x.before.ledger.history := by
  cases x.brings with
  | nothing hslots => exact congrArg Array.size hslots
  | original now a _ hrecorded => rw [hrecorded, (LossLedger.records_receive ..).history]
  | repair a _ hrecorded => rw [hrecorded, (LossLedger.records_receiveRepair ..).history]

theorem kept (x : Exchange) :
    x.before.diagnostics.resets ≤ x.step.state.diagnostics.resets ∧
      x.step.state.isStopped = x.before.isStopped ∧
      x.step.state.ledger.history = x.before.ledger.history := by
  obtain ⟨rest, hstate, -, hlogged⟩ := events_logged x.fits_all fun _ _ => trivial
  rw [hstate, ← x.history_recorded, ← Estimator.resets_lossRecord, ← Estimator.resets_lossRecord,
    ← Estimator.stopped_lossRecord, ← Estimator.stopped_lossRecord, ← Estimator.ledger_lossRecord]
  exact ⟨hlogged.resets_le, hlogged.stopped, hlogged.history⟩

end Exchange

/-! ### Every run of calls -/

namespace Estimator

def after (e : Estimator) (calls : List EstimatorCall) : Estimator :=
  calls.foldl (fun e c => (e.call c).state) e

def exchanges : Estimator → List EstimatorCall → List Exchange
  | _, [] => []
  | e, c :: calls => ⟨e, c⟩ :: exchanges (e.call c).state calls

def events (e : Estimator) (calls : List EstimatorCall) : List LossEvent :=
  (e.exchanges calls).flatMap (·.events)

variable {e : Estimator} {S : LossScope} {calls : List EstimatorCall}

theorem exchanges_append (e : Estimator) (cs ds : List EstimatorCall) :
    e.exchanges (cs ++ ds) = e.exchanges cs ++ (e.after cs).exchanges ds := by
  induction cs generalizing e with
  | nil => rfl
  | cons c cs ih => exact congrArg _ (ih _)

theorem exchanges_concat (e : Estimator) (calls : List EstimatorCall) (c : EstimatorCall) :
    e.exchanges (calls ++ [c]) = e.exchanges calls ++ [⟨e.after calls, c⟩] :=
  e.exchanges_append calls [c]

theorem call_mem_of_mem_exchanges {x : Exchange} (h : x ∈ e.exchanges calls) : x.call ∈ calls := by
  induction calls generalizing e with
  | nil => exact absurd h List.not_mem_nil
  | cons c calls ih =>
    rcases List.mem_cons.mp h with rfl | h
    · exact List.mem_cons_self
    · exact List.mem_cons_of_mem _ (ih h)

theorem after_append (e : Estimator) (cs ds : List EstimatorCall) :
    e.after (cs ++ ds) = (e.after cs).after ds := List.foldl_append

theorem events_append (e : Estimator) (cs ds : List EstimatorCall) :
    e.events (cs ++ ds) = e.events cs ++ (e.after cs).events ds := by
  unfold events
  rw [exchanges_append, List.flatMap_append]

theorem events_withdrawn (e : Estimator) (seqs : List SeqNumber) :
    e.events (seqs.map .withdrawn) = [] := by
  induction seqs generalizing e with
  | nil => rfl
  | cons seq seqs ih => exact ih (e.noteWithdrawn seq)

theorem within_run (hrec : e.lossRecord.Within S) (hfits : ∀ x ∈ e.exchanges calls, x.Fits S) :
    ∀ x ∈ e.exchanges calls, x.before.lossRecord.Within S := by
  induction calls generalizing e with
  | nil => simp [exchanges]
  | cons c calls ih =>
    have hfirst := Exchange.within_after (x := ⟨e, c⟩) (hfits _ (by simp [exchanges])) hrec
    have hrest := ih hfirst fun x hx => hfits x (List.mem_cons_of_mem _ hx)
    intro x hx
    rcases List.mem_cons.mp hx with rfl | hx
    · exact hrec
    · exact hrest x hx

theorem kept_after (e : Estimator) (calls : List EstimatorCall) :
    e.diagnostics.resets ≤ (e.after calls).diagnostics.resets ∧
      (e.after calls).isStopped = e.isStopped ∧
      (e.after calls).ledger.history = e.ledger.history := by
  induction calls generalizing e with
  | nil => exact ⟨Nat.le_refl _, rfl, rfl⟩
  | cons c calls ih =>
    obtain ⟨hresets, hstopped, hhistory⟩ := Exchange.kept ⟨e, c⟩
    obtain ⟨hresets', hstopped', hhistory'⟩ := ih (e.call c).state
    exact ⟨Nat.le_trans hresets hresets', hstopped'.trans hstopped, hhistory'.trans hhistory⟩

theorem unreset_append (cs ds : List EstimatorCall)
    (h : (e.after (cs ++ ds)).diagnostics.resets = e.diagnostics.resets) :
    (e.after cs).diagnostics.resets = e.diagnostics.resets ∧
      ((e.after cs).after ds).diagnostics.resets = (e.after cs).diagnostics.resets := by
  have hfirst := (e.kept_after cs).1
  have hrest := ((e.after cs).kept_after ds).1
  rw [after_append] at h
  omega

/-! ### Packets that are not recorded -/

def withLedger (e : Estimator) (ledger : LossLedger) : Estimator :=
  match e with
  | single s => single { s with ledger }
  | cross c => cross { c with ledger }

/-- A duplicate or a stale packet goes into the totals of the ledger and nowhere else. -/
theorem onArrival_of_unrecorded (hrun : e.isStopped = false) {now : Timestamp} {a : Arrival}
    (hr : (e.ledger.receive now a.seq).1.isRecorded = false) :
    e.onArrival now a = .stay (e.withLedger (e.ledger.receive now a.seq).2) := by
  cases e with
  | single s =>
    have hrun' : ¬ s.stopped = true := ne_true_of_eq_false hrun
    rw [onArrival, SinglePath.onArrival, if_neg hrun']
    dsimp only [ledger] at hr ⊢
    cases hreception : (s.ledger.receive now a.seq).1 <;>
      first | rfl | simp [hreception, Reception.isRecorded] at hr
  | cross c =>
    have hrun' : ¬ c.stopped = true := ne_true_of_eq_false hrun
    rw [onArrival, CrossPath.onArrival, if_neg hrun']
    dsimp only [ledger] at hr ⊢
    cases hreception : (c.ledger.receive now a.seq).1 <;>
      first | rfl | simp [hreception, Reception.isRecorded] at hr

end Estimator
end LossWatch
