import LossWatch.Proofs.Estimator.Exchanges
import LossWatch.Proofs.LossLedger.Memory

/-!
A list of the reported losses, kept by the events alone, against the ledger of the estimator that
reports them. A listed number is remembered as lost as long as the calls and the reports leave its
slot alone and nothing resets the estimator. The arrival of a number that is remembered if it is
listed takes it off the list, and nothing in the same call puts it back.
-/

namespace LossWatch

def listedAfter (s : SeqNumber) (listed : Bool) (es : List LossEvent) : Bool :=
  es.foldl (fun b e => if e.seq = s then e.isLost else b) listed

section Listed

variable {s : SeqNumber} {listed : Bool} {es fs : List LossEvent}

theorem listedAfter_append :
    listedAfter s listed (es ++ fs) = listedAfter s (listedAfter s listed es) fs :=
  List.foldl_append

theorem listedAfter_of_absent (h : ∀ e ∈ es, e.seq ≠ s) : listedAfter s listed es = listed := by
  induction es generalizing listed with
  | nil => rfl
  | cons e es ih =>
    show listedAfter s (if e.seq = s then e.isLost else listed) es = listed
    rw [if_neg (h e (by simp))]
    exact ih fun e' he' => h e' (by simp [he'])

theorem listedAfter_of_unreported (h : ∀ e ∈ es, e.isLost = true → e.seq ≠ s) :
    listedAfter s false es = false := by
  induction es with
  | nil => rfl
  | cons e es ih =>
    have hfirst : (if e.seq = s then e.isLost else false) = false := by
      by_cases he : e.seq = s
      · rw [if_pos he]
        exact Bool.eq_false_iff.mpr fun hlost => h e (by simp) hlost he
      · rw [if_neg he]
    show listedAfter s (if e.seq = s then e.isLost else false) es = false
    rw [hfirst]
    exact ih fun e' he' => h e' (by simp [he'])

theorem listedAfter_of_mem {e : LossEvent} (he : e ∈ es) (hs : e.seq = s) (listed' : Bool) :
    listedAfter s listed es = listedAfter s listed' es := by
  obtain ⟨pre, post, rfl⟩ := List.append_of_mem he
  have hstep : ∀ b : Bool, listedAfter s b (e :: post) = listedAfter s e.isLost post := by
    intro b
    show listedAfter s (if e.seq = s then e.isLost else b) post = _
    rw [if_pos hs]
  rw [listedAfter_append, listedAfter_append, hstep, hstep]

end Listed

/-- The ledger remembers the loss of `s` if it is listed. -/
def LossLedger.Recalls (l : LossLedger) (s : SeqNumber) (listed : Bool) : Prop :=
  listed = true → l.isAssumedLost s = true

/-- The call's packet neither claims the slot of `s` nor repairs it. -/
def EstimatorCall.Spares (s : SeqNumber) : EstimatorCall → Prop
  | .arrival _ a => a.seq = s ∨ ¬ a.seq.SharesSlot s
  | .repair a => ¬ a.seq.SharesSlot s
  | _ => True

instance (s : SeqNumber) (c : EstimatorCall) : Decidable (c.Spares s) :=
  match c with
  | .arrival _ a => inferInstanceAs (Decidable (a.seq = s ∨ ¬ a.seq.SharesSlot s))
  | .repair a => inferInstanceAs (Decidable (¬ a.seq.SharesSlot s))
  | .timeout .. | .withdrawn _ => .isTrue trivial

namespace Exchange

variable {x : Exchange} {s : SeqNumber} {listed : Bool}

theorem listedAfter_lateReport {l : LossLedger} (h : l.Recalls s listed) (now : Timestamp)
    (position : Option FlowPosition) :
    listedAfter s listed ((l.receive now s).1.lateReport s position) = false := by
  cases listed with
  | true =>
    obtain ⟨lateBy, hlate⟩ := LossLedger.receive_of_isAssumedLost (h rfl) now
    rw [hlate]
    show (if s = s then false else true) = false
    rw [if_pos rfl]
  | false =>
    apply listedAfter_of_unreported
    intro e he hlost
    cases hr : (l.receive now s).1 <;> simp_all [Reception.lateReport, LossEvent.isLost]

theorem recalls_recorded (hl : x.before.ledger.history = LossLedger.initial.history)
    (hcall : x.call.Spares s) (h : x.before.ledger.Recalls s listed) :
    x.recorded.Recalls s (listedAfter s listed x.falseAlarms) := by
  cases x.brings with
  | nothing hslots halarms =>
    rw [halarms]
    intro hlisted
    rw [LossLedger.isAssumedLost_of_slots hslots]
    exact h hlisted
  | original now a hcall' hrecorded halarms =>
    rw [hrecorded, halarms]
    rw [hcall'] at hcall
    rcases hcall with hs | hs
    · intro hlisted
      rw [hs, listedAfter_lateReport h] at hlisted
      exact absurd hlisted (by simp)
    · intro hlisted
      rw [← halarms, listedAfter_of_absent] at hlisted
      · rw [(LossLedger.records_receive _ now _).isAssumedLost_of_apart hl hs]
        exact h hlisted
      · intro e he heq
        obtain ⟨-, now', a', hcall'', hseq⟩ := mem_falseAlarms he
        have hsame : a' = a := by
          rw [hcall'] at hcall''
          exact (EstimatorCall.arrival.inj hcall'').2.symm
        rw [← heq, hseq, hsame] at hs
        exact hs rfl
  | repair a hcall' hrecorded halarms =>
    rw [hrecorded, halarms]
    rw [hcall'] at hcall
    intro hlisted
    rw [(LossLedger.records_receiveRepair ..).isAssumedLost_of_apart hl hcall]
    exact h hlisted

theorem recalls (hl : x.before.ledger.history = LossLedger.initial.history)
    (hcall : x.call.Spares s) (hreports : ∀ e ∈ x.events, e.seq = s ∨ ¬ e.seq.SharesSlot s)
    (hresets : x.step.state.diagnostics.resets = x.before.diagnostics.resets)
    (h : x.before.ledger.Recalls s listed) :
    x.step.state.ledger.Recalls s (listedAfter s listed x.events) := by
  obtain ⟨rest, hstate, hevents, hlogged⟩ := events_logged x.fits_all fun _ _ => trivial
  rw [hstate] at hresets ⊢
  have hdeclared := hlogged.declares (by
    rw [Estimator.resets_lossRecord, hresets, ← Estimator.resets_lossRecord])
  rw [Estimator.ledger_lossRecord] at hdeclared
  intro hlisted
  refine hdeclared.isAssumedLost (x.history_recorded.trans hl) ?_ ?_
  · intro n hn
    obtain ⟨e, he, rfl⟩ := List.mem_map.mp hn
    exact hreports e (by simp [hevents, he])
  · by_cases hmem : s ∈ (emitted rest.actions).map LossEvent.seq
    · exact Or.inl hmem
    · have habsent : ∀ e ∈ emitted rest.actions, e.seq ≠ s := fun e he heq =>
        hmem (List.mem_map.mpr ⟨e, he, heq⟩)
      rw [hevents, listedAfter_append, listedAfter_of_absent habsent] at hlisted
      exact Or.inr (recalls_recorded hl hcall h hlisted)

theorem not_listedAfter_arrival {e : Estimator} (hrun : e.isStopped = false) {now : Timestamp}
    {a : Arrival} (h : e.ledger.Recalls a.seq listed) :
    listedAfter a.seq listed (events ⟨e, .arrival now a⟩) = false := by
  obtain ⟨rest, -, hevents, hlogged⟩ :=
    events_logged (x := ⟨e, .arrival now a⟩) (LossScope.admits_without a.seq) fun _ _ => trivial
  have halarms : falseAlarms ⟨e, .arrival now a⟩ =
      (e.ledger.receive now a.seq).1.lateReport a.seq (e.lateAt a) := if_neg (by simp [hrun])
  have habsent : ∀ ev ∈ emitted rest.actions, ev.seq ≠ a.seq := fun ev hev =>
    (hlogged.events ev hev).2
  rw [hevents, listedAfter_append, listedAfter_of_absent habsent, halarms]
  exact listedAfter_lateReport h now _

end Exchange

namespace Estimator

variable {e : Estimator} {s : SeqNumber} {listed : Bool} {calls : List EstimatorCall}

/-- Over a run that spares its slot, a listed number stays remembered. -/
theorem recalls_after (hl : e.ledger.history = LossLedger.initial.history)
    (hcalls : ∀ c ∈ calls, c.Spares s)
    (hreports : ∀ ev ∈ e.events calls, ev.seq = s ∨ ¬ ev.seq.SharesSlot s)
    (hresets : (e.after calls).diagnostics.resets = e.diagnostics.resets)
    (h : e.ledger.Recalls s listed) :
    (e.after calls).ledger.Recalls s (listedAfter s listed (e.events calls)) := by
  induction calls generalizing e listed with
  | nil => exact h
  | cons c calls ih =>
    obtain ⟨-, -, hhistory⟩ := Exchange.kept ⟨e, c⟩
    obtain ⟨hcall, hrest⟩ := unreset_append [c] calls hresets
    have hevents : e.events (c :: calls) =
        Exchange.events ⟨e, c⟩ ++ (e.call c).state.events calls := List.flatMap_cons
    rw [hevents] at hreports ⊢
    have hfirst := Exchange.recalls (x := ⟨e, c⟩) hl (hcalls c (by simp))
      (fun ev hev => hreports ev (List.mem_append_left _ hev)) hcall h
    rw [listedAfter_append]
    exact ih (hhistory.trans hl) (fun d hd => hcalls d (by simp [hd]))
      (fun ev hev => hreports ev (List.mem_append_right _ hev)) hrest hfirst

end Estimator
end LossWatch
