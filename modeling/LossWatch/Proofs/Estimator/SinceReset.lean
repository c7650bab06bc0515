import LossWatch.Proofs.Estimator.LossReports
import LossWatch.Proofs.Estimator.Reachable
import LossWatch.Proofs.LossLedger.Reach

/-!
What an estimator has been told since it was last reset, by a call of its own or by a run of losses.
Every reachable estimator has such a history, and what it was told later continues it. What a call
leaves in the ledger was there before or is noted by the call.
-/

namespace LossWatch

namespace Exchange

variable {x : Exchange} {n : SeqNumber} {en : LedgerEntry}

/-- The call enters something about the number into the ledger. -/
def Notes (x : Exchange) (n : SeqNumber) : Prop :=
  x.RecordsOriginal n ∨ x.RecordsRepair n ∨ x.ReportsLoss n

def noted (x : Exchange) : List SeqNumber :=
  ((x.original?.toList ++ x.repair?.toList).filter (·.2.isRecorded)).map (·.1) ++
    (x.events.filter (·.isLost)).map (·.seq)

theorem Notes.mem_noted (h : x.Notes n) : n ∈ x.noted := by
  rcases h with ⟨r, horiginal, hr⟩ | ⟨r, hrepair, hr⟩ | ⟨position, hlost⟩
  · exact List.mem_append_left _ (List.mem_map.mpr ⟨(n, r), by simp [horiginal, hr], rfl⟩)
  · exact List.mem_append_left _ (List.mem_map.mpr ⟨(n, r), by simp [hrepair, hr], rfl⟩)
  · exact List.mem_append_right _
      (List.mem_map.mpr ⟨_, List.mem_filter.mpr ⟨hlost, rfl⟩, rfl⟩)

theorem occupant_of_recorded (hl : x.before.ledger.Placed)
    (ho : x.recorded.occupant n = some en) :
    x.Notes en.seq ∨ x.before.ledger.occupant n = some en := by
  have hmarked : ∀ r : Reception,
      (r.arrivalMark ≠ [] → r.isRecorded = true) ∧ (r.repairMark ≠ [] → r.isRecorded = true) := by
    intro r
    cases r <;> simp [Reception.arrivalMark, Reception.repairMark, Reception.isRecorded]
  cases x.brings with
  | nothing hslots =>
    rw [LossLedger.occupant_of_slots hslots] at ho
    exact Or.inr ho
  | original now a _ hrecorded _ horiginal _ =>
    rw [hrecorded] at ho
    rcases hl.occupant_of_records (x.before.ledger.records_receive now a.seq) ho with ⟨hm, he⟩ | ho
    · exact Or.inl (.inl ⟨_, he ▸ horiginal, (hmarked _).1 hm⟩)
    · exact Or.inr ho
  | repair a _ hrecorded _ _ hrepair =>
    rw [hrecorded] at ho
    rcases hl.occupant_of_records (x.before.ledger.records_receiveRepair a.seq) ho with
      ⟨hm, he⟩ | ho
    · exact Or.inl (.inr (.inl ⟨_, he ▸ hrepair, (hmarked _).2 hm⟩))
    · exact Or.inr ho

theorem placed_recorded (hl : x.before.ledger.Placed) : x.recorded.Placed := by
  cases x.brings with
  | nothing hslots => exact hl.of_slots hslots
  | original now a _ hrecorded =>
    rw [hrecorded]
    exact hl.records (x.before.ledger.records_receive now a.seq)
  | repair a _ hrecorded =>
    rw [hrecorded]
    exact hl.records (x.before.ledger.records_receiveRepair a.seq)

theorem occupant_of_step (hl : x.before.ledger.Placed)
    (hresets : x.step.state.diagnostics.resets = x.before.diagnostics.resets)
    (ho : x.step.state.ledger.occupant n = some en) :
    x.Notes en.seq ∨ x.before.ledger.occupant n = some en := by
  obtain ⟨rest, hstate, hevents, hlogged⟩ := events_logged x.fits_all fun _ _ => trivial
  rw [hstate] at hresets ho
  have hdeclares := hlogged.declares (by
    rw [Estimator.resets_lossRecord, hresets, ← Estimator.resets_lossRecord])
  rw [Estimator.ledger_lossRecord] at hdeclares
  rcases (placed_recorded hl).occupant_of_declares hdeclares ho with hlost | ho
  · obtain ⟨ev, hev, hseq⟩ := List.mem_map.mp hlost
    have hkind := (hlogged.events ev hev).1
    have hmem : ev ∈ x.events := by
      rw [hevents]
      exact List.mem_append_right _ hev
    cases ev with
    | lost m position =>
      obtain rfl : m = en.seq := hseq
      exact Or.inl (.inr (.inr ⟨position, hmem⟩))
    | falsePositive m position => simp [LossEvent.isLost] at hkind
  · exact occupant_of_recorded hl ho

end Exchange

namespace Estimator

/-- The estimator is reachable, and these are its exchanges since the last reset. -/
inductive SinceReset : List Exchange → Estimator → Prop
  | fresh {e : Estimator} (fresh : e.Fresh) : SinceReset [] e
  | call {xs : List Exchange} {e : Estimator} (h : SinceReset xs e) (c : EstimatorCall)
      (unreset : (e.call c).state.diagnostics.resets = e.diagnostics.resets) :
      SinceReset (xs ++ [⟨e, c⟩]) (e.call c).state
  | broken {xs : List Exchange} {e : Estimator} (h : SinceReset xs e) (c : EstimatorCall)
      (resets : (e.call c).state.diagnostics.resets ≠ e.diagnostics.resets) :
      SinceReset [] (e.call c).state
  | reset {xs : List Exchange} {e : Estimator} (h : SinceReset xs e) : SinceReset [] e.reset.state
  | stop {xs : List Exchange} {e : Estimator} (h : SinceReset xs e) : SinceReset xs e.stop.state

variable {xs : List Exchange} {e : Estimator}

theorem SinceReset.reachable (h : SinceReset xs e) : e.Reachable := by
  induction h with
  | fresh fresh => exact .fresh fresh
  | call _ c _ ih => exact ih.call c
  | broken _ c _ ih => exact ih.call c
  | reset _ ih => exact ih.reset
  | stop _ ih => exact ih.stop

theorem Reachable.sinceReset (h : e.Reachable) : ∃ xs, SinceReset xs e := by
  induction h with
  | fresh fresh => exact ⟨[], .fresh fresh⟩
  | @call e _ c ih =>
    obtain ⟨xs, hxs⟩ := ih
    by_cases hresets : (e.call c).state.diagnostics.resets = e.diagnostics.resets
    · exact ⟨_, hxs.call c hresets⟩
    · exact ⟨[], hxs.broken c hresets⟩
  | reset _ ih => exact ⟨[], ih.elim fun _ hxs => hxs.reset⟩
  | stop _ ih => exact ih.imp fun _ hxs => hxs.stop

theorem SinceReset.exchanges (h : SinceReset xs e) {calls : List EstimatorCall}
    (unreset : (e.after calls).diagnostics.resets = e.diagnostics.resets) :
    SinceReset (xs ++ e.exchanges calls) (e.after calls) := by
  induction calls generalizing xs e with
  | nil =>
    rw [Estimator.exchanges, List.append_nil]
    exact h
  | cons c calls ih =>
    obtain ⟨hcall, hcalls⟩ := unreset_append [c] calls unreset
    have hrest := ih (h.call c hcall) hcalls
    rwa [List.append_assoc] at hrest

theorem SinceReset.of_fresh (fresh : e.Fresh) {calls : List EstimatorCall}
    (unreset : (e.after calls).diagnostics.resets = e.diagnostics.resets) :
    SinceReset (e.exchanges calls) (e.after calls) :=
  (SinceReset.fresh fresh).exchanges unreset

end Estimator
end LossWatch
