import LossWatch.Proofs.CrossPath.Reports
import LossWatch.Proofs.Flow.Sending

/-!
What is read off a flow's numbering is true. The numbers that a gap skipped were sent on its flow after
the last arrival there, so the ledger knows none of them. They are then among the unresolved numbers
that the gap is held against, and if these are no more, they are these, in the order of their labels.
-/

namespace LossWatch

def EstimatorCall.packet? : EstimatorCall → Option SeqNumber
  | .arrival _ a => some a.seq
  | .repair a => some a.seq
  | _ => none

/-- An original arrival has the place that the sender gave its number. -/
def EstimatorCall.Routed (route : SeqNumber → Option FlowPosition) : EstimatorCall → Prop
  | .arrival _ a => route a.seq = some a.place
  | _ => True

instance (route : SeqNumber → Option FlowPosition) (c : EstimatorCall) : Decidable (c.Routed route) :=
  match c with
  | .arrival _ a => inferInstanceAs (Decidable (route a.seq = some a.place))
  | .repair _ | .timeout .. | .withdrawn _ => .isTrue trivial

/-- Repairs come only for numbers that were reported lost before. -/
def RepairsReported (xs : List Exchange) : Prop :=
  ∀ pre x post a, xs = pre ++ x :: post → x.call = .repair a → ∃ y ∈ pre, y.ReportsLoss a.seq

theorem RepairsReported.of_append {xs ys : List Exchange} (h : RepairsReported (xs ++ ys)) :
    RepairsReported xs := by
  intro pre x post a hxs
  exact h pre x (post ++ ys) a (by simp [hxs])

section Entries

variable {xs : List Exchange} {base : SeqNumber} {route : SeqNumber → Option FlowPosition}

theorem exists_of_mem_entries {e : FlowEntry} (he : e ∈ entries xs) :
    ∃ x ∈ xs, ∃ now a, x.call = .arrival now a ∧ e = ⟨a.place.flow, a.seq, a.place.flowSeq, now⟩ := by
  obtain ⟨x, hx, hxe⟩ := List.mem_filterMap.mp he
  obtain ⟨now, a, hcall, hplace, -⟩ := Exchange.arrival_of_accepted? hxe
  exact ⟨x, hx, now, a, hcall, hplace⟩

theorem entries_inWindow (hwin : ∀ x ∈ xs, ∀ n ∈ x.call.packet?, n.InWindow base) :
    ∀ e ∈ entries xs, e.record.seq.InWindow base := by
  intro e he
  obtain ⟨x, hx, now, a, hcall, rfl⟩ := exists_of_mem_entries he
  exact hwin x hx a.seq (by simp [hcall, EstimatorCall.packet?])

theorem entries_routed (hrouted : ∀ x ∈ xs, x.call.Routed route) :
    ∀ e ∈ entries xs, route e.record.seq = some e.place := by
  intro e he
  obtain ⟨x, hx, now, a, hcall, rfl⟩ := exists_of_mem_entries he
  have h := hrouted x hx
  rw [hcall] at h
  exact h

end Entries

namespace LossLedger

variable {l : LossLedger} {n : SeqNumber} {marks : List LossMark}

theorem Shows.settled (h : l.Shows n marks) (hmarks : marks ≠ []) : l.Settled n := by
  have hknown : ∀ kind, l.Tells n kind → l.Settled n := fun kind ht =>
    ht.imp_left fun ⟨st, hst, _⟩ => ⟨st, hst, trivial⟩
  rcases shows_cases h with ⟨rfl, -⟩ | ⟨-, ht⟩ | ⟨-, ht⟩
  · exact absurd rfl hmarks
  · exact hknown _ ht
  · exact hknown _ ht

theorem Settled.isResolved_of_repair (h : l.Settled n)
    (hr : (l.receiveRepair n).1.isRecorded = true) : l.isResolved n = true := by
  rcases settled_iff.mp h with hresolved | hover
  · exact hresolved
  · have hstale : (l.receiveRepair n).1 = .stale := by
      simp only [receiveRepair, status_of_overtaken hover, recordFirst, LossLedger.store?, hover,
        if_true]
    rw [hstale] at hr
    exact absurd hr (by simp [Reception.isRecorded])

end LossLedger

namespace CrossPath

variable {s s' : CrossPath} {c : EstimatorCall} {xs : List Exchange} {base n : SeqNumber}
  {route : SeqNumber → Option FlowPosition} {q : Option FlowPosition}

theorem idle_of_call (h : s.Sound) (hstep : ((Estimator.cross s).call c).state = .cross s')
    (hresets : s'.counters.resets = s.counters.resets) (hidle : s'.phase.isRunning = false) :
    s.phase.isRunning = false := by
  cases hrun : s.phase.isRunning with
  | false => rfl
  | true =>
    rcases (shortMoves_call h hstep).running hrun with hrun' | ⟨t, ht, restarted⟩
    · simp [hidle] at hrun'
    · have := restarted.resets
      omega

theorem handled_inWindow (h : Estimator.SinceReset xs (.cross s)) (hidle : s.phase.isRunning = false)
    (hwin : ∀ x ∈ xs, ∀ n ∈ x.call.packet?, n.InWindow base) :
    ∀ x ∈ xs, ∀ n ∈ x.handled, n.InWindow base := by
  refine sinceReset_induction (P := fun xs s => s.phase.isRunning = false →
    (∀ x ∈ xs, ∀ n ∈ x.call.packet?, n.InWindow base) →
      ∀ x ∈ xs, ∀ n ∈ x.handled, n.InWindow base) ?_ ?_ ?_ h hidle hwin
  · exact fun _ _ _ _ x hx => absurd hx List.not_mem_nil
  · intro xs s s' c hs ih hstep hresets hidle hwin x hx
    have hsound := sound_of_sinceReset hs
    have hbefore := idle_of_call hsound hstep hresets hidle
    rcases List.mem_append.mp hx with hx | hx
    · exact ih hbefore (fun y hy => hwin y (List.mem_append_left _ hy)) x hx
    · obtain rfl := List.mem_singleton.mp hx
      have hawaited : (Estimator.cross s).awaited = [] := by
        obtain ⟨hshort, hlong⟩ := hsound.idle hbefore
        simp [Estimator.awaited, expected, hshort, LongTimers.eq_nil hlong]
      intro n hn
      refine hwin ⟨.cross s, c⟩ (by simp) n ?_
      cases c with
      | arrival now a => simpa [Exchange.handled, hawaited, EstimatorCall.packet?, eq_comm] using hn
      | repair a => simpa [Exchange.handled, hawaited, EstimatorCall.packet?, eq_comm] using hn
      | timeout now key => simp [Exchange.handled, hawaited] at hn
      | withdrawn m => simp [Exchange.handled, hawaited] at hn
  · intro xs s _ ih hidle
    rw [stop, Step.state_alter, cancelTimers_state] at hidle
    exact ih hidle

/-- What the ledger knows was sent, and not after the newest arrival on its flow. -/
def Sourced (base : SeqNumber) (route : SeqNumber → Option FlowPosition) (xs : List Exchange)
    (s : CrossPath) : Prop :=
  ∀ n : SeqNumber, s.ledger.isResolved n = true → ∃ p, route n = some p ∧
    ∃ e ∈ entries xs, e.flow = p.flow ∧ n.ahead base ≤ e.record.seq.ahead base

theorem unresolved_of_sent (h : s.Sound) (hsourced : s.Sourced base route xs) {e : FlowEntry}
    (he : Exchange.accepted? ⟨.cross s, c⟩ = some e) (hne : n ≠ e.record.seq) {p : FlowPosition}
    (hp : route n = some p)
    (hbehind : ∀ d ∈ entries xs, d.flow = p.flow → d.record.seq.ahead base < n.ahead base) :
    (Exchange.recorded ⟨.cross s, c⟩).isResolved n = false := by
  refine Bool.eq_false_iff.mpr fun hknown => ?_
  obtain ⟨now, a, -, rfl, hrecorded⟩ := Exchange.arrival_of_accepted? he
  obtain ⟨st, hst⟩ := LossLedger.isResolved_iff.mp hknown
  rw [hrecorded] at hst
  rcases h.placed.occupant_of_records (s.ledger.records_receive now a.seq) hst with ⟨-, hseq⟩ | ho
  · exact hne hseq
  · obtain ⟨p', hp', d, hd, hflow, hle⟩ := hsourced n (LossLedger.isResolved_iff.mpr ⟨st, ho⟩)
    obtain rfl : p = p' := Option.some.inj (hp.symm.trans hp')
    have := hbehind d hd hflow
    omega

/-- If as many numbers are unresolved after the newest arrival of a flow as the sender put on it, they
are the ones it put there. -/
theorem sentOn_eq_unresolved (h : s.Sound) (hsourced : s.Sourced base route xs) {d e : FlowEntry}
    (he : Exchange.accepted? ⟨.cross s, c⟩ = some e) (hd : d.record.seq.InWindow base)
    (hwindow : e.record.seq.InWindow base)
    (hnewest : ∀ f ∈ entries xs, f.flow = d.flow → f.record.seq.ahead base ≤ d.record.seq.ahead base)
    (hlength : ((Exchange.recorded ⟨.cross s, c⟩).unresolvedBetween d.record.seq
      e.record.seq).length = (sentOn route d.flow (d.record.seq.between e.record.seq)).length) :
    sentOn route d.flow (d.record.seq.between e.record.seq) =
      (Exchange.recorded ⟨.cross s, c⟩).unresolvedBetween d.record.seq e.record.seq := by
  refine sentOn_eq_filter (fun m hm p hp hpflow => ?_) hlength
  obtain ⟨hlo, -⟩ := SeqNumber.ahead_of_mem_between hd hwindow hm
  have hopen := unresolved_of_sent h hsourced he (SeqNumber.ne_of_mem_between hm) hp
    fun f hf hfflow => Nat.lt_of_le_of_lt (hnewest f hf (hfflow.trans hpflow)) hlo
  rw [hopen]
  rfl

/-- A loss that is reported before the timers run was sent on the flow of the arrival that reveals it,
after all earlier arrivals there. -/
theorem lost_between (sender : Sends base route) (h : Estimator.SinceReset xs (.cross s))
    (hidle : s.phase.isRunning = false) (hsourced : s.Sourced base route xs)
    (hwin : ∀ x ∈ xs ++ [⟨.cross s, c⟩], ∀ n ∈ x.call.packet?, n.InWindow base)
    (hrouted : ∀ x ∈ xs ++ [⟨.cross s, c⟩], x.call.Routed route)
    (hlost : .lost n q ∈ Exchange.events ⟨.cross s, c⟩) :
    ∃ p e, q = some p ∧ route n = some p ∧ Exchange.accepted? ⟨.cross s, c⟩ = some e ∧
      e.flow = p.flow ∧ n.ahead base < e.record.seq.ahead base ∧
      ∀ d ∈ entries xs, d.flow = p.flow → d.record.seq.ahead base < n.ahead base := by
  have hsound := sound_of_sinceReset h
  rcases lost_cases hsound hlost with ⟨hrun, -⟩ | ⟨-, e, g, i, he, hreveals, hi, rfl⟩
  · simp [hidle] at hrun
  have hwindow := entries_inWindow hwin
  have hplaces := entries_routed hrouted
  rw [entries_append, he, Option.toList_some] at hwindow hplaces
  have hstep := sender.inStep hwindow hplaces
  have hfollows := follows_entries h (fun d hd => hwindow d (List.mem_append_left _ hd))
    hstep.of_append
  obtain ⟨d, hd, hflow, rfl, hnewest, hnewer, hgap⟩ := hfollows.gapAfter_record hreveals.after
  obtain ⟨-, -, -, hcounted⟩ := hreveals
  generalize (s.flows.record e.flow e.record).1.gap = gap at hcounted hgap
  have hd' : d ∈ entries xs ++ [e] := List.mem_append_left _ hd
  have he' : e ∈ entries xs ++ [e] := List.mem_append_right _ (List.mem_singleton_self e)
  have hahead : d.record.seq.ahead base < e.record.seq.ahead base := by
    rw [← SeqNumber.newer_iff (hwindow e he') (hwindow d hd'), ← hstep e he' d hd' hflow.symm]
    exact hnewer
  -- The gap counts the numbers that the sender put on the flow in between.
  have hflowSeq : e.record.flowSeq = d.record.flowSeq.add
      ((sentOn route d.flow (d.record.seq.between e.record.seq)).length + 1) :=
    sender.flowSeq_eq (hplaces d hd') (hwindow e he') hahead (hplaces e he') hflow.symm
  have hlength : (sentOn route d.flow (d.record.seq.between e.record.seq)).length = gap := by
    have hfew := Sends.length_sentOn route d.flow d.record.seq e.record.seq
    rw [hflowSeq, SeqNumber.ahead_add_self (by omega)] at hgap
    omega
  -- None of them is known, so they are the unresolved numbers, which are no more.
  have hsent := sentOn_eq_unresolved hsound hsourced he (hwindow d hd') (hwindow e he')
    (fun f hf hfflow => hnewest f hf (hfflow.trans hflow)) (hcounted.trans hlength.symm)
  rw [← hsent] at hi
  obtain ⟨hlo, hhi⟩ := SeqNumber.ahead_of_mem_between (hwindow d hd') (hwindow e he')
    (List.mem_of_mem_filter (List.mem_of_getElem? hi))
  refine ⟨⟨e.flow, d.record.flowSeq.add (i + 1)⟩, e, ?_, ?_, he, rfl, hhi, fun f hf hfflow => ?_⟩
  · rw [hflowSeq, hlength, SeqNumber.add_sub_add]
  · exact hflow ▸ sender.labels (hplaces d hd') (hwindow e he') hahead hi
  · exact Nat.lt_of_le_of_lt (hnewest f hf hfflow) hlo

/-! ### Up to the start of the timers -/

theorem isResolved_of_recordsRepair (h : Estimator.SinceReset xs (.cross s))
    (hidle : s.phase.isRunning = false)
    (hwin : ∀ x ∈ xs ++ [⟨.cross s, c⟩], ∀ n ∈ x.call.packet?, n.InWindow base)
    (hreported : ∀ a, c = .repair a → ∃ y ∈ xs, y.ReportsLoss a.seq)
    (hrepair : Exchange.RecordsRepair ⟨.cross s, c⟩ n) : s.ledger.isResolved n = true := by
  obtain ⟨r, hr, hrecorded⟩ := hrepair
  cases c with
  | arrival now a => simp [Exchange.repair?] at hr
  | timeout now key => simp [Exchange.repair?] at hr
  | withdrawn m => simp [Exchange.repair?] at hr
  | repair a =>
    simp only [Exchange.repair?, Option.ite_none_left_eq_some, Option.some.injEq,
      Prod.mk.injEq] at hr
    obtain ⟨-, rfl, rfl⟩ := hr
    obtain ⟨y, hy, hlost⟩ := hreported a rfl
    have hseq : a.seq.InWindow base := hwin ⟨.cross s, .repair a⟩ (by simp) a.seq rfl
    have haccounts := accounts h
      (handled_inWindow h hidle fun x hx => hwin x (List.mem_append_left _ hx))
    have hmarks : xs.flatMap (·.marks a.seq) ≠ [] :=
      List.ne_nil_of_mem (List.mem_flatMap.mpr ⟨y, hy, Exchange.lost_mem_marks hlost⟩)
    exact ((haccounts.shows hseq).settled hmarks).isResolved_of_repair hrecorded

theorem Sourced.call (sender : Sends base route) (h : Estimator.SinceReset xs (.cross s))
    (hsourced : s.Sourced base route xs)
    (hstep : ((Estimator.cross s).call c).state = .cross s')
    (hresets : s'.counters.resets = s.counters.resets) (hidle : s'.phase.isRunning = false)
    (hwin : ∀ x ∈ xs ++ [⟨.cross s, c⟩], ∀ n ∈ x.call.packet?, n.InWindow base)
    (hrouted : ∀ x ∈ xs ++ [⟨.cross s, c⟩], x.call.Routed route)
    (hrepaired : RepairsReported (xs ++ [⟨.cross s, c⟩])) :
    s'.Sourced base route (xs ++ [⟨.cross s, c⟩]) := by
  intro n hn
  have hsound := sound_of_sinceReset h
  have hbefore := idle_of_call hsound hstep hresets hidle
  have hkept : s.ledger.isResolved n = true → ∃ p, route n = some p ∧
      ∃ e ∈ entries (xs ++ [⟨.cross s, c⟩]), e.flow = p.flow ∧
        n.ahead base ≤ e.record.seq.ahead base := by
    intro hknown
    obtain ⟨p, hp, e, he, hflow, hle⟩ := hsourced n hknown
    exact ⟨p, hp, e, by rw [entries_append]; exact List.mem_append_left _ he, hflow, hle⟩
  obtain ⟨st, hst⟩ := LossLedger.isResolved_iff.mp hn
  have hstate : (Exchange.step ⟨.cross s, c⟩).state = .cross s' := hstep
  have hnoted : Exchange.Notes ⟨.cross s, c⟩ n ∨ s.ledger.occupant n = some ⟨n, st⟩ :=
    Exchange.occupant_of_step (x := ⟨.cross s, c⟩) hsound.placed (by rw [hstate]; exact hresets)
      (by rw [hstate]; exact hst)
  rcases hnoted with (horiginal | hrepair | ⟨q, hlost⟩) | ho
  · obtain ⟨e, he, rfl⟩ := Exchange.recordsOriginal_iff.mp horiginal
    have hmem : e ∈ entries (xs ++ [⟨.cross s, c⟩]) := by simp [entries_append, he]
    exact ⟨e.place, entries_routed hrouted e hmem, e, hmem, rfl, Nat.le_refl _⟩
  · refine hkept (isResolved_of_recordsRepair h hbefore hwin ?_ hrepair)
    exact fun a hcall => hrepaired xs ⟨.cross s, c⟩ [] a rfl hcall
  · obtain ⟨p, e, -, hp, he, hflow, hlt, -⟩ :=
      lost_between sender h hbefore hsourced hwin hrouted hlost
    exact ⟨p, hp, e, by simp [entries_append, he], hflow, Nat.le_of_lt hlt⟩
  · exact hkept (LossLedger.isResolved_iff.mpr ⟨st, ho⟩)

theorem sourced_of_sinceReset (sender : Sends base route) (h : Estimator.SinceReset xs (.cross s))
    (hidle : s.phase.isRunning = false)
    (hwin : ∀ x ∈ xs, ∀ n ∈ x.call.packet?, n.InWindow base)
    (hrouted : ∀ x ∈ xs, x.call.Routed route) (hrepaired : RepairsReported xs) :
    s.Sourced base route xs := by
  refine sinceReset_induction (P := fun xs s => s.phase.isRunning = false →
    (∀ x ∈ xs, ∀ n ∈ x.call.packet?, n.InWindow base) → (∀ x ∈ xs, x.call.Routed route) →
      RepairsReported xs → s.Sourced base route xs) ?_ ?_ ?_ h hidle hwin hrouted hrepaired
  · intro s _ hblank _ _ _ _ n hn
    obtain ⟨st, ho⟩ := LossLedger.isResolved_iff.mp hn
    simp [hblank.ledger] at ho
  · intro xs s s' c hs ih hstep hresets hidle hwin hrouted hrepaired
    have hbefore := idle_of_call (sound_of_sinceReset hs) hstep hresets hidle
    have hsourced := ih hbefore (fun x hx => hwin x (List.mem_append_left _ hx))
      (fun x hx => hrouted x (List.mem_append_left _ hx)) hrepaired.of_append
    exact hsourced.call sender hs hstep hresets hidle hwin hrouted hrepaired
  · intro xs s _ ih hidle
    rw [stop, Step.state_alter, cancelTimers_state] at hidle ⊢
    exact ih hidle

/-- Take any assignment of a sender that puts numbers on flows so that each flow's own numbers are
consecutive, and any calls since the last reset with the packets' numbers in one window, with each
arrival at the place of its number, and with repairs for numbers reported lost only. A loss that is
then reported with a position is that of a number that the sender put at this position, and no original
of it has been recorded. -/
theorem gap_losses_routed (sender : Sends base route) (h : Estimator.SinceReset xs (.cross s))
    (c : EstimatorCall)
    (window : ∀ x ∈ xs ++ [⟨.cross s, c⟩], ∀ n ∈ x.call.packet?, n.InWindow base)
    (routed : ∀ x ∈ xs ++ [⟨.cross s, c⟩], x.call.Routed route)
    (repaired : RepairsReported xs) (n : SeqNumber) (p : FlowPosition)
    (lost : .lost n (some p) ∈ Exchange.events ⟨.cross s, c⟩) :
    route n = some p ∧ ∀ y ∈ xs ++ [⟨.cross s, c⟩], ¬ y.RecordsOriginal n := by
  have hsound := sound_of_sinceReset h
  have hidle : s.phase.isRunning = false := by
    rcases lost_cases hsound lost with ⟨-, hnone⟩ | ⟨hidle, -⟩
    · exact absurd hnone (by simp)
    · exact hidle
  have hsourced := sourced_of_sinceReset sender h hidle
    (fun x hx => window x (List.mem_append_left _ hx))
    (fun x hx => routed x (List.mem_append_left _ hx)) repaired
  obtain ⟨p', e, hp', hroute, he, hflow, hlt, hbehind⟩ :=
    lost_between sender h hidle hsourced window routed lost
  obtain rfl : p = p' := Option.some.inj hp'
  refine ⟨hroute, fun y hy hrecords => ?_⟩
  obtain ⟨d, hd, rfl⟩ := mem_entries_iff.mp ⟨y, hy, hrecords⟩
  have hplace := entries_routed routed d hd
  have hsame : d.flow = p.flow :=
    congrArg FlowPosition.flow (Option.some.inj (hplace.symm.trans hroute))
  rw [entries_append, he, Option.toList_some] at hd
  rcases List.mem_append.mp hd with hd | hd
  · exact absurd (hbehind d hd hsame) (Nat.lt_irrefl _)
  · obtain rfl := List.mem_singleton.mp hd
    exact absurd hlt (Nat.lt_irrefl _)

def alternating (n : SeqNumber) : Option FlowPosition :=
  some ⟨(n.raw + 1) % 2, .ofNat ((n.raw + 1) / 2)⟩

theorem sends_alternating : Sends (.ofNat 1) alternating := by
  intro a b p q hb hab ha hq hflow hnone
  obtain rfl := Option.some.inj ha
  obtain rfl := Option.some.inj hq
  have hwindow : a.InWindow (.ofNat 1) := Nat.lt_trans hab hb
  have hraw : 0 < a.raw ∧ a.raw < b.raw ∧ b.raw ≤ 32768 := by
    have ha' := a.raw_lt
    have hb' := b.raw_lt
    simp only [SeqNumber.InWindow, SeqNumber.ahead, SeqNumber.ofNat] at hb hab hwindow
    omega
  have hparity : (b.raw + 1) % 2 = (a.raw + 1) % 2 := hflow
  have htwo : b.raw = a.raw + 2 := by
    by_cases hnext : a.raw + 2 < b.raw
    · have hadd : (a.add 2).raw = a.raw + 2 := Nat.mod_eq_of_lt (by omega)
      have hskipped : a.add 2 ∈ a.between b := by
        refine SeqNumber.mem_between_of_ahead hwindow hb ?_ ?_ <;>
          simp only [SeqNumber.ahead, SeqNumber.ofNat, hadd] <;> omega
      refine absurd ?_ (hnone _ hskipped _ rfl)
      show ((a.add 2).raw + 1) % 2 = (a.raw + 1) % 2
      omega
    · omega
  apply SeqNumber.ext_raw
  simp only [SeqNumber.ofNat, SeqNumber.next, SeqNumber.add, htwo]
  omega

theorem gap_losses_routed_of_alternating :
    let calls : List EstimatorCall :=
      [.arrival (.ofMillis 20) (.onFlow (.ofNat 1) 0 (.ofNat 1)),
        .arrival (.ofMillis 40) (.onFlow (.ofNat 2) 1 (.ofNat 1)),
        .arrival (.ofMillis 60) (.onFlow (.ofNat 4) 1 (.ofNat 2))]
    let c : EstimatorCall := .arrival (.ofMillis 80) (.onFlow (.ofNat 5) 0 (.ofNat 3))
    ∃ s : CrossPath, Sends (.ofNat 1) alternating ∧
      Estimator.SinceReset ((Estimator.cross quick).exchanges calls) (.cross s) ∧
      .lost (.ofNat 3) (some ⟨0, .ofNat 2⟩) ∈ Exchange.events ⟨.cross s, c⟩ ∧
      alternating (.ofNat 3) = some ⟨0, .ofNat 2⟩ ∧
      ∀ y ∈ (Estimator.cross quick).exchanges calls ++ [⟨.cross s, c⟩],
        ¬ y.RecordsOriginal (.ofNat 3) := by
  intro calls c
  obtain ⟨s, hs⟩ := quick.after_state calls
  have history : Estimator.SinceReset ((Estimator.cross quick).exchanges calls) (.cross s) :=
    hs ▸ .of_fresh fresh_quick (by decide +kernel)
  have run : (Estimator.cross quick).exchanges calls ++ [⟨.cross s, c⟩] =
      (Estimator.cross quick).exchanges (calls ++ [c]) := by
    rw [Estimator.exchanges_concat, hs]
  have window : ∀ x ∈ (Estimator.cross quick).exchanges (calls ++ [c]), ∀ n ∈ x.call.packet?,
      n.InWindow (.ofNat 1) := by
    decide +kernel
  have routed : ∀ x ∈ (Estimator.cross quick).exchanges (calls ++ [c]),
      x.call.Routed alternating := by
    decide +kernel
  have unrepaired : RepairsReported ((Estimator.cross quick).exchanges calls) := by
    intro pre x post a hxs hcall
    have hx : x ∈ (Estimator.cross quick).exchanges calls := by rw [hxs]; simp
    have hmem := Estimator.call_mem_of_mem_exchanges hx
    simp [calls, hcall] at hmem
  have lost : .lost (.ofNat 3) (some ⟨0, .ofNat 2⟩) ∈ Exchange.events ⟨.cross s, c⟩ := by
    have reported : .lost (.ofNat 3) (some ⟨0, .ofNat 2⟩) ∈
        Exchange.events ⟨(Estimator.cross quick).after calls, c⟩ := by
      decide +kernel
    rwa [hs] at reported
  rw [← run] at window routed
  exact ⟨s, sends_alternating, history, lost,
    gap_losses_routed sends_alternating history c window routed unrepaired _ _ lost⟩

end CrossPath
end LossWatch
