import LossWatch.Proofs.Estimator.Exchanges
import Mathlib.Data.List.Basic

/-!
No loss is reported twice or without ground. While all numbers an estimator handles lie in one window
and no reset forgets the ledger, the reports of a number follow the marks the ledger has of it: at
most one loss, none once the packet or its repair was recorded, and a false alarm only when the packet
itself comes after its loss and before its repair.
-/

namespace LossWatch

def LossMark.report : LossMark → Option Bool
  | .lost => some true
  | .late => some false
  | .arrived | .repaired => none

theorem LossMark.Possible.report_prefix {marks : List LossMark} (h : LossMark.Possible marks) :
    marks.filterMap LossMark.report <+: [true, false] := by
  have hall : ∀ marks ∈ [[], [LossMark.lost], [.lost, .late], [.lost, .repaired], [.arrived],
      [.repaired]], marks.filterMap LossMark.report <+: [true, false] := by decide
  exact hall marks h

namespace Exchange

def handled (x : Exchange) : List SeqNumber :=
  match x.call with
  | .arrival _ a => a.seq :: x.before.awaited
  | .repair a => a.seq :: x.before.awaited
  | _ => x.before.awaited

def RecordsOriginal (x : Exchange) (s : SeqNumber) : Prop :=
  ∃ r, x.original? = some (s, r) ∧ r.isRecorded = true

def RecordsRepair (x : Exchange) (s : SeqNumber) : Prop :=
  ∃ r, x.repair? = some (s, r) ∧ r.isRecorded = true

def ReportsLoss (x : Exchange) (s : SeqNumber) : Prop :=
  ∃ position, LossEvent.lost s position ∈ x.events

def ReportsFalseAlarm (x : Exchange) (s : SeqNumber) : Prop :=
  ∃ position, LossEvent.falsePositive s position ∈ x.events

/-! ### The marks of one exchange -/

def packetMarks (x : Exchange) (s : SeqNumber) : List LossMark :=
  match x.original?, x.repair? with
  | some (n, r), _ => if n = s then r.arrivalMark else []
  | none, some (n, r) => if n = s then r.repairMark else []
  | none, none => []

/-- What the ledger notes of `s`: the packet first, then its loss. -/
def marks (x : Exchange) (s : SeqNumber) : List LossMark :=
  x.packetMarks s ++ (x.events.filter fun e => e.isLost && e.seq = s).map fun _ => .lost

variable {x : Exchange} {base s : SeqNumber}

theorem fits_window (hwin : ∀ n ∈ x.handled, n.InWindow base) : x.Fits (.window base) := by
  obtain ⟨e, c⟩ := x
  cases c with
  | arrival now a => exact LossScope.admits_window (hwin a.seq (by simp [handled]))
  | repair a => trivial
  | timeout now key => exact hwin
  | withdrawn seq => trivial

theorem packetMarks_of_nothing (ho : x.original? = none) (hr : x.repair? = none) :
    x.packetMarks s = [] := by
  simp only [packetMarks, ho, hr]

theorem packetMarks_of_original {n : SeqNumber} {r : Reception} (h : x.original? = some (n, r)) :
    x.packetMarks s = if n = s then r.arrivalMark else [] := by
  simp only [packetMarks, h]

theorem packetMarks_of_repair {n : SeqNumber} {r : Reception} (h : x.repair? = some (n, r)) :
    x.packetMarks s = if n = s then r.repairMark else [] := by
  have hnone : x.original? = none := by
    cases x.brings with
    | nothing _ _ horiginal _ => exact horiginal
    | original _ _ _ _ _ _ hrepair => simp [hrepair] at h
    | repair _ _ _ _ horiginal _ => exact horiginal
  simp only [packetMarks, hnone, h]

theorem mem_packetMarks {m : LossMark} (h : m ∈ x.packetMarks s) :
    (∃ r, x.original? = some (s, r) ∧ m ∈ r.arrivalMark) ∨
      ∃ r, x.repair? = some (s, r) ∧ m ∈ r.repairMark := by
  have hcase : ∀ {n : SeqNumber} {ms : List LossMark}, m ∈ (if n = s then ms else []) →
      n = s ∧ m ∈ ms := by
    intro n ms hm
    by_cases hn : n = s
    · exact ⟨hn, by rwa [if_pos hn] at hm⟩
    · simp [hn] at hm
  cases x.brings with
  | nothing _ _ horiginal hrepair => simp [packetMarks_of_nothing horiginal hrepair] at h
  | original now a _ _ _ horiginal _ =>
    rw [packetMarks_of_original horiginal] at h
    obtain ⟨rfl, hm⟩ := hcase h
    exact Or.inl ⟨_, horiginal, hm⟩
  | repair a _ _ _ _ hrepair =>
    rw [packetMarks_of_repair hrepair] at h
    obtain ⟨rfl, hm⟩ := hcase h
    exact Or.inr ⟨_, hrepair, hm⟩

theorem shows_recorded {marks : List LossMark} (hm : x.before.ledger.Shows s marks)
    (hw : x.before.ledger.Windowed base) (hwin : ∀ n ∈ x.handled, n.InWindow base)
    (hs : s.InWindow base) :
    x.recorded.Windowed base ∧ x.recorded.Shows s (marks ++ x.packetMarks s) := by
  cases x.brings with
  | nothing hslots _ horiginal hrepair =>
    rw [packetMarks_of_nothing horiginal hrepair, List.append_nil]
    exact ⟨hw.of_slots hslots, hm.of_slots hslots⟩
  | original now a hcall hrecorded _ horiginal _ =>
    have ha : a.seq.InWindow base := hwin a.seq (by simp [handled, hcall])
    have hrecords := x.before.ledger.records_receive now a.seq
    rw [packetMarks_of_original horiginal, hrecorded]
    exact ⟨hrecords.windowed hw ha, hrecords.shows hm hw ha hs⟩
  | repair a hcall hrecorded _ _ hrepair =>
    have ha : a.seq.InWindow base := hwin a.seq (by simp [handled, hcall])
    have hrecords := x.before.ledger.records_receiveRepair a.seq
    rw [packetMarks_of_repair hrepair, hrecorded]
    exact ⟨hrecords.windowed hw ha, hrecords.shows hm hw ha hs⟩

theorem report_falseAlarms (x : Exchange) (s : SeqNumber) :
    (x.falseAlarms.filter (·.seq = s)).map (·.isLost) =
      (x.packetMarks s).filterMap LossMark.report := by
  have hlate : ∀ (r : Reception) (n : SeqNumber) (position : Option FlowPosition),
      ((r.lateReport n position).filter (·.seq = s)).map (·.isLost) =
        (if n = s then r.arrivalMark else []).filterMap LossMark.report := by
    intro r n position
    by_cases hn : n = s <;>
      cases r <;> simp [Reception.lateReport, Reception.arrivalMark, LossEvent.seq,
        LossEvent.isLost, LossMark.report, hn]
  have hnone : ∀ (r : Reception) (n : SeqNumber),
      (if n = s then r.repairMark else []).filterMap LossMark.report = [] := by
    intro r n
    by_cases hn : n = s <;> cases r <;> simp [Reception.repairMark, LossMark.report, hn]
  cases x.brings with
  | nothing _ halarms horiginal hrepair =>
    rw [packetMarks_of_nothing horiginal hrepair, halarms]
    rfl
  | original now a _ _ halarms horiginal _ =>
    rw [packetMarks_of_original horiginal, halarms]
    exact hlate _ _ _
  | repair a _ _ halarms _ hrepair =>
    rw [packetMarks_of_repair hrepair, halarms]
    exact (hnone _ _).symm

theorem losses_of_logged {rest : Step Estimator} {R : LossRecord}
    (hevents : x.events = x.falseAlarms ++ emitted rest.actions)
    (hlogged : rest.Logged Estimator.lossRecord (.window base) R) :
    x.events.filter (fun e => e.isLost && e.seq = s) =
      (emitted rest.actions).filter (·.seq = s) := by
  have hfalse : x.falseAlarms.filter (fun e => e.isLost && e.seq = s) = [] := by
    apply List.filter_eq_nil_iff.mpr
    intro e he
    simp [(mem_falseAlarms he).1]
  rw [hevents, List.filter_append, hfalse, List.nil_append]
  apply List.filter_congr
  intro e he
  simp [(hlogged.events e he).1]

theorem report_marks (hwin : ∀ n ∈ x.handled, n.InWindow base)
    (hrec : x.before.lossRecord.Within (.window base)) (s : SeqNumber) :
    (x.events.filter (·.seq = s)).map (·.isLost) = (x.marks s).filterMap LossMark.report := by
  obtain ⟨rest, -, hevents, hlogged⟩ := events_logged (fits_window hwin) hrec
  have hlost : ((emitted rest.actions).filter (·.seq = s)).map (·.isLost) =
      (((emitted rest.actions).filter (·.seq = s)).map fun _ => LossMark.lost).filterMap
        LossMark.report := by
    have hreports : (((emitted rest.actions).filter (·.seq = s)).map fun _ =>
        LossMark.lost).filterMap LossMark.report =
          ((emitted rest.actions).filter (·.seq = s)).map fun _ => true := by
      rw [List.filterMap_map]
      exact congrFun (List.filterMap_eq_map (f := fun _ => true)) _
    rw [hreports]
    exact List.map_congr_left fun e he => (hlogged.events e (List.mem_filter.mp he).1).1
  rw [marks, losses_of_logged hevents hlogged, List.filterMap_append, ← report_falseAlarms,
    ← hlost, hevents, List.filter_append, List.map_append]

/-- Without a reset the ledger shows the marks of the exchange after those before. -/
theorem shows_after {marks : List LossMark} (hwin : ∀ n ∈ x.handled, n.InWindow base)
    (hrec : x.before.lossRecord.Within (.window base)) (hw : x.before.ledger.Windowed base)
    (hm : x.before.ledger.Shows s marks) (hs : s.InWindow base)
    (hresets : x.step.state.diagnostics.resets = x.before.diagnostics.resets) :
    x.step.state.ledger.Windowed base ∧ x.step.state.ledger.Shows s (marks ++ x.marks s) := by
  obtain ⟨rest, hstate, hevents, hlogged⟩ := events_logged (fits_window hwin) hrec
  obtain ⟨hw', hm'⟩ := shows_recorded hm hw hwin hs
  rw [hstate] at hresets ⊢
  have hdeclared := hlogged.declares (by
    rw [Estimator.resets_lossRecord, hresets, ← Estimator.resets_lossRecord])
  rw [Estimator.ledger_lossRecord] at hdeclared
  have hshows := hdeclared.shows hm' hw' hs fun n hn => by
    obtain ⟨e, he, rfl⟩ := List.mem_map.mp hn
    exact (hlogged.events e he).2
  rw [List.filter_map, List.map_map, List.append_assoc] at hshows
  rw [Exchange.marks, losses_of_logged hevents hlogged]
  exact hshows

theorem marks_eq_nil (hwin : ∀ n ∈ x.handled, n.InWindow base)
    (hrec : x.before.lossRecord.Within (.window base)) (hs : ¬ s.InWindow base) : x.marks s = [] := by
  obtain ⟨rest, -, hevents, hlogged⟩ := events_logged (fits_window hwin) hrec
  have hlosses : (emitted rest.actions).filter (·.seq = s) = [] := by
    apply List.filter_eq_nil_iff.mpr
    intro e he
    have hseq : e.seq ≠ s := fun h => hs (h ▸ (hlogged.events e he).2)
    simpa using hseq
  have hpacket : x.packetMarks s = [] := by
    have hne : ∀ n ∈ x.handled, n ≠ s := fun n hn h => hs (h ▸ hwin n hn)
    cases x.brings with
    | nothing _ _ horiginal hrepair => exact packetMarks_of_nothing horiginal hrepair
    | original now a hcall _ _ horiginal _ =>
      rw [packetMarks_of_original horiginal, if_neg (hne a.seq (by simp [handled, hcall]))]
    | repair a hcall _ _ _ hrepair =>
      rw [packetMarks_of_repair hrepair, if_neg (hne a.seq (by simp [handled, hcall]))]
  rw [marks, hpacket, losses_of_logged hevents hlogged, hlosses]
  rfl

end Exchange

/-! ### Every run of calls -/

namespace Estimator

variable {e : Estimator} {base s : SeqNumber} {calls : List EstimatorCall}

theorem shows_run {marks : List LossMark} (hrec : e.lossRecord.Within (.window base))
    (hwin : ∀ x ∈ e.exchanges calls, ∀ n ∈ x.handled, n.InWindow base)
    (hw : e.ledger.Windowed base) (hm : e.ledger.Shows s marks) (hs : s.InWindow base)
    (hresets : (e.after calls).diagnostics.resets = e.diagnostics.resets) :
    (e.after calls).ledger.Shows s (marks ++ (e.exchanges calls).flatMap (·.marks s)) := by
  induction calls generalizing e marks with
  | nil => simpa [exchanges, after] using hm
  | cons c calls ih =>
    have hfirst := hwin ⟨e, c⟩ (by simp [exchanges])
    have hrest := fun x hx => hwin x (List.mem_cons_of_mem (⟨e, c⟩ : Exchange) hx)
    have hrec' := Exchange.within_after (Exchange.fits_window hfirst) hrec
    obtain ⟨hcall, hcalls⟩ := unreset_append [c] calls hresets
    obtain ⟨hw', hm'⟩ := Exchange.shows_after hfirst hrec hw hm hs hcall
    have hshows := ih hrec' hrest hw' hm' hcalls
    rw [List.append_assoc] at hshows
    exact hshows

theorem Fresh.lossRecord_eq (he : e.Fresh) : e.lossRecord = ⟨.initial, 0, false, []⟩ := by
  cases he <;> rfl

theorem Fresh.within (he : e.Fresh) : e.lossRecord.Within (.window base) := by
  rw [he.lossRecord_eq]
  intro n hn
  simp at hn

theorem possible_run (he : e.Fresh)
    (hwin : ∀ x ∈ e.exchanges calls, ∀ n ∈ x.handled, n.InWindow base)
    (hresets : (e.after calls).diagnostics.resets = 0) (s : SeqNumber) :
    LossMark.Possible ((e.exchanges calls).flatMap (·.marks s)) := by
  by_cases hs : s.InWindow base
  · have hledger : e.ledger = .initial := by rw [← e.ledger_lossRecord, he.lossRecord_eq]
    have hw : e.ledger.Windowed base := hledger ▸ LossLedger.windowed_ofHistory base 1024
    have hm : e.ledger.Shows s [] := hledger ▸ LossLedger.shows_ofHistory 1024 s
    have hnone : e.diagnostics.resets = 0 := by rw [← e.resets_lossRecord, he.lossRecord_eq]
    exact (shows_run he.within hwin hw hm hs (hresets.trans hnone.symm)).possible
  · have hnil : (e.exchanges calls).flatMap (·.marks s) = [] := by
      apply List.flatMap_eq_nil_iff.mpr
      intro x hx
      have hrec := within_run he.within (fun y hy => Exchange.fits_window (hwin y hy)) x hx
      exact Exchange.marks_eq_nil (hwin x hx) hrec hs
    rw [hnil]
    exact List.mem_cons_self

end Estimator

namespace Exchange

variable {x : Exchange} {s : SeqNumber}

theorem lost_mem_marks (h : x.ReportsLoss s) : LossMark.lost ∈ x.marks s := by
  obtain ⟨position, he⟩ := h
  refine List.mem_append_right _ (List.mem_map.mpr ⟨_, List.mem_filter.mpr ⟨he, ?_⟩, rfl⟩)
  simp [LossEvent.isLost, LossEvent.seq]

theorem reportsLoss_of_mem (h : LossMark.lost ∈ x.marks s) : x.ReportsLoss s := by
  rcases List.mem_append.mp h with hp | hl
  · rcases mem_packetMarks hp with ⟨r, -, hr⟩ | ⟨r, -, hr⟩
    · cases r <;> simp [Reception.arrivalMark] at hr
    · cases r <;> simp [Reception.repairMark] at hr
  · obtain ⟨ev, hev, -⟩ := List.mem_map.mp hl
    obtain ⟨hmem, hkind⟩ := List.mem_filter.mp hev
    cases ev with
    | lost n position =>
      have hn : n = s := of_decide_eq_true hkind
      exact ⟨position, hn ▸ hmem⟩
    | falsePositive n position => simp [LossEvent.isLost] at hkind

instance (x : Exchange) (s : SeqNumber) : Decidable (x.ReportsLoss s) :=
  decidable_of_iff (LossMark.lost ∈ x.marks s) ⟨reportsLoss_of_mem, lost_mem_marks⟩

theorem late_mem_marks {base : SeqNumber} (hwin : ∀ n ∈ x.handled, n.InWindow base)
    (hrec : x.before.lossRecord.Within (.window base)) (h : x.ReportsFalseAlarm s) :
    LossMark.late ∈ x.marks s := by
  obtain ⟨position, hev⟩ := h
  have hfalse : false ∈ (x.events.filter (·.seq = s)).map (·.isLost) :=
    List.mem_map.mpr ⟨_, List.mem_filter.mpr ⟨hev, by simp [LossEvent.seq]⟩, rfl⟩
  rw [report_marks hwin hrec] at hfalse
  obtain ⟨m, hm, hreport⟩ := List.mem_filterMap.mp hfalse
  cases m with
  | late => exact hm
  | lost => simp [LossMark.report] at hreport
  | arrived => simp [LossMark.report] at hreport
  | repaired => simp [LossMark.report] at hreport

theorem marks_of_records (h : x.RecordsOriginal s ∨ x.RecordsRepair s) :
    ∃ m, x.packetMarks s = [m] ∧ m ≠ .lost := by
  rcases h with ⟨r, hr, hrec⟩ | ⟨r, hr, hrec⟩
  · rw [packetMarks_of_original hr, if_pos rfl]
    cases r <;> simp_all [Reception.isRecorded, Reception.arrivalMark]
  · rw [packetMarks_of_repair hr, if_pos rfl]
    cases r <;> simp_all [Reception.isRecorded, Reception.repairMark]

theorem records_of_late_mem (h : LossMark.late ∈ x.marks s) :
    x.RecordsOriginal s ∧ x.packetMarks s = [.late] := by
  rcases List.mem_append.mp h with hp | hl
  · rcases mem_packetMarks hp with ⟨r, horiginal, hr⟩ | ⟨r, -, hr⟩
    · rw [packetMarks_of_original horiginal, if_pos rfl]
      cases r with
      | falsePositive d => exact ⟨⟨_, horiginal, rfl⟩, rfl⟩
      | fresh => simp [Reception.arrivalMark] at hr
      | recovered => simp [Reception.arrivalMark] at hr
      | duplicate => simp [Reception.arrivalMark] at hr
      | stale => simp [Reception.arrivalMark] at hr
    · cases r <;> simp [Reception.repairMark] at hr
  · obtain ⟨e, -, he⟩ := List.mem_map.mp hl
    simp at he

end Exchange

theorem flatMap_marks_eq_singleton {xs : List Exchange} {s : SeqNumber} {m : LossMark}
    (h : xs.flatMap (·.marks s) = [m]) :
    ∃ pre y post, xs = pre ++ y :: post ∧ y.marks s = [m] ∧ ∀ z ∈ post, z.marks s = [] := by
  induction xs with
  | nil => simp at h
  | cons x xs ih =>
    rw [List.flatMap_cons] at h
    rcases List.append_eq_singleton_iff.mp h with ⟨-, hxs⟩ | ⟨hx, hxs⟩
    · obtain ⟨pre, y, post, rfl, hy, hpost⟩ := ih hxs
      exact ⟨x :: pre, y, post, rfl, hy, hpost⟩
    · exact ⟨[], x, xs, rfl, hx, List.flatMap_eq_nil_iff.mp hxs⟩

namespace Estimator

/-- From a fresh estimator on, a number is reported lost at most once and then called a false alarm
at most once. No loss is reported from the record of the packet or its repair on. A false alarm is
the packet's own arrival after its loss, with no repair recorded in between. -/
theorem loss_reports_sound {e : Estimator} (he : e.Fresh) {base : SeqNumber}
    {calls : List EstimatorCall}
    (window : ∀ x ∈ e.exchanges calls, ∀ n ∈ x.handled, n.InWindow base)
    (unreset : (e.after calls).diagnostics.resets = 0) (s : SeqNumber) :
    (((e.exchanges calls).flatMap (·.events)).filter (·.seq = s)).map (·.isLost) <+:
        [true, false] ∧
      (∀ pre x post, e.exchanges calls = pre ++ x :: post →
        x.RecordsOriginal s ∨ x.RecordsRepair s → ∀ y ∈ x :: post, ¬ y.ReportsLoss s) ∧
      ∀ pre x post, e.exchanges calls = pre ++ x :: post → x.ReportsFalseAlarm s →
        x.RecordsOriginal s ∧ ∃ before y between, pre = before ++ y :: between ∧
          y.ReportsLoss s ∧ ∀ z ∈ between, ¬ z.RecordsRepair s := by
  have hpossible := possible_run he window unreset s
  have hwithin := within_run he.within fun x hx => Exchange.fits_window (window x hx)
  refine ⟨?_, ?_, ?_⟩
  · have hreports : (((e.exchanges calls).flatMap (·.events)).filter (·.seq = s)).map (·.isLost) =
        ((e.exchanges calls).flatMap (·.marks s)).filterMap LossMark.report := by
      rw [List.filter_flatMap, List.map_flatMap, List.filterMap_flatMap]
      exact List.flatMap_congr fun x hx => Exchange.report_marks (window x hx) (hwithin x hx) s
    rw [hreports]
    exact hpossible.report_prefix
  -- The record leaves a mark that is no loss, and no loss is possible behind such a mark.
  · intro pre x post hxs hrec y hy hloss
    obtain ⟨m, hm, hne⟩ := Exchange.marks_of_records hrec
    rw [hxs, List.flatMap_append, List.flatMap_cons, Exchange.marks, hm, List.append_assoc,
      List.singleton_append] at hpossible
    have hnot := hpossible.not_lost_after hne
    have hmem := Exchange.lost_mem_marks hloss
    rcases List.mem_cons.mp hy with rfl | hy
    · rw [Exchange.marks, hm, List.singleton_append, List.mem_cons] at hmem
      rcases hmem with heq | hmem
      · exact hne heq.symm
      · exact hnot (List.mem_append_left _ hmem)
    · exact hnot (List.mem_append_right _ (List.mem_flatMap.mpr ⟨y, hy, hmem⟩))
  -- The mark of a late arrival has one mark before it, a loss; the exchange that left it is `y`.
  · intro pre x post hxs hfalse
    have hx : x ∈ e.exchanges calls := by simp [hxs]
    have hlate := Exchange.late_mem_marks (window x hx) (hwithin x hx) hfalse
    obtain ⟨horiginal, hpacket⟩ := Exchange.records_of_late_mem hlate
    rw [hxs, List.flatMap_append, List.flatMap_cons, Exchange.marks, hpacket, List.append_assoc,
      List.singleton_append] at hpossible
    obtain ⟨before, y, between, rfl, hy, hbetween⟩ :=
      flatMap_marks_eq_singleton hpossible.before_late
    refine ⟨horiginal, before, y, between, rfl, ?_, fun z hz hrepair => ?_⟩
    · exact Exchange.reportsLoss_of_mem (hy ▸ List.mem_singleton_self _)
    · obtain ⟨m, hm, -⟩ := Exchange.marks_of_records (Or.inr hrepair)
      have hnil := hbetween z hz
      simp [Exchange.marks, hm] at hnil

theorem loss_reports_sound_of_false_alarm :
    let e : Estimator := .single
      { config := {}
        predictor := .movingAverage ⟨⟨1, []⟩, ⟨1, []⟩, 5, 1.0, none, 0.0, 0⟩ }
    let calls : List EstimatorCall :=
      [.arrival .zero ⟨.ofNat 1, none⟩, .arrival (.ofMillis 20) ⟨.ofNat 3, none⟩,
        .arrival (.ofMillis 25) ⟨.ofNat 2, none⟩, .repair ⟨.ofNat 2, none⟩,
        .timeout (.ofMillis 30) .basic]
    let reports := (((e.exchanges calls).flatMap (·.events)).filter (·.seq = .ofNat 2)).map
      (·.isLost)
    (∀ x ∈ e.exchanges calls, ∀ n ∈ x.handled, n.InWindow (.ofNat 1)) ∧
      (e.after calls).diagnostics.resets = 0 ∧ reports = [true, false] ∧
      reports <+: [true, false] := by
  intro e calls reports
  have window : ∀ x ∈ e.exchanges calls, ∀ n ∈ x.handled, n.InWindow (.ofNat 1) := by
    decide +kernel
  have unreset : (e.after calls).diagnostics.resets = 0 := by decide +kernel
  exact ⟨window, unreset, by decide +kernel,
    (loss_reports_sound (.single _ _) window unreset (.ofNat 2)).1⟩

end Estimator
end LossWatch
