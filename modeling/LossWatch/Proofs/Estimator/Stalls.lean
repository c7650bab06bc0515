import LossWatch.Proofs.Estimator.LossBudget
import Mathlib.Data.List.DropRight

/-!
A stall declares a bounded number of losses. Losses declared by timers make up a row that an accepted
arrival or a reset ends, and the estimator counts exactly that row. The expiry that brings the row to
the ceiling starts the estimator over in the same step, and from then on no timer is armed and no
expiry reports anything until an arrival is accepted.
-/

namespace LossWatch

/-- A row of losses goes on below the ceiling, or it is over and the reset is counted. -/
inductive RowGrows (ceiling row resets losses : Nat) : Nat → Nat → Prop
  | on (few : losses = 0 ∨ row + losses < ceiling) :
      RowGrows ceiling row resets losses (row + losses) resets
  | ended : RowGrows ceiling row resets losses 0 (resets + 1)

namespace SinglePath

variable {s s' : SinglePath} {now : Timestamp} {seq : SeqNumber} {p : ExpectedPacket}
  {lost : List SeqNumber}

theorem Accepted.consecutiveLosses (h : s.Accepted now seq s' lost) : s'.consecutiveLosses = 0 := by
  have hadvanced : ∀ {t u : SinglePath} {lost : List SeqNumber}, t.Advanced now seq u lost →
      u.consecutiveLosses = t.consecutiveLosses := by
    intro t u lost h
    cases h <;> rfl
  cases h with
  | waiting advanced _ _ => exact hadvanced advanced
  | rearmed advanced timer => exact timer.consecutiveLosses.trans (hadvanced advanced)

theorem Expired.grows (h : s.Expired p s' lost) :
    RowGrows s.config.maxConsecutiveLosses s.consecutiveLosses s.counters.resets lost.length
      s'.consecutiveLosses s'.counters.resets := by
  cases h with
  | received _ resets timer =>
    rw [timer.consecutiveLosses, timer.resets, resets]
    exact .on (Or.inl rfl)
  | moved _ _ few _ resets =>
    rw [resets]
    exact .on (Or.inr few)
  | reset _ _ _ resets =>
    rw [resets]
    exact .ended

theorem grows_onTimeout (s : SinglePath) (now : Timestamp) (key : TimerKey) :
    RowGrows s.config.maxConsecutiveLosses s.consecutiveLosses s.counters.resets
      (lossesIn (s.onTimeout now key).actions) (s.onTimeout now key).state.consecutiveLosses
      (s.onTimeout now key).state.counters.resets := by
  rcases s.onTimeout_cases now key with hstay | ⟨p, lost, -, -, hemitted, hexpired⟩
  · rw [hstay]
    exact .on (Or.inl rfl)
  · rw [lossesIn, hemitted, countP_losses]
    exact hexpired.grows

end SinglePath

namespace CrossPath

variable {s s' : CrossPath} {now : Timestamp} {seq : SeqNumber}

/-! ### Arrivals leave the row of the cross-path estimator alone -/

theorem SameRow.of_sameRecord (h : s.SameRecord s') : s.SameRow s' :=
  ⟨h.config, h.consecutiveLosses⟩

theorem sameRow_settleLong (s : CrossPath) (seq : SeqNumber) :
    s.SameRow (s.settleLong seq).state := by
  obtain ⟨long, hstate, -⟩ := s.settleLong_state seq
  rw [hstate]
  exact ⟨rfl, rfl⟩

theorem sameRow_reconcileShort (s : CrossPath) (now : Timestamp) (seq : SeqNumber) :
    s.SameRow (s.reconcileShort now seq).state := by
  rw [reconcileShort]
  split
  · exact .refl s
  · split
    · exact .refl s
    · rename_i short _ _
      obtain ⟨counters, -, hcounted⟩ := s.resync_state short
      rw [hcounted, Step.state_andThen]
      refine SameRow.trans ?_ (sameRow_armShort _ now _ _)
      split
      · exact ⟨rfl, rfl⟩
      · obtain ⟨long, hstate, -⟩ :=
          covering_forEach now (short.expected.prev.between seq) { s with counters }
        rw [hstate]
        exact ⟨rfl, rfl⟩

theorem sameRow_tryStart (s : CrossPath) (now : Timestamp) (seq : SeqNumber)
    (update : FlowUpdate) : s.SameRow (s.tryStart now seq update).state := by
  rw [tryStart]
  split
  · exact .of_sameRecord (s.sameRecord_loseReference.trans (sameRecord_anchorReference _ seq))
  · split
    · exact (SameRow.of_sameRecord (s.sameRecord_advance _)).trans (sameRow_armShort _ now _ _)
    · exact .refl s

theorem sameRow_keepRunning (s : CrossPath) (now : Timestamp) (seq : SeqNumber)
    (o : Observation) : s.SameRow (s.keepRunning now seq o).state := by
  cases o with
  | delta =>
    exact (SameRow.of_sameRecord (s.sameRecord_advance _)).trans (sameRow_reconcileShort _ now seq)
  | cross =>
    exact (SameRow.of_sameRecord (s.sameRecord_advance _)).trans (sameRow_reconcileShort _ now seq)
  | stale => exact s.sameRow_reconcileShort now seq

theorem sameRow_dispatch (s : CrossPath) (now : Timestamp) (seq : SeqNumber) (onFastest : Bool)
    (update : FlowUpdate) (o : Observation) :
    s.SameRow (s.dispatch now seq onFastest update o).state := by
  rw [dispatch]
  cases s.phase with
  | learnFlowOrder => exact .refl s
  | learnPathDifference =>
    dsimp only
    rw [Step.state_stay]
    split
    · exact .of_sameRecord (s.sameRecord_anchorReference seq)
    · exact .refl s
  | learnAwaitingAlternate => exact .of_sameRecord (s.sameRecord_awaitAlternate seq onFastest update)
  | estAwaitingFastest =>
    dsimp only
    split
    · exact s.sameRow_tryStart now seq update
    · exact .refl s
  | estRunningA => exact s.sameRow_keepRunning now seq o
  | estRunningB => exact s.sameRow_keepRunning now seq o

theorem sameRow_follow (s : CrossPath) (now : Timestamp) (seq : SeqNumber)
    (position : FlowPosition) : s.SameRow (s.follow now seq position).state := by
  let recorded : CrossPath :=
    { s with flows := (s.flows.record position.flow ⟨seq, position.flowSeq, now⟩).2 }
  have hrecorded : s.SameRow recorded := ⟨rfl, rfl⟩
  have hread : recorded.SameRow (if recorded.phase.isRunning = true then Step.stay recorded
      else recorded.declareFlowGap now seq position
        (s.flows.record position.flow ⟨seq, position.flowSeq, now⟩).1).state := by
    split
    · exact .refl recorded
    · obtain ⟨ledger, counters, -, -, hstate⟩ := recorded.declareFlowGap_state now seq position
        (s.flows.record position.flow ⟨seq, position.flowSeq, now⟩).1
      rw [hstate]
      exact ⟨rfl, rfl⟩
  have huse : ∀ (t : CrossPath) (update : FlowUpdate), t.SameRow
      (if t.phase = .learnFlowOrder then t.learn seq position.flow
      else (t.observe now seq position.flow).2.andThen fun u =>
        u.dispatch now seq (u.fastest? = some position.flow) update
          (t.observe now seq position.flow).1).state := by
    intro t update
    split
    · exact .of_sameRecord (t.sameRecord_learn seq position.flow).1
    · exact (SameRow.of_sameRecord (t.sameRecord_observe now seq position.flow).1).trans
        (sameRow_dispatch _ now seq _ update _)
  exact hrecorded.trans (hread.trans (huse _ _))

theorem consecutiveLosses_accept (s : CrossPath) (now : Timestamp) (seq : SeqNumber)
    (position : FlowPosition) : (s.accept now seq position).state.consecutiveLosses = 0 := by
  rw [accept]
  generalize hm : ({ s with consecutiveLosses := 0, maxSeen := _ } : CrossPath) = moved
  have hrow := (moved.sameRow_settleLong seq).trans (sameRow_follow _ now seq position)
  exact hrow.consecutiveLosses.trans (by rw [← hm])

theorem consecutiveLosses_onArrival {a : Arrival} (hrun : s.stopped = false)
    (hrecorded : (s.ledger.receive now a.seq).1.isRecorded = true) :
    (s.onArrival now a).state.consecutiveLosses = 0 := by
  rw [onArrival, if_neg (by simp [hrun])]
  dsimp only
  cases hr : (s.ledger.receive now a.seq).1 with
  | duplicate => simp [hr, Reception.isRecorded] at hrecorded
  | stale => simp [hr, Reception.isRecorded] at hrecorded
  | fresh => exact consecutiveLosses_accept _ now a.seq _
  | recovered => exact consecutiveLosses_accept _ now a.seq _
  | falsePositive lateBy => exact consecutiveLosses_accept _ now a.seq _

/-! ### Its expiries -/

theorem row_breakStall (s : CrossPath) :
    (s.consecutiveLosses < s.config.maxConsecutiveLosses ∧ s.breakStall = .stay s) ∨
      (s.breakStall.state.consecutiveLosses = 0 ∧
        s.breakStall.state.counters.resets = s.counters.resets + 1) := by
  rw [breakStall]
  split
  · rw [Step.state_andThen, Step.state_note, fullReset_state]
    exact Or.inr ⟨rfl, rfl⟩
  · exact Or.inl ⟨Nat.lt_of_not_le ‹_›, rfl⟩

theorem grows_declareLongLoss (s : CrossPath) (now : Timestamp) (seq : SeqNumber) :
    let r := (s.declareLongLoss now seq).andThen breakStall
    RowGrows s.config.maxConsecutiveLosses s.consecutiveLosses s.counters.resets
      (lossesIn r.actions) r.state.consecutiveLosses r.state.counters.resets := by
  intro r
  have hdeclared := s.row_declareLongLoss now seq
  rw [s.lossesIn_breakStall, show r.state = (s.declareLongLoss now seq).state.breakStall.state
    from rfl]
  generalize s.declareLongLoss now seq = declared at hdeclared ⊢
  rcases hdeclared with ⟨hlosses, hstate⟩ | ⟨hlosses, hrow, hconfig, hresets⟩
  · rw [hstate, hlosses]
    rcases s.row_breakStall with ⟨-, hstay⟩ | ⟨hended, hcounted⟩
    · rw [hstay]
      exact .on (Or.inl rfl)
    · rw [hended, hcounted]
      exact .ended
  · rcases declared.state.row_breakStall with ⟨few, hstay⟩ | ⟨hended, hcounted⟩
    · rw [hrow, hconfig] at few
      rw [hstay, Step.state_stay, hrow, hresets, hlosses]
      exact .on (Or.inr few)
    · rw [hended, hcounted, hresets]
      exact .ended

theorem grows_onLongTimeout (s : CrossPath) (now : Timestamp) (seq : SeqNumber) :
    RowGrows s.config.maxConsecutiveLosses s.consecutiveLosses s.counters.resets
      (lossesIn (s.onLongTimeout now seq).actions) (s.onLongTimeout now seq).state.consecutiveLosses
      (s.onLongTimeout now seq).state.counters.resets := by
  rw [onLongTimeout]
  split
  · exact .on (Or.inl rfl)
  · dsimp only
    split
    · exact .on (Or.inl rfl)
    · let counted : CrossPath := count { s with long := s.long.erase seq } fun c =>
        { c with longTimeouts := c.longTimeouts + 1 }
      exact grows_declareLongLoss counted now seq

theorem grows_onTimeout (s : CrossPath) (now : Timestamp) (key : TimerKey) :
    RowGrows s.config.maxConsecutiveLosses s.consecutiveLosses s.counters.resets
      (lossesIn (s.onTimeout now key).actions) (s.onTimeout now key).state.consecutiveLosses
      (s.onTimeout now key).state.counters.resets := by
  simp only [onTimeout]
  split
  · exact .on (Or.inl rfl)
  · cases key with
    | basic => exact .on (Or.inl rfl)
    | short =>
      dsimp only
      rw [lossesIn_eq_zero (s.emitted_onShortTimeout now),
        (s.sameRow_onShortTimeout now).consecutiveLosses, (s.coheres_onShortTimeout now).resets]
      exact .on (Or.inl rfl)
    | long seq => exact s.grows_onLongTimeout now seq

end CrossPath

/-! ### Either estimator -/

namespace Estimator

variable {e : Estimator} {c : EstimatorCall}

def Grows (e : Estimator) (losses : Nat) (e' : Estimator) : Prop :=
  RowGrows e.lossCeiling e.diagnostics.consecutiveLosses e.diagnostics.resets losses
    e'.diagnostics.consecutiveLosses e'.diagnostics.resets

theorem grows_onTimeout (e : Estimator) (now : Timestamp) (key : TimerKey) :
    e.Grows (lossesIn (e.onTimeout now key).actions) (e.onTimeout now key).state := by
  cases e with
  | single s => exact s.grows_onTimeout now key
  | cross c => exact c.grows_onTimeout now key

/-! ### Without timers -/

theorem lossBudget_eq_zero_iff (e : Estimator) :
    e.lossBudget = 0 ↔ ∀ key, e.book.deadline key = none := by
  have hleft : ∀ waiting ceiling row, lossesLeft waiting ceiling row = 0 ↔ waiting = false := by
    intro waiting ceiling row
    cases waiting with
    | true => exact iff_of_false (by rw [lossesLeft]; simp) (by simp)
    | false => exact iff_of_true rfl rfl
  cases e with
  | single s =>
    rw [show (single s).lossBudget = s.lossBudget from rfl, SinglePath.lossBudget, hleft]
    constructor
    · intro h key
      cases key with
      | basic => simpa [book, SinglePath.book, SinglePath.deadline] using h
      | short => rfl
      | long n => rfl
    · intro h
      simpa [book, SinglePath.book, SinglePath.deadline] using h .basic
  | cross c =>
    rw [show (cross c).lossBudget = c.lossBudget from rfl, CrossPath.lossBudget, hleft,
      Bool.or_eq_false_iff]
    constructor
    · rintro ⟨hshort, hlong⟩ key
      have hnil : c.long = [] := by simpa using hlong
      cases key with
      | basic => rfl
      | short => simpa [book, CrossPath.book, CrossPath.shortDeadline] using hshort
      | long n => simp [book, CrossPath.book, hnil, LongTimers.deadline?]
    · intro h
      have hlong : c.long = [] := by
        apply LongTimers.eq_nil
        intro n
        rw [LongTimers.has_eq, show c.long.deadline? n = none from h (.long n)]
        rfl
      exact ⟨by simpa [book, CrossPath.book, CrossPath.shortDeadline] using h .short,
        by simp [hlong]⟩

theorem Renewed.lossBudget (h : e.Renewed) : e.lossBudget = 0 := by
  have hsame : e.uncounted.lossBudget = e.lossBudget := by cases e <;> rfl
  have hnone : e.unlearnt.lossBudget = 0 := by cases e <;> rfl
  rw [← hsame, h, hnone]

theorem onTimeout_of_unarmed {key : TimerKey} (h : e.book.deadline key = none) (now : Timestamp) :
    e.onTimeout now key = .stay e := by
  cases e with
  | single s =>
    have hstay : s.onTimeout now key = .stay s := by
      rcases s.onTimeout_cases now key with hstay | ⟨p, lost, hrun, hp, -, -⟩
      · exact hstay
      · cases key with
        | basic => simp [book, SinglePath.book, SinglePath.deadline, hp] at h
        | short => simp [SinglePath.onTimeout]
        | long n => simp [SinglePath.onTimeout]
    rw [onTimeout, hstay]
    rfl
  | cross c =>
    have hstay : c.onTimeout now key = .stay c := by
      simp only [CrossPath.onTimeout]
      split
      · rfl
      · cases key with
        | basic => rfl
        | short =>
          have hshort : c.short = none := by
            simpa [book, CrossPath.book, CrossPath.shortDeadline] using h
          simp only [CrossPath.onShortTimeout, hshort]
        | long n =>
          have hlong : c.hasLong n = false := by
            rw [CrossPath.hasLong, LongTimers.has_eq, show c.long.deadline? n = none from h]
            rfl
          simp [CrossPath.onLongTimeout, hlong]
    rw [onTimeout, hstay]
    rfl

/-! ### Arrivals -/

/-- The call brings an original that the ledger records. -/
def accepts (e : Estimator) (c : EstimatorCall) : Bool :=
  (Exchange.original? ⟨e, c⟩).any (·.2.isRecorded)

theorem consecutiveLosses_of_accepts (h : e.accepts c = true) :
    (e.call c).state.diagnostics.consecutiveLosses = 0 := by
  cases c with
  | arrival now a =>
    cases hstopped : e.isStopped with
    | true => simp [accepts, Exchange.original?, hstopped] at h
    | false =>
      have hrecorded : (e.ledger.receive now a.seq).1.isRecorded = true := by
        simpa [accepts, Exchange.original?, hstopped] using h
      cases e with
      | single s =>
        obtain ⟨lost, -, harrived⟩ := SinglePath.arrived_onArrival hstopped now a
        show (s.onArrival now a).state.consecutiveLosses = 0
        generalize (s.onArrival now a).state = s' at harrived ⊢
        cases harrived with
        | ignored known => simp [show (s.ledger.receive now a.seq).1.isRecorded = true from hrecorded]
            at known
        | recorded _ _ accepted => exact accepted.consecutiveLosses
      | cross c => exact CrossPath.consecutiveLosses_onArrival hstopped hrecorded
  | repair a => simp [accepts, Exchange.original?] at h
  | timeout now key => simp [accepts, Exchange.original?] at h
  | withdrawn n => simp [accepts, Exchange.original?] at h

theorem onArrival_of_not_accepts {now : Timestamp} {a : Arrival}
    (h : e.accepts (.arrival now a) = false) :
    e.Grows 0 (e.onArrival now a).state ∧
      (e.onArrival now a).state.lossBudget = e.lossBudget := by
  have hsame : e.Grows 0 e := .on (Or.inl rfl)
  cases hstopped : e.isStopped with
  | true =>
    rw [onArrival_of_stopped hstopped, Step.state_stay]
    exact ⟨hsame, rfl⟩
  | false =>
    have hunrecorded : (e.ledger.receive now a.seq).1.isRecorded = false := by
      simpa [accepts, Exchange.original?, hstopped] using h
    rw [onArrival_of_unrecorded hstopped hunrecorded, Step.state_stay]
    cases e <;> exact ⟨hsame, rfl⟩

end Estimator

/-! ### Runs of operations -/

structure Move where
  before : Estimator
  op : EstimatorOp

namespace Move

variable (m : Move)

def after : Estimator := (m.before.perform m.op).state

def accepts : Bool :=
  match m.op with
  | .call c => m.before.accepts c
  | _ => false

def timerLosses : Nat :=
  match m.op with
  | .call (.timeout now key) => lossesIn (m.before.onTimeout now key).actions
  | _ => 0

def resets : Bool := m.before.diagnostics.resets < m.after.diagnostics.resets

def endsRow : Bool := m.accepts || m.resets

/-- An operation either accepts an arrival, or the row grows by what timers declare. -/
inductive Steps : Prop
  | accepted (accepts : m.accepts = true) (row : m.after.diagnostics.consecutiveLosses = 0)
  | grown (ignored : m.accepts = false) (grows : m.before.Grows m.timerLosses m.after)

theorem steps : m.Steps := by
  obtain ⟨e, op⟩ := m
  cases op with
  | call c =>
    cases haccepts : e.accepts c with
    | true => exact .accepted haccepts (Estimator.consecutiveLosses_of_accepts haccepts)
    | false =>
      refine .grown haccepts ?_
      cases c with
      | arrival now a => exact (Estimator.onArrival_of_not_accepts haccepts).1
      | repair a =>
        have hsame : e.Grows 0 (e.onRepair a).state := by
          cases e with
          | single s =>
            rw [Estimator.onRepair, SinglePath.onRepair]
            split <;> exact .on (Or.inl rfl)
          | cross c =>
            cases hstopped : c.stopped with
            | true =>
              rw [Estimator.onRepair, CrossPath.onRepair, if_pos hstopped]
              exact .on (Or.inl rfl)
            | false =>
              obtain ⟨long, hstate, -⟩ := CrossPath.onRepair_state hstopped a
              rw [Estimator.onRepair, Step.state_alter, hstate]
              exact .on (Or.inl rfl)
        exact hsame
      | timeout now key => exact e.grows_onTimeout now key
      | withdrawn n => cases e <;> exact .on (Or.inl rfl)
  | reset =>
    refine .grown rfl ?_
    cases e with
    | single s =>
      have hover : (Estimator.single s).Grows 0 (.single s.fullReset.state) := by
        rw [SinglePath.fullReset_state]
        exact .ended
      exact hover
    | cross c =>
      have hover : (Estimator.cross c).Grows 0 (.cross c.fullReset.state) := by
        rw [CrossPath.fullReset_state]
        exact .ended
      exact hover
  | stop =>
    refine .grown rfl ?_
    cases e with
    | single s =>
      have hstop : (Estimator.single s).Grows 0 (.single s.disarm.state) := by
        rw [SinglePath.disarm_state]
        exact .on (Or.inl rfl)
      exact hstop
    | cross c =>
      have hstop : (Estimator.cross c).Grows 0 (.cross c.cancelTimers.state) := by
        rw [CrossPath.cancelTimers_state]
        exact .on (Or.inl rfl)
      exact hstop

/-- The estimator counts the losses of timers, and anew after an accepted arrival or a reset. -/
theorem row_after : m.after.diagnostics.consecutiveLosses =
    if m.endsRow then 0 else m.before.diagnostics.consecutiveLosses + m.timerLosses := by
  cases m.steps with
  | accepted haccepts hrow => rw [hrow, endsRow, haccepts, Bool.true_or, if_pos rfl]
  | grown ignored grows =>
    rw [endsRow, ignored, Bool.false_or, resets]
    rw [Estimator.Grows] at grows
    generalize m.after.diagnostics.consecutiveLosses = row at grows ⊢
    generalize m.after.diagnostics.resets = resets at grows ⊢
    cases grows with
    | on _ => simp
    | ended => simp

theorem row_lt (h : m.before.diagnostics.consecutiveLosses < max 1 m.before.lossCeiling) :
    m.after.diagnostics.consecutiveLosses < max 1 m.before.lossCeiling := by
  cases m.steps with
  | accepted _ hrow => omega
  | grown _ grows =>
    rw [Estimator.Grows] at grows
    generalize m.after.diagnostics.consecutiveLosses = row at grows ⊢
    generalize m.after.diagnostics.resets = resets at grows
    cases grows with
    | on few => omega
    | ended => omega

/-- Between accepted arrivals, what timers declare is taken from a budget. -/
theorem spends {m : Move} (h : m.accepts = false) :
    m.timerLosses + m.after.lossBudget ≤ m.before.lossBudget := by
  obtain ⟨e, op⟩ := m
  have hunarmed : ∀ {e' : Estimator}, (∀ key, e'.book.deadline key = none) →
      0 + e'.lossBudget ≤ e.lossBudget := by
    intro e' he'
    rw [(e'.lossBudget_eq_zero_iff).mpr he']
    exact Nat.zero_le _
  cases op with
  | call c =>
    cases c with
    | arrival now a =>
      have hsame := (Estimator.onArrival_of_not_accepts h).2
      exact Nat.le_of_eq ((Nat.zero_add _).trans hsame)
    | repair a =>
      have hspends := e.spends_call (.repair a)
      exact Nat.le_trans (Nat.add_le_add_right (Nat.zero_le _) _) hspends
    | timeout now key => exact e.spends_call (.timeout now key)
    | withdrawn n => exact e.spends_call (.withdrawn n)
  | reset => exact hunarmed fun _ => congrArg (TimerBook.deadline · _) e.book_reset
  | stop => exact hunarmed fun _ => congrArg (TimerBook.deadline · _) e.book_stop

end Move

/-- The losses that timers declared since the last accepted arrival or reset. -/
def timerRow (ms : List Move) : Nat := ((ms.rtakeWhile (!·.endsRow)).map (·.timerLosses)).sum

theorem timerRow_concat (ms : List Move) (m : Move) :
    timerRow (ms ++ [m]) = if m.endsRow then 0 else timerRow ms + m.timerLosses := by
  rw [timerRow, List.rtakeWhile_concat]
  cases m.endsRow with
  | true => rfl
  | false => simp [timerRow]

namespace Estimator

variable {e : Estimator}

def moves (e : Estimator) : List EstimatorOp → List Move
  | [] => []
  | op :: ops => ⟨e, op⟩ :: (e.perform op).state.moves ops

theorem moves_concat (e : Estimator) (ops : List EstimatorOp) (op : EstimatorOp) :
    e.moves (ops ++ [op]) = e.moves ops ++ [⟨e.afterOps ops, op⟩] := by
  induction ops generalizing e with
  | nil => rfl
  | cons o ops ih => exact congrArg _ (ih _)

theorem lossCeiling_afterOps (e : Estimator) (ops : List EstimatorOp) :
    (e.afterOps ops).lossCeiling = e.lossCeiling := by
  rw [← lossCeiling_unlearnt, unlearnt_afterOps, lossCeiling_unlearnt]

theorem spends_moves (e : Estimator) (ops : List EstimatorOp)
    (h : ∀ m ∈ e.moves ops, m.accepts = false) :
    ((e.moves ops).map (·.timerLosses)).sum + (e.afterOps ops).lossBudget ≤ e.lossBudget := by
  induction ops generalizing e with
  | nil => exact Nat.le_of_eq (Nat.zero_add _)
  | cons op ops ih =>
    have hfirst : (⟨e, op⟩ : Move).timerLosses + (e.perform op).state.lossBudget ≤ e.lossBudget :=
      Move.spends (h ⟨e, op⟩ List.mem_cons_self)
    have hrest := ih (e.perform op).state fun m hm => h m (List.mem_cons_of_mem _ hm)
    rw [moves, List.map_cons, List.sum_cons]
    show _ + _ + ((e.perform op).state.afterOps ops).lossBudget ≤ _
    omega

theorem row_afterOps (fresh : e.Fresh) (ops : List EstimatorOp) :
    (e.afterOps ops).diagnostics.consecutiveLosses = timerRow (e.moves ops) ∧
      timerRow (e.moves ops) < max 1 e.lossCeiling := by
  induction ops using List.reverseRecOn with
  | nil =>
    refine ⟨?_, Nat.lt_of_lt_of_le Nat.zero_lt_one (Nat.le_max_left ..)⟩
    cases fresh <;> rfl
  | append_singleton ops op ih =>
    obtain ⟨hrow, hlt⟩ := ih
    have hafter := Move.row_after ⟨e.afterOps ops, op⟩
    have hbound := Move.row_lt ⟨e.afterOps ops, op⟩
      (by rw [hrow, lossCeiling_afterOps]; exact hlt)
    rw [lossCeiling_afterOps] at hbound
    rw [hrow, ← timerRow_concat, ← moves_concat] at hafter
    have hstate : (⟨e.afterOps ops, op⟩ : Move).after = e.afterOps (ops ++ [op]) := by
      rw [afterOps_append]
      rfl
    rw [hstate] at hafter hbound
    exact ⟨hafter, hafter ▸ hbound⟩

/-- In every run: the count of losses in a row is what timers have declared since the last accepted
arrival or reset; without an accepted arrival timers declare no more than the ceiling; the expiry that
brings the row to the ceiling starts the estimator over, and then no timer is armed and no expiry does
anything until an arrival is accepted. -/
theorem stall_stays_below_ceiling (fresh : e.Fresh) (ops : List EstimatorOp) :
    let s := e.afterOps ops
    s.diagnostics.consecutiveLosses = timerRow (e.moves ops) ∧
      timerRow (e.moves ops) < max 1 e.lossCeiling ∧
      (∀ more, (∀ m ∈ s.moves more, m.accepts = false) →
        ((s.moves more).map (·.timerLosses)).sum ≤ max 1 e.lossCeiling) ∧
      ∀ now key,
        max 1 e.lossCeiling ≤ timerRow (e.moves ops) + lossesIn (s.onTimeout now key).actions →
        let t := (s.onTimeout now key).state
        t.diagnostics.resets = s.diagnostics.resets + 1 ∧ t.Renewed ∧
          ∀ more, (∀ m ∈ t.moves more, m.accepts = false) →
            (∀ k, (t.afterOps more).book.deadline k = none) ∧
              ∀ later k, ((t.afterOps more).onTimeout later k).actions = [] := by
  intro s
  obtain ⟨hrow, hlt⟩ := row_afterOps fresh ops
  refine ⟨hrow, hlt, fun more hmore => ?_, fun now key hfull => ?_⟩
  · have hspent := s.spends_moves more hmore
    have hbudget := s.lossBudget_le
    rw [lossCeiling_afterOps] at hbudget
    omega
  · intro t
    -- The row cannot go on: it would still be below the ceiling.
    have hgrows := s.grows_onTimeout now key
    have hceiling : s.lossCeiling = e.lossCeiling := e.lossCeiling_afterOps ops
    have hresets : t.diagnostics.resets = s.diagnostics.resets + 1 := by
      rw [Grows, hrow, hceiling] at hgrows
      generalize t.diagnostics.consecutiveLosses = row at hgrows
      generalize t.diagnostics.resets = resets at hgrows ⊢
      cases hgrows with
      | on few => omega
      | ended => rfl
    have hrenewed : t.Renewed := renewed_call (c := .timeout now key) (by
      show s.diagnostics.resets < t.diagnostics.resets
      omega)
    refine ⟨hresets, hrenewed, fun more hmore => ?_⟩
    have hunarmed : (t.afterOps more).lossBudget = 0 := by
      have hspent := t.spends_moves more hmore
      have hspare := hrenewed.lossBudget
      omega
    have hnone := (t.afterOps more).lossBudget_eq_zero_iff.mp hunarmed
    exact ⟨hnone, fun later k => by rw [onTimeout_of_unarmed (hnone k)]; rfl⟩

theorem stall_stays_below_ceiling_of_long_timers :
    let e : Estimator :=
      .cross { CrossPath.quick with config := { minFlowSamples := 2, maxConsecutiveLosses := 2 } }
    let expiries : List EstimatorCall :=
      [.timeout (.ofMillis 1000) .short, .timeout (.ofMillis 1010) .short,
        .timeout (.ofMillis 1050) (.long (.ofNat 8))]
    let s := e.afterOps ((CrossPath.skipping ++ expiries).map .call)
    let t := (s.onTimeout (.ofMillis 1150) (.long (.ofNat 10))).state
    e.Fresh ∧ s.diagnostics.consecutiveLosses = 1 ∧
      (s.book.deadline (.long (.ofNat 11))).isSome = true ∧
      t.diagnostics.resets = s.diagnostics.resets + 1 ∧
      (t.onTimeout (.ofMillis 1200) (.long (.ofNat 11))).actions = [] := by
  intro e expiries s t
  have fresh : e.Fresh := .cross _ _ _ _
  have row : timerRow (e.moves ((CrossPath.skipping ++ expiries).map .call)) = 1 := by
    decide +kernel
  have last : lossesIn (s.onTimeout (.ofMillis 1150) (.long (.ofNat 10))).actions = 1 := by
    decide +kernel
  obtain ⟨count, -, -, full⟩ :=
    stall_stays_below_ceiling fresh ((CrossPath.skipping ++ expiries).map .call)
  obtain ⟨resets, -, silent⟩ := full (.ofMillis 1150) (.long (.ofNat 10)) (by
    rw [row, last]
    decide)
  exact ⟨fresh, count.trans row, by decide +kernel, resets, (silent [] (by simp [moves])).2 _ _⟩

end Estimator
end LossWatch
