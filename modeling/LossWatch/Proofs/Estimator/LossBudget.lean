import LossWatch.Proofs.CrossPath.Reports
import LossWatch.Proofs.Estimator.Restart
import Mathlib.Algebra.GroupWithZero.Nat

/-!
How many losses an estimator can still declare by itself. Between two arrivals only armed timers declare
any, and the ceiling on losses in a row stops them. An arrival declares less than half the number space
and starts the row anew.
-/

namespace LossWatch

def lossesIn (as : List Action) : Nat := (emitted as).countP (·.isLost)

theorem lossesIn_eq_zero {as : List Action} (h : emitted as = []) : lossesIn as = 0 := by
  rw [lossesIn, h]
  rfl

/-- What is left of a row of losses; without timers the row goes no further. -/
def lossesLeft (waiting : Bool) (ceiling row : Nat) : Nat :=
  if waiting then max 1 (ceiling - row) else 0

theorem lossesLeft_le (waiting : Bool) (ceiling row : Nat) :
    lossesLeft waiting ceiling row ≤ max 1 (ceiling - row) := by
  cases waiting with
  | true => exact Nat.le_refl _
  | false => exact Nat.zero_le _

theorem add_lossesLeft_le {k ceiling row : Nat} (waiting : Bool) (few : row + k < ceiling) :
    k + lossesLeft waiting ceiling (row + k) ≤ max 1 (ceiling - row) := by
  have hleft := lossesLeft_le waiting ceiling (row + k)
  omega

namespace SinglePath

variable {s s' : SinglePath} {p : ExpectedPacket} {now : Timestamp} {lost : List SeqNumber}

def lossBudget (s : SinglePath) : Nat :=
  lossesLeft s.pending.isSome s.config.maxConsecutiveLosses s.consecutiveLosses

theorem countP_losses (ns : List SeqNumber) : (losses ns).countP (·.isLost) = ns.length := by
  induction ns with
  | nil => rfl
  | cons n ns ih =>
    rw [losses, List.map_cons, List.countP_cons_of_pos rfl]
    exact congrArg (· + 1) ih

theorem Rearmed.consecutiveLosses (h : s.Rearmed s') :
    s'.consecutiveLosses = s.consecutiveLosses := by
  cases h <;> rfl

theorem Expired.spends (h : s.Expired p s' lost) (hp : s.pending = some p) :
    lost.length + s'.lossBudget ≤ s.lossBudget := by
  have hbudget : s.lossBudget =
      max 1 (s.config.maxConsecutiveLosses - s.consecutiveLosses) := by
    rw [lossBudget, hp]
    rfl
  rw [hbudget]
  cases h with
  | received _ _ timer =>
    have hleft := lossesLeft_le s'.pending.isSome s'.config.maxConsecutiveLosses
      s'.consecutiveLosses
    rw [timer.config, timer.consecutiveLosses] at hleft
    rw [lossBudget, timer.config, timer.consecutiveLosses, List.length_nil, Nat.zero_add]
    exact hleft
  | moved _ _ few _ _ => exact add_lossesLeft_le true few
  | reset _ tries _ _ =>
    have hone : lost.length ≤ 1 := tries.length_le
    have hnone : lossesLeft false s.config.maxConsecutiveLosses 0 = 0 := rfl
    show lost.length + lossesLeft false s.config.maxConsecutiveLosses 0 ≤ _
    omega

theorem spends_onTimeout (s : SinglePath) (now : Timestamp) (key : TimerKey) :
    lossesIn (s.onTimeout now key).actions + (s.onTimeout now key).state.lossBudget ≤
      s.lossBudget := by
  rcases s.onTimeout_cases now key with hstay | ⟨p, lost, -, hp, hemitted, hexpired⟩
  · rw [hstay]
    exact Nat.le_of_eq (Nat.zero_add _)
  · rw [lossesIn, hemitted, countP_losses]
    exact hexpired.spends hp

theorem emitted_onRepair (s : SinglePath) (a : Arrival) :
    emitted (s.onRepair a).actions = [] := by
  rw [onRepair]
  split <;> rfl

theorem lossBudget_onRepair (s : SinglePath) (a : Arrival) :
    (s.onRepair a).state.lossBudget = s.lossBudget := by
  rw [onRepair]
  split <;> rfl

theorem Advanced.length_lt {seq : SeqNumber} (h : s.Advanced now seq s' lost) :
    lost.length < 32767 := by
  cases h with
  | first _ => decide
  | behind _ _ => decide
  | jumped _ _ _ _ => decide
  | filled _ _ _ _ tries =>
    exact Nat.lt_of_le_of_lt tries.length_le (SeqNumber.length_between_lt _ _)

theorem lossesIn_onArrival_lt (s : SinglePath) (now : Timestamp) (a : Arrival) :
    lossesIn (s.onArrival now a).actions < 32767 := by
  cases hs : s.stopped with
  | true =>
    rw [onArrival, if_pos hs]
    exact Nat.zero_lt_succ _
  | false =>
    obtain ⟨lost, hemitted, harrived⟩ := arrived_onArrival hs now a
    have hlate : ∀ r : Reception, (r.lateReport a.seq a.position).countP (·.isLost) = 0 := by
      intro r
      cases r <;> rfl
    rw [lossesIn, hemitted, List.countP_append, hlate, countP_losses, Nat.zero_add]
    generalize (s.onArrival now a).state = s' at harrived
    cases harrived with
    | ignored _ => decide
    | recorded _ _ accepted =>
      cases accepted with
      | waiting advanced _ _ => exact advanced.length_lt
      | rearmed advanced _ => exact advanced.length_lt

end SinglePath

namespace CrossPath

variable {s s' : CrossPath} {now : Timestamp}

def lossBudget (s : CrossPath) : Nat :=
  lossesLeft (s.short.isSome || !s.long.isEmpty) s.config.maxConsecutiveLosses s.consecutiveLosses

theorem lossBudget_of_waiting (h : (s.short.isSome || !s.long.isEmpty) = true) :
    s.lossBudget = max 1 (s.config.maxConsecutiveLosses - s.consecutiveLosses) := by
  rw [lossBudget, h]
  rfl

structure SameRow (s s' : CrossPath) : Prop where
  config : s'.config = s.config
  consecutiveLosses : s'.consecutiveLosses = s.consecutiveLosses

theorem SameRow.refl (s : CrossPath) : s.SameRow s := ⟨rfl, rfl⟩

theorem SameRow.trans {s'' : CrossPath} (h : s.SameRow s') (h' : s'.SameRow s'') :
    s.SameRow s'' :=
  ⟨h'.config.trans h.config, h'.consecutiveLosses.trans h.consecutiveLosses⟩

theorem SameRow.lossBudget_le (h : s.SameRow s')
    (hs : s.lossBudget = max 1 (s.config.maxConsecutiveLosses - s.consecutiveLosses)) :
    s'.lossBudget ≤ s.lossBudget := by
  rw [hs, lossBudget, h.config, h.consecutiveLosses]
  exact lossesLeft_le _ _ _

theorem sameRow_coverLong (now : Timestamp) (seq : SeqNumber) (s : CrossPath) :
    s.SameRow (s.coverLong now seq).state := by
  rw [coverLong]
  split <;> exact ⟨rfl, rfl⟩

theorem sameRow_armShort (s : CrossPath) (now : Timestamp) (expected : SeqNumber)
    (timerDriven : Bool) : s.SameRow (s.armShort now expected timerDriven).state := by
  rw [armShort]
  split
  · exact ⟨rfl, rfl⟩
  · rw [Step.state_andThen, dropShort_state]
    exact ⟨rfl, rfl⟩

theorem sameRow_onShortTimeout (s : CrossPath) (now : Timestamp) :
    s.SameRow (s.onShortTimeout now).state := by
  rw [onShortTimeout]
  split
  · exact .refl s
  · rename_i short _
    generalize hcount : ({ s with short := none } : CrossPath).count _ = counted
    have hrow : s.SameRow counted := by
      subst hcount
      exact ⟨rfl, rfl⟩
    exact hrow.trans ((sameRow_coverLong now short.expected counted).trans
      (sameRow_armShort _ now _ true))

theorem spends_onShortTimeout (s : CrossPath) (now : Timestamp) :
    lossesIn (s.onShortTimeout now).actions + (s.onShortTimeout now).state.lossBudget ≤
      s.lossBudget := by
  rw [lossesIn_eq_zero (s.emitted_onShortTimeout now), Nat.zero_add]
  cases hshort : s.short with
  | none =>
    rw [onShortTimeout, hshort]
    exact Nat.le_refl _
  | some short =>
    exact (s.sameRow_onShortTimeout now).lossBudget_le (lossBudget_of_waiting (by simp [hshort]))

theorem lossBudget_breakStall (s : CrossPath) :
    s.breakStall.state.lossBudget ≤ s.config.maxConsecutiveLosses - s.consecutiveLosses := by
  rw [breakStall]
  split
  · rw [Step.state_andThen, Step.state_note, fullReset_state]
    exact Nat.zero_le _
  · rw [Step.state_stay]
    have hleft := lossesLeft_le (s.short.isSome || !s.long.isEmpty) s.config.maxConsecutiveLosses
      s.consecutiveLosses
    rw [lossBudget]
    omega

theorem lossesIn_breakStall (s : CrossPath) (now : Timestamp) (seq : SeqNumber) :
    lossesIn ((s.declareLongLoss now seq).andThen breakStall).actions =
      lossesIn (s.declareLongLoss now seq).actions := by
  rw [lossesIn, emitted_andThen, emitted_breakStall, List.append_nil]
  rfl

theorem row_declareLongLoss (s : CrossPath) (now : Timestamp) (seq : SeqNumber) :
    let r := s.declareLongLoss now seq
    lossesIn r.actions = 0 ∧ r.state = s ∨
      lossesIn r.actions = 1 ∧ r.state.consecutiveLosses = s.consecutiveLosses + 1 ∧
        r.state.config = s.config ∧ r.state.counters.resets = s.counters.resets := by
  rw [declareLongLoss]
  cases s.ledger.assumeLost? now seq with
  | none => exact Or.inl ⟨rfl, rfl⟩
  | some ledger => exact Or.inr ⟨rfl, rfl, rfl, rfl⟩

theorem spends_declareLongLoss (s : CrossPath) (now : Timestamp) (seq : SeqNumber) :
    let r := (s.declareLongLoss now seq).andThen breakStall
    lossesIn r.actions + r.state.lossBudget ≤
      max 1 (s.config.maxConsecutiveLosses - s.consecutiveLosses) := by
  intro r
  have hbroken : r.state.lossBudget ≤ _ :=
    lossBudget_breakStall (s.declareLongLoss now seq).state
  rw [s.lossesIn_breakStall]
  rcases s.row_declareLongLoss now seq with ⟨hlosses, hstate⟩ | ⟨hlosses, hrow, hconfig, -⟩
  · rw [hstate] at hbroken
    omega
  · rw [hrow, hconfig] at hbroken
    omega

theorem spends_onLongTimeout (s : CrossPath) (now : Timestamp) (seq : SeqNumber) :
    lossesIn (s.onLongTimeout now seq).actions + (s.onLongTimeout now seq).state.lossBudget ≤
      s.lossBudget := by
  rw [onLongTimeout]
  cases hlong : s.hasLong seq with
  | false => exact Nat.le_of_eq (Nat.zero_add _)
  | true =>
    have hwaiting : (s.short.isSome || !s.long.isEmpty) = true := by
      cases hs : s.long with
      | nil => simp [hasLong, LongTimers.has, hs] at hlong
      | cons t ts => simp
    have hbudget := lossBudget_of_waiting hwaiting
    simp only [Bool.not_true, Bool.false_eq_true, if_false]
    split
    · exact Nat.le_trans (Nat.le_of_eq (Nat.zero_add _))
        (SameRow.lossBudget_le ⟨rfl, rfl⟩ hbudget)
    · rw [hbudget]
      exact spends_declareLongLoss _ now seq

theorem spends_onTimeout (s : CrossPath) (now : Timestamp) (key : TimerKey) :
    lossesIn (s.onTimeout now key).actions + (s.onTimeout now key).state.lossBudget ≤
      s.lossBudget := by
  simp only [onTimeout]
  split
  · exact Nat.le_of_eq (Nat.zero_add _)
  · cases key with
    | basic => exact Nat.le_of_eq (Nat.zero_add _)
    | short => exact s.spends_onShortTimeout now
    | long seq => exact s.spends_onLongTimeout now seq

theorem lossBudget_onRepair (s : CrossPath) (a : Arrival) :
    (s.onRepair a).state.lossBudget ≤ s.lossBudget := by
  rw [onRepair]
  split
  · exact Nat.le_refl _
  · generalize hs : ({ s with ledger := (s.ledger.receiveRepair a.seq).2 } : CrossPath) = repaired
    have hsame : repaired.lossBudget = s.lossBudget := by
      subst hs
      rfl
    rw [← hsame, settleLong]
    split
    · rename_i hlong
      refine SameRow.lossBudget_le ⟨rfl, rfl⟩ (lossBudget_of_waiting ?_)
      cases hl : repaired.long with
      | nil => simp [hasLong, LongTimers.has, hl] at hlong
      | cons t ts => simp
    · exact Nat.le_refl _

theorem length_gapLosses_le (now : Timestamp) (flow : Nat) (first : SeqNumber)
    (ps : List (SeqNumber × Nat)) (s : CrossPath) :
    (emitted (s.gapLosses now flow first ps).actions).length ≤ ps.length := by
  induction ps generalizing s with
  | nil => exact Nat.le_refl _
  | cons p ps ih =>
    have hfirst :
        (emitted (declareGapLoss now ⟨flow, first.add p.2⟩ p.1 s).actions).length ≤ 1 := by
      rw [emitted_declareGapLoss]
      split <;> simp
    have hrest := ih (declareGapLoss now ⟨flow, first.add p.2⟩ p.1 s).state
    rw [gapLosses] at hrest
    rw [gapLosses, Step.forEach, emitted_andThen, List.length_append, List.length_cons]
    omega

theorem length_declareFlowGap_lt (s : CrossPath) (now : Timestamp) (seq : SeqNumber)
    (position : FlowPosition) (update : FlowUpdate) :
    (emitted (s.declareFlowGap now seq position update).actions).length < 32767 := by
  by_cases h : emitted (s.declareFlowGap now seq position update).actions = []
  · rw [h]
    exact Nat.zero_lt_succ _
  · obtain ⟨g, hg⟩ := reveals_of_emitted h
    rw [declareFlowGap_of_reveals hg]
    refine Nat.lt_of_le_of_lt (length_gapLosses_le now _ _ _ s) ?_
    rw [List.length_zipIdx]
    exact Nat.lt_of_le_of_lt (List.length_filter_le _ _) (SeqNumber.length_between_lt g seq)

theorem lossesIn_accept_lt (s : CrossPath) (now : Timestamp) (seq : SeqNumber)
    (position : FlowPosition) : lossesIn (s.accept now seq position).actions < 32767 := by
  obtain ⟨t, -, -, hemitted⟩ := s.emitted_accept now seq position
  rw [lossesIn, hemitted]
  split
  · exact Nat.zero_lt_succ _
  · exact Nat.lt_of_le_of_lt List.countP_le_length (t.length_declareFlowGap_lt now seq position _)

theorem lossesIn_onArrival_lt (s : CrossPath) (now : Timestamp) (a : Arrival) :
    lossesIn (s.onArrival now a).actions < 32767 := by
  rw [onArrival]
  split
  · exact Nat.zero_lt_succ _
  · dsimp only
    cases (s.ledger.receive now a.seq).1 with
    | duplicate => exact Nat.zero_lt_succ _
    | stale => exact Nat.zero_lt_succ _
    | fresh => exact lossesIn_accept_lt _ now a.seq _
    | recovered => exact lossesIn_accept_lt _ now a.seq _
    | falsePositive lateBy =>
      -- The false alarm in front is no loss.
      exact lossesIn_accept_lt _ now a.seq _

end CrossPath

namespace Estimator

variable {e : Estimator}

def lossBudget : Estimator → Nat
  | single s => s.lossBudget
  | cross c => c.lossBudget

theorem lossBudget_le (e : Estimator) : e.lossBudget ≤ max 1 e.lossCeiling := by
  have hleft : ∀ waiting ceiling row, lossesLeft waiting ceiling row ≤ max 1 ceiling := by
    intro waiting ceiling row
    have := lossesLeft_le waiting ceiling row
    omega
  cases e <;> exact hleft _ _ _

def lossesPerArrival (e : Estimator) : Nat := 32766 + max 1 e.lossCeiling

def lossAllowance (e : Estimator) : EstimatorCall → Nat
  | .arrival .. => e.lossesPerArrival
  | _ => 0

theorem lossCeiling_unlearnt (e : Estimator) : e.unlearnt.lossCeiling = e.lossCeiling := by
  cases e <;> rfl

theorem lossCeiling_after (e : Estimator) (cs : List EstimatorCall) :
    (e.after cs).lossCeiling = e.lossCeiling := by
  rw [← lossCeiling_unlearnt, unlearnt_after, lossCeiling_unlearnt]

theorem emitted_onRepair (e : Estimator) (a : Arrival) : emitted (e.onRepair a).actions = [] := by
  cases e with
  | single s => exact s.emitted_onRepair a
  | cross c => exact c.emitted_onRepair a

theorem lossesIn_onArrival_lt (e : Estimator) (now : Timestamp) (a : Arrival) :
    lossesIn (e.onArrival now a).actions < 32767 := by
  cases e with
  | single s => exact s.lossesIn_onArrival_lt now a
  | cross c => exact c.lossesIn_onArrival_lt now a

theorem spends_call (e : Estimator) (c : EstimatorCall) :
    lossesIn (e.call c).actions + (e.call c).state.lossBudget ≤
      e.lossBudget + e.lossAllowance c := by
  cases c with
  | arrival now a =>
    have hlosses := e.lossesIn_onArrival_lt now a
    have hbudget := (e.onArrival now a).state.lossBudget_le
    have hceiling : (e.onArrival now a).state.lossCeiling = e.lossCeiling :=
      e.lossCeiling_after [.arrival now a]
    show lossesIn (e.onArrival now a).actions + (e.onArrival now a).state.lossBudget ≤
      e.lossBudget + (32766 + max 1 e.lossCeiling)
    omega
  | repair a =>
    have hbudget : (e.onRepair a).state.lossBudget ≤ e.lossBudget := by
      cases e with
      | single s => exact Nat.le_of_eq (s.lossBudget_onRepair a)
      | cross c => exact c.lossBudget_onRepair a
    show lossesIn (e.onRepair a).actions + (e.onRepair a).state.lossBudget ≤ e.lossBudget + 0
    rw [lossesIn_eq_zero (e.emitted_onRepair a)]
    omega
  | timeout now key =>
    cases e with
    | single s => exact s.spends_onTimeout now key
    | cross c => exact c.spends_onTimeout now key
  | withdrawn seq =>
    show 0 + (e.noteWithdrawn seq).lossBudget ≤ e.lossBudget + 0
    cases e <;> exact Nat.le_of_eq (Nat.zero_add _)

/-- A run declares no more than it started with and its arrivals allow. -/
theorem spends_events (e : Estimator) (cs : List EstimatorCall) :
    (e.events cs).countP (·.isLost) + (e.after cs).lossBudget ≤
      e.lossBudget + (cs.map e.lossAllowance).sum := by
  induction cs generalizing e with
  | nil => exact Nat.le_of_eq (Nat.zero_add _)
  | cons c cs ih =>
    have hfirst := e.spends_call c
    have hrest := ih (e.call c).state
    have hsame : (e.call c).state.lossAllowance = e.lossAllowance := by
      funext d
      cases d with
      | arrival now a =>
        exact congrArg (32766 + max 1 ·) (e.lossCeiling_after [c])
      | repair _ | timeout _ _ | withdrawn _ => rfl
    have hevents : e.events (c :: cs) =
        emitted (e.call c).actions ++ (e.call c).state.events cs := List.flatMap_cons
    rw [hsame] at hrest
    rw [hevents, List.countP_append, List.map_cons, List.sum_cons]
    show lossesIn (e.call c).actions + ((e.call c).state.events cs).countP (·.isLost) +
      ((e.call c).state.after cs).lossBudget ≤ _
    omega

end Estimator

end LossWatch
