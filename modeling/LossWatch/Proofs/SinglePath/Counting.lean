import LossWatch.Proofs.Estimator.Counting
import LossWatch.Proofs.SinglePath.Steps

/-!
The single-path estimator never looks at what it has counted, and whatever it learns, a reset takes
away: it is left with its configuration and the constants of its predictor.
-/

namespace LossWatch.SinglePath

variable {s : SinglePath} {now : Timestamp}

def uncounted (s : SinglePath) : SinglePath :=
  { s with counters := {}, ledger := s.ledger.untotaled }

def unlearnt (s : SinglePath) : SinglePath :=
  { config := s.config, predictor := s.predictor.reset, ledger := s.ledger.reset }

/-- Two steps that go alike from `s`, the first with the counts and the second without. -/
abbrev Alike (s : SinglePath) (r r' : Step SinglePath) : Prop :=
  Step.Alike uncounted unlearnt s r r'

theorem alike_of_uncounted {f : SinglePath → Step SinglePath} {t t' : SinglePath}
    (hf : ∀ t : SinglePath, t.Alike (f t) (f t.uncounted)) (hv : t.uncounted = t'.uncounted)
    (hk : t.unlearnt = s.unlearnt) : s.Alike (f t) (f t') :=
  Step.Blind.congr hf hv hk

theorem alike_forEach {α : Type} {f : α → SinglePath → Step SinglePath}
    (hf : ∀ a (t : SinglePath), t.Alike (f a t) (f a t.uncounted)) (as : List α) (s : SinglePath) :
    s.Alike (Step.forEach f as s) (Step.forEach f as s.uncounted) :=
  Step.Blind.forEach hf (fun _ => rfl) as s

theorem uncounted_ledger {l l' : LossLedger} (h : l.untotaled = l'.untotaled)
    (counters counters' : SingleCounters) :
    ({ s with ledger := l, counters } : SinglePath).uncounted =
      ({ s with ledger := l', counters := counters' } : SinglePath).uncounted := by
  simp only [uncounted, h]

theorem unlearnt_ledger {l : LossLedger} (h : l.reset = s.ledger.reset) (counters : SingleCounters) :
    ({ s with ledger := l, counters } : SinglePath).unlearnt = s.unlearnt := by
  simp only [unlearnt, h]

theorem alike_disarm (s : SinglePath) : s.Alike s.disarm s.uncounted.disarm := by
  have hpending : s.uncounted.pending = s.pending := rfl
  unfold disarm
  rw [hpending]
  cases s.pending with
  | none => exact .same rfl rfl
  | some p => exact .same rfl rfl

theorem alike_arm (s : SinglePath) (now : Timestamp) (seq : SeqNumber) (due : Timestamp) :
    s.Alike (s.arm now seq due) (s.uncounted.arm now seq due) := by
  unfold arm
  exact s.alike_disarm.andThen fun _ => .same rfl rfl

theorem alike_armFromPrediction (s : SinglePath) (now : Timestamp) :
    s.Alike (s.armFromPrediction now) (s.uncounted.armFromPrediction now) := by
  have hmaxSeen : s.uncounted.maxSeen = s.maxSeen := rfl
  have hready : s.uncounted.predictor.isReady = s.predictor.isReady := rfl
  unfold armFromPrediction
  rw [hmaxSeen, hready]
  cases s.maxSeen with
  | none => exact .same rfl rfl
  | some last =>
    dsimp only
    split
    · exact alike_of_uncounted (fun t => t.alike_arm now last.next _) rfl rfl
    · exact s.alike_disarm.alter fun _ => .same rfl rfl

theorem alike_declareLost (now : Timestamp) (seq : SeqNumber) (s : SinglePath) :
    s.Alike (declareLost now seq s) (declareLost now seq s.uncounted) := by
  have hledger : s.uncounted.ledger = s.ledger.untotaled := rfl
  have h := s.ledger.assumeLost?_untotaled now seq
  unfold declareLost
  rw [hledger]
  generalize s.ledger.assumeLost? now seq = declared,
    s.ledger.untotaled.assumeLost? now seq = declared' at h ⊢
  cases h with
  | none => exact .same rfl rfl
  | some h => exact .same (uncounted_ledger h.entries _ _) (unlearnt_ledger h.ring _)

theorem alike_fullReset (s : SinglePath) : s.Alike s.fullReset s.uncounted.fullReset := by
  unfold fullReset
  refine s.alike_disarm.alter fun t => .same rfl ?_
  simp only [unlearnt, Predictor.reset_reset, t.ledger.clearHistory_untotaled.ring]

theorem alike_advance (s : SinglePath) (now : Timestamp) (seq : SeqNumber) :
    s.Alike (s.advance now seq) (s.uncounted.advance now seq) := by
  have hmaxSeen : s.uncounted.maxSeen = s.maxSeen := rfl
  have hconfig : s.uncounted.config = s.config := rfl
  unfold advance
  rw [hmaxSeen, hconfig]
  cases s.maxSeen with
  | none => exact .same rfl rfl
  | some last =>
    dsimp only
    split
    · refine Step.Alike.alter ?_ fun _ => .same rfl rfl
      split
      · exact .andThen (.same rfl rfl) alike_disarm
      · refine alike_of_uncounted (alike_forEach (alike_declareLost now) (last.between seq)) rfl ?_
        simp only [unlearnt, Predictor.reset_insert]
    · exact .same rfl rfl

theorem alike_accept (s : SinglePath) (now : Timestamp) (seq : SeqNumber) :
    s.Alike (s.accept now seq) (s.uncounted.accept now seq) := by
  unfold accept
  refine .andThen (alike_of_uncounted (fun t => t.alike_advance now seq) rfl rfl) fun t => ?_
  have hsatisfied : t.uncounted.satisfiedBy seq = t.satisfiedBy seq := rfl
  rw [hsatisfied]
  split
  · exact t.alike_armFromPrediction now
  · exact .same rfl rfl

theorem alike_onArrival (s : SinglePath) (now : Timestamp) (a : Arrival) :
    s.Alike (s.onArrival now a) (s.uncounted.onArrival now a) := by
  have hstopped : s.uncounted.stopped = s.stopped := rfl
  have hledger : s.uncounted.ledger = s.ledger.untotaled := rfl
  obtain ⟨hreception, hsame⟩ := s.ledger.receive_untotaled now a.seq
  unfold onArrival
  rw [hstopped, hledger]
  split
  · exact .same rfl rfl
  · dsimp only
    rw [hreception]
    have hview := uncounted_ledger (s := s) hsame.entries
    have hkept := unlearnt_ledger (s := s) hsame.ring
    have haccept : ∀ counters counters' : SingleCounters, s.Alike
        (accept { s with ledger := (s.ledger.receive now a.seq).2, counters } now a.seq)
        (accept { s with ledger := (s.ledger.untotaled.receive now a.seq).2, counters := counters' }
          now a.seq) := fun counters counters' =>
      alike_of_uncounted (fun t => t.alike_accept now a.seq) (hview _ _) (hkept _)
    cases (s.ledger.receive now a.seq).1 with
    | fresh => exact haccept _ _
    | recovered => exact haccept _ _
    | duplicate => exact .same (hview _ _) (hkept _)
    | stale => exact .same (hview _ _) (hkept _)
    | falsePositive lateBy =>
      exact .andThen (.same (hview _ _) (hkept _)) fun t => t.alike_accept now a.seq

theorem alike_onRepair (s : SinglePath) (a : Arrival) :
    s.Alike (s.onRepair a) (s.uncounted.onRepair a) := by
  have hstopped : s.uncounted.stopped = s.stopped := rfl
  have hsame := s.ledger.receiveRepair_untotaled a.seq
  unfold onRepair
  rw [hstopped]
  split
  · exact .same rfl rfl
  · exact .same (uncounted_ledger hsame.entries _ _) (unlearnt_ledger hsame.ring _)

theorem alike_afterMiss (s : SinglePath) (now : Timestamp) (p : ExpectedPacket) :
    s.Alike (s.afterMiss now p) (s.uncounted.afterMiss now p) := by
  have hmany : (s.uncounted.config.maxConsecutiveLosses ≤ s.uncounted.consecutiveLosses) =
    (s.config.maxConsecutiveLosses ≤ s.consecutiveLosses) := rfl
  unfold afterMiss
  simp only [hmany]
  split
  · exact .andThen (.same rfl rfl) alike_fullReset
  · exact s.alike_arm now p.seq.next _

theorem alike_miss (s : SinglePath) (now : Timestamp) (p : ExpectedPacket) :
    s.Alike (s.miss now p) (s.uncounted.miss now p) := by
  have hdeclared := alike_declareLost now p.seq s
  unfold miss
  dsimp only
  rw [← hdeclared.actions]
  refine .andThen (hdeclared.alter ?_) fun t => t.alike_afterMiss now p
  exact fun _ => .same rfl rfl

theorem onTimeout_of_pending {p : ExpectedPacket} (hrun : s.stopped = false)
    (hpending : s.pending = some p) (now : Timestamp) : s.onTimeout now .basic =
      let expired := { s with pending := none }.count fun c => { c with timeouts := c.timeouts + 1 }
      if s.ledger.wasReceived p.seq then { expired with phase := .resolved }.armFromPrediction now
      else expired.miss now p := by
  simp only [onTimeout, hrun, hpending]
  rfl

theorem alike_onTimeout (s : SinglePath) (now : Timestamp) (key : TimerKey) :
    s.Alike (s.onTimeout now key) (s.uncounted.onTimeout now key) := by
  have hstopped : s.uncounted.stopped = s.stopped := rfl
  have hpending : s.uncounted.pending = s.pending := rfl
  have hfound : ∀ seq, s.uncounted.ledger.wasReceived seq = s.ledger.wasReceived seq := fun _ => rfl
  by_cases hkey : key = .basic
  · subst hkey
    cases hrun : s.stopped with
    | true =>
      simp only [onTimeout, hstopped, hrun]
      exact .same rfl rfl
    | false =>
      cases hp : s.pending with
      | none =>
        simp only [onTimeout, hstopped, hrun, hpending, hp]
        exact .same rfl rfl
      | some p =>
        rw [onTimeout_of_pending hrun hp, onTimeout_of_pending (hstopped.trans hrun)
          (hpending.trans hp), hfound]
        dsimp only
        split
        · exact alike_of_uncounted (fun t => t.alike_armFromPrediction now) rfl rfl
        · exact alike_of_uncounted (fun t => t.alike_miss now p) rfl rfl
  · have hignored : ∀ t : SinglePath, t.onTimeout now key = .stay t := by
      intro t
      simp [onTimeout, hkey]
    rw [hignored, hignored]
    exact .same rfl rfl

theorem alike_noteWithdrawn (s : SinglePath) (seq : SeqNumber) :
    s.Alike (.stay (s.noteWithdrawn seq)) (.stay (s.uncounted.noteWithdrawn seq)) := by
  have hsame := s.ledger.noteWithdrawn_untotaled seq
  exact .same (uncounted_ledger hsame.entries _ _) (unlearnt_ledger hsame.ring _)

theorem alike_reset (s : SinglePath) : s.Alike s.reset s.uncounted.reset := by
  unfold reset
  exact s.alike_fullReset.alter fun _ => .same rfl rfl

theorem alike_stop (s : SinglePath) : s.Alike s.stop s.uncounted.stop := by
  unfold stop
  exact s.alike_disarm.alter fun _ => .same rfl rfl

/-! ### Starting over -/

theorem Rearmed.resets {s' : SinglePath} (h : s.Rearmed s') :
    s'.counters.resets = s.counters.resets := by
  cases h with
  | unseen _ => rfl
  | armed _ _ _ resets => exact resets
  | unready _ _ => rfl

theorem Advanced.resets {s' : SinglePath} {seq : SeqNumber} {lost : List SeqNumber}
    (h : s.Advanced now seq s' lost) : s'.counters.resets = s.counters.resets := by
  cases h with
  | first _ => rfl
  | behind _ _ => rfl
  | jumped _ _ _ resets => exact resets
  | filled _ _ _ resets _ => exact resets

theorem resets_onArrival (s : SinglePath) (now : Timestamp) (a : Arrival) :
    (s.onArrival now a).state.counters.resets = s.counters.resets := by
  cases hs : s.stopped with
  | true => simp [onArrival, hs]
  | false =>
    obtain ⟨lost, -, h⟩ := arrived_onArrival hs now a
    generalize (s.onArrival now a).state = s' at h ⊢
    cases h with
    | ignored _ => rfl
    | recorded _ resets accepted =>
      cases accepted with
      | waiting advanced _ _ => exact advanced.resets.trans resets
      | rearmed advanced timer => exact timer.resets.trans (advanced.resets.trans resets)

theorem resets_onRepair (s : SinglePath) (a : Arrival) :
    (s.onRepair a).state.counters.resets = s.counters.resets := by
  cases hs : s.stopped <;> simp [onRepair, hs]

def Renewed (s : SinglePath) : Prop := s.uncounted = s.unlearnt

theorem renewed_reset (s : SinglePath) : s.reset.state.Renewed := by
  have hledger : s.ledger.clearHistory.reset = s.ledger.reset :=
    s.ledger.clearHistory_untotaled.ring
  simp only [Renewed, reset, Step.state_alter, fullReset_state, uncounted, unlearnt,
    Predictor.reset_reset, hledger]
  rfl

theorem renewed_onTimeout {key : TimerKey}
    (hresets : (s.onTimeout now key).state.counters.resets ≠ s.counters.resets) :
    (s.onTimeout now key).state.Renewed := by
  rcases s.onTimeout_cases now key with hstay | ⟨p, lost, hrun, -, -, h⟩
  · rw [hstay] at hresets
    exact absurd rfl hresets
  · generalize (s.onTimeout now key).state = s' at h hresets ⊢
    cases h with
    | received _ resets timer => exact absurd (timer.resets.trans resets) hresets
    | moved _ _ _ _ resets => exact absurd resets hresets
    | @reset ledger _ _ _ _ _ _ =>
      have hledger : ledger.clearHistory.reset = ledger.reset :=
        ledger.clearHistory_untotaled.ring
      simp only [Renewed, uncounted, unlearnt, Predictor.reset_reset, hledger, hrun]
      rfl

end LossWatch.SinglePath
