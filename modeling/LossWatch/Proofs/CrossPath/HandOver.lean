import LossWatch.Proofs.CrossPath.FlowGaps

/-!
From flow gaps to timers. While the estimator learns, a gap that the unresolved numbers account for
is declared by the arrival that reveals it. Once the timers run, nothing is read off a gap any more;
then its numbers have long timers, as the short timer has passed them, if it came to expect a number
as early as them. In both cases the slot of the number must not have gone to a newer one.
-/

namespace LossWatch

/-- The number of the short timer that a call finds. -/
def Exchange.expected? (x : Exchange) : Option SeqNumber := x.before.asCross?.bind (·.expected)

/-- The arrival is so far ahead of the short timer that nothing on the way to it is covered, and `m`
lies on the way. -/
def Exchange.JumpsOver (x : Exchange) (m : SeqNumber) : Prop :=
  match x.before, x.call with
  | .cross c, .arrival _ a =>
    ∃ E ∈ c.expected, c.config.maxGap < E.distance a.seq ∧ m ∈ E.prev.between a.seq
  | _, _ => False

theorem Exchange.KeepsUp.not_jumpsOver {x : Exchange} (h : x.KeepsUp) (m : SeqNumber) :
    ¬ x.JumpsOver m := by
  obtain ⟨before, call⟩ := x
  intro hjump
  cases before with
  | single _ => exact hjump
  | cross c =>
    cases call with
    | arrival now a =>
      obtain ⟨E, hE, hfar, -⟩ := hjump
      have hnear := h E hE
      omega
    | repair a => exact hjump
    | timeout now key => exact hjump
    | withdrawn n => exact hjump

namespace CrossPath

variable {s s' : CrossPath} {c : EstimatorCall} {xs : List Exchange} {base : SeqNumber}
  {e d : FlowEntry} {m : SeqNumber} {n : Nat}

/-! ### Accepted arrivals -/

theorem heard_of_accepted (he : Exchange.accepted? ⟨.cross s, c⟩ = some e)
    (hstep : ((Estimator.cross s).call c).state = .cross s') : s.Heard e s' := by
  obtain ⟨now, a, hcall, -, -⟩ := Exchange.arrival_of_accepted? he
  obtain rfl : c = .arrival now a := hcall
  cases hstep
  exact heard_onArrival he

theorem ledger_of_accepted (h : s.Sound) (hrun : s.phase.isRunning = true)
    (he : Exchange.accepted? ⟨.cross s, c⟩ = some e)
    (hstep : ((Estimator.cross s).call c).state = .cross s') :
    s'.ledger = Exchange.recorded ⟨.cross s, c⟩ := by
  obtain ⟨now, a, hcall, -, hrecorded⟩ := Exchange.arrival_of_accepted? he
  obtain rfl : c = .arrival now a := hcall
  have harrived : s.Arrived now a.seq s' := by
    have hstate : (s.onArrival now a).state = s' := Estimator.cross.inj hstep
    exact hstate ▸ arrived_onArrival (Exchange.running_of_accepted? he) h.anchored now a
  cases harrived with
  | ignored _ => exact hrecorded.symm
  | learned _ _ idle _ => simp [hrun] at idle
  | followed _ entered _ reconciled =>
    have hledger := entered.ledger.trans hrecorded.symm
    cases reconciled with
    | unarmed _ => exact hledger
    | waiting _ _ => exact hledger
    | far _ _ _ _ => exact hledger
    | near _ _ _ _ => exact hledger

/-! ### What the short timer came to expect -/

theorem prev_expected_inWindow (h : Estimator.SinceReset xs (.cross s))
    (hwin : ∀ x ∈ xs, ∀ n ∈ x.handled, n.InWindow base) :
    ∀ E ∈ s.expected, E.prev.InWindow base := by
  refine sinceReset_induction (P := fun xs s => (∀ x ∈ xs, ∀ n ∈ x.handled, n.InWindow base) →
    ∀ E ∈ s.expected, E.prev.InWindow base) ?_ ?_ ?_ h hwin
  · intro s _ hblank _ E hE
    simp [expected, hblank.short] at hE
  · intro xs s s' c hs ih hstep hresets hwin E hE
    have hcall := hwin ⟨.cross s, c⟩ (by simp)
    have hbefore := fun x hx => hwin x (List.mem_append_left _ hx)
    have hnext : ∀ {m : SeqNumber}, m.InWindow base → s'.expected = some m.next →
        E.prev.InWindow base := by
      intro m hm hexpected
      obtain rfl : m.next = E := Option.some.inj (hexpected.symm.trans hE)
      rwa [SeqNumber.prev_next]
    have hleads := leads_of_sinceReset (sinceReset_call hs hstep hresets) hwin
    cases shortMoves_call (sound_of_sinceReset hs) hstep with
    | kept hsame _ _ => exact ih hbefore E (hsame ▸ hE)
    | started _ newest expected => exact hnext (hleads.inWindow _ newest) expected
    | passed entry _ _ expected _ =>
      exact hnext (hcall _ (Exchange.mem_handled_of_accepted? entry)) expected
    | expired _ armed expected _ => exact hnext (hcall _ (mem_handled_of_expected armed)) expected
    | restarted _ restarted =>
      have := restarted.resets
      omega
  · intro xs s _ _ _ E hE
    rw [stop, Step.state_alter, cancelTimers_state] at hE
    simp [expected] at hE

/-- What the short timer has passed stays settled or keeps its long timer. -/
theorem Passed.onArrival {start p : SeqNumber} (h : s.Passed base start p) (hsound : s.Sound)
    (hrun : s.phase.isRunning = true) (now : Timestamp) {a : Arrival} (hx : a.seq.InWindow base) :
    (s.onArrival now a).state.Passed base start p := by
  cases hstopped : s.stopped with
  | true => simpa [CrossPath.onArrival, hstopped] using h
  | false =>
    have harrived := arrived_onArrival hstopped hsound.anchored now a
    generalize (s.onArrival now a).state = s' at harrived ⊢
    cases harrived with
    | ignored known =>
      have hslots := LossLedger.slots_receive known
      exact h.mono rfl rfl (h.windowed.of_slots hslots) (fun _ _ hs => hs.of_slots hslots)
        fun _ => Or.inl
    | learned _ _ idle _ => simp [hrun] at idle
    | @followed t _ _ entered _ reconciled =>
      have hpassed := (h.entered hx entered).1
      cases reconciled with
      | unarmed _ => exact hpassed
      | waiting _ _ => exact hpassed
      | far _ _ _ _ => exact hpassed.mono rfl rfl hpassed.windowed (fun _ _ => id) fun _ => Or.inl
      | @near _ short long counters _ _ covering _ =>
        exact (hpassed.covering (t := { t with short := some short, long, counters }) covering rfl
          rfl).1

theorem Passed.onTimeout {start p : SeqNumber} (h : s.Passed base start p) (hsound : s.Sound)
    (now : Timestamp) (key : TimerKey) (hwin : ∀ n ∈ (Estimator.cross s).awaited, n.InWindow base)
    (hresets : (s.onTimeout now key).state.counters.resets = s.counters.resets) :
    (s.onTimeout now key).state.Passed base start p := by
  unfold CrossPath.onTimeout at hresets ⊢
  split
  · exact h
  · rename_i hrun
    rw [if_neg hrun] at hresets
    cases key with
    | basic => exact h
    | short =>
      cases harmed : s.short with
      | none => simpa [onShortTimeout, harmed] using h
      | some short =>
        obtain ⟨short', long, counters, -, hcovering, hstate⟩ :=
          onShortTimeout_state harmed (hsound.anchored (hsound.running_of_short harmed)) now
        rw [hstate]
        exact (h.covering (t := { s with short := some short', long, counters }) hcovering rfl
          rfl).1
    | long n =>
      refine h.onLongTimeout hsound now (fun m hm => hwin m (List.mem_append_right _ ?_)) hresets
      obtain ⟨q, hq, hqm⟩ := List.any_eq_true.mp hm
      exact List.mem_map.mpr ⟨q, hq, of_decide_eq_true hqm⟩

theorem Passed.call {start p : SeqNumber} (h : s.Passed base start p) (hsound : s.Sound)
    (hrun : s.phase.isRunning = true)
    (hwin : ∀ n ∈ Exchange.handled ⟨.cross s, c⟩, n.InWindow base)
    (hstep : ((Estimator.cross s).call c).state = .cross s')
    (hresets : s'.counters.resets = s.counters.resets) : s'.Passed base start p := by
  cases c with
  | arrival now a =>
    cases hstep
    exact h.onArrival hsound hrun now (hwin a.seq (by simp [Exchange.handled]))
  | repair a =>
    cases hstep
    exact h.onRepair (hwin a.seq (by simp [Exchange.handled]))
  | timeout now key =>
    obtain rfl : (s.onTimeout now key).state = s' := Estimator.cross.inj hstep
    exact h.onTimeout hsound now key hwin hresets
  | withdrawn n =>
    cases hstep
    have hslots := s.ledger.slots_noteWithdrawn n
    exact h.mono rfl rfl (h.windowed.of_slots hslots) (fun _ _ hs => hs.of_slots hslots)
      fun _ => Or.inl

def Minds (base m : SeqNumber) (s : CrossPath) : Prop :=
  s.phase.isRunning = true ∧
    ((∃ E ∈ s.expected, E.ahead base ≤ m.ahead base) ∨ s.Passed base m.prev m)

theorem covers_of_expected {E : SeqNumber} (hw : s.ledger.Windowed base)
    (hE : s.expected = some E) (hprev : E.prev.InWindow base) : s.Covers base E.prev := by
  obtain ⟨short, hshort, rfl⟩ := Option.map_eq_some_iff.mp hE
  exact ⟨short, hshort, hw, hprev, Nat.le_refl _, fun n hlo hhi => by omega⟩

theorem minds_of_jump {E : SeqNumber} {now : Timestamp} {a : Arrival} (h : s.Sound)
    (hrun : s.phase.isRunning = true) (hrun' : s'.phase.isRunning = true)
    (hw : s.ledger.Windowed base) (hE : s.expected = some E)
    (hEm : E.ahead base < m.ahead base) (hm : m.InWindow base)
    (hma : a.seq.ahead base ≤ m.ahead base)
    (hstep : ((Estimator.cross s).call (.arrival now a)).state = .cross s')
    (hresets : s'.counters.resets = s.counters.resets) : s'.Minds base m := by
  have hnext : ∀ {n : SeqNumber}, n.ahead base < m.ahead base → s'.expected = some n.next →
      s'.Minds base m := by
    intro n hn hexpected
    refine ⟨hrun', Or.inl ⟨n.next, hexpected, ?_⟩⟩
    rw [SeqNumber.ahead_next_of_inWindow (Nat.lt_trans hn hm)]
    exact hn
  cases shortMoves_call h hstep with
  | kept hsame _ _ => exact ⟨hrun', Or.inl ⟨E, hsame.trans hE, Nat.le_of_lt hEm⟩⟩
  | started idle _ _ => simp [hrun] at idle
  | @passed _ e E' entry _ _ expected _ =>
    obtain ⟨now', a', hcall, rfl, hrecorded⟩ := Exchange.arrival_of_accepted? entry
    obtain ⟨rfl, rfl⟩ := EstimatorCall.arrival.inj hcall
    rcases Nat.lt_or_eq_of_le hma with hlt | heq
    · exact hnext hlt expected
    · obtain rfl : a.seq = m := SeqNumber.ahead_inj heq
      have hledger := (ledger_of_accepted h hrun entry hstep).trans hrecorded
      have hprev := SeqNumber.ahead_prev_of_lt hEm
      refine ⟨hrun', Or.inr ⟨?_, hm, by omega, fun n hlo hhi => Or.inl ?_⟩⟩
      · rw [hledger]
        exact (s.ledger.records_receive now a.seq).windowed hw hm
      · have hahead : n.ahead base = a.seq.ahead base := by omega
        rw [hledger, SeqNumber.ahead_inj hahead]
        exact LossLedger.settled_receive hw.size_pos now a.seq
  | @expired _ E' _ armed expected _ =>
    obtain rfl : E = E' := Option.some.inj (hE.symm.trans armed)
    exact hnext hEm expected
  | restarted _ restarted =>
    have := restarted.resets
    omega

theorem Minds.call (h : s.Minds base m) (hsound : s.Sound) (hw : s.ledger.Windowed base)
    (hprev : ∀ E ∈ s.expected, E.prev.InWindow base) (hm : m.InWindow base)
    (hwin : ∀ n ∈ Exchange.handled ⟨.cross s, c⟩, n.InWindow base)
    (hjump : ¬ Exchange.JumpsOver ⟨.cross s, c⟩ m)
    (hstep : ((Estimator.cross s).call c).state = .cross s')
    (hresets : s'.counters.resets = s.counters.resets) : s'.Minds base m := by
  obtain ⟨hrun, hminds⟩ := h
  have hrun' : s'.phase.isRunning = true := by
    rcases (shortMoves_call hsound hstep).running hrun with hrun' | ⟨t, ht, restarted⟩
    · exact hrun'
    · have := restarted.resets
      omega
  rcases hminds with ⟨E, hE, hEm⟩ | hpassed
  · have hEprev := hprev E hE
    have hEahead := SeqNumber.ahead_of_prev hEprev
    by_cases hkeeps : Exchange.KeepsUp ⟨.cross s, c⟩
    · obtain ⟨short, hshort, hpassed⟩ :=
        (covers_of_expected hw hE hEprev).call hsound hwin hkeeps hstep hresets
      have hends := SeqNumber.ahead_of_prev hpassed.inWindow
      rcases Nat.lt_or_ge (m.ahead base) (short.expected.ahead base) with hlt | hge
      · have hmprev : m.prev.ahead base + 1 = m.ahead base :=
          SeqNumber.ahead_prev_of_lt (b := E.prev) (by omega)
        exact ⟨hrun', Or.inr (hpassed.narrow (by omega) (by omega) (by omega))⟩
      · exact ⟨hrun', Or.inl ⟨short.expected, by simp [expected, hshort], hge⟩⟩
    · cases c with
      | repair a => exact absurd trivial hkeeps
      | timeout now key => exact absurd trivial hkeeps
      | withdrawn n => exact absurd trivial hkeeps
      | arrival now a =>
        obtain ⟨E', hE', hfar⟩ : ∃ E' ∈ s.expected, s.config.maxGap < E'.distance a.seq := by
          by_contra hnone
          exact hkeeps fun E' hE' => Int.not_lt.mp fun hfar => hnone ⟨E', hE', hfar⟩
        obtain rfl : E = E' := Option.some.inj (hE.symm.trans hE')
        have ha : a.seq.InWindow base := hwin a.seq (by simp [Exchange.handled])
        have hEwin : E.InWindow base := hwin E (mem_handled_of_expected hE)
        have hma : a.seq.ahead base ≤ m.ahead base := by
          refine Nat.le_of_not_lt fun hlt => hjump ⟨E, hE, hfar, ?_⟩
          exact SeqNumber.mem_between_of_ahead hEprev ha (by omega) hlt
        rw [SeqNumber.distance_of_inWindow hEwin ha] at hfar
        exact minds_of_jump hsound hrun hrun' hw hE (by omega) hm hma hstep hresets
  · exact ⟨hrun', Or.inr (hpassed.call hsound hrun hwin hstep hresets)⟩

theorem minds_of_expected (h : Estimator.SinceReset xs (.cross s)) (hrunning : s.stopped = false)
    (hm : m.InWindow base) (hwin : ∀ x ∈ xs, ∀ n ∈ x.handled, n.InWindow base)
    (hjumps : ∀ x ∈ xs, ¬ x.JumpsOver m)
    (hexpected : ∃ x ∈ xs, ∃ E ∈ x.expected?, E.ahead base ≤ m.ahead base) : s.Minds base m := by
  refine sinceReset_induction (P := fun xs s => s.stopped = false →
    (∀ x ∈ xs, ∀ n ∈ x.handled, n.InWindow base) → (∀ x ∈ xs, ¬ x.JumpsOver m) →
      (∃ x ∈ xs, ∃ E ∈ x.expected?, E.ahead base ≤ m.ahead base) → s.Minds base m)
    ?_ ?_ ?_ h hrunning hwin hjumps hexpected
  · exact fun _ _ _ _ _ ⟨x, hx, _⟩ => absurd hx List.not_mem_nil
  · intro xs s s' c hs ih hstep hresets hrunning hwin hjumps ⟨x, hx, E, hE, hle⟩
    have hbefore := fun x hx => hwin x (List.mem_append_left _ hx)
    have hsound := sound_of_sinceReset hs
    have hstopped : s.stopped = false := (stopped_of_call hstep).symm.trans hrunning
    have hminds : s.Minds base m := by
      rcases List.mem_append.mp hx with hx | hx
      · exact ih hstopped hbefore (fun y hy => hjumps y (List.mem_append_left _ hy))
          ⟨x, hx, E, hE, hle⟩
      · obtain rfl := List.mem_singleton.mp hx
        have hexpected : s.expected = some E := hE
        obtain ⟨short, hshort, -⟩ := Option.map_eq_some_iff.mp hexpected
        exact ⟨hsound.running_of_short hshort, Or.inl ⟨E, hE, hle⟩⟩
    exact hminds.call hsound (accounts hs hbefore).windowed (prev_expected_inWindow hs hbefore) hm
      (hwin _ (by simp)) (hjumps _ (by simp)) hstep hresets
  · intro xs s _ _ hrunning
    rw [stop, Step.state_alter] at hrunning
    exact absurd hrunning (by simp)

/-! ### Both sides of the start -/

/-- All numbers lie in one window and each flow brings its own in order. The call brings `e`, accepted
and not too far after `d`, the last arrival on its flow. The flow skipped `n > 0` of its numbers on
the way, just as many as numbers between the two are unresolved. -/
structure FlowGap (base : SeqNumber) (xs : List Exchange) (s : CrossPath) (c : EstimatorCall)
    (d e : FlowEntry) (n : Nat) : Prop where
  window : ∀ x ∈ xs ++ [⟨.cross s, c⟩], ∀ n ∈ x.handled, n.InWindow base
  inOrder : FlowTable.InOrder (entries (xs ++ [⟨.cross s, c⟩]))
  accepted : Exchange.accepted? ⟨.cross s, c⟩ = some e
  previous : ((entries xs).filter (·.flow = e.flow)).getLast? = some d
  positive : 0 < n
  skips : e.record.flowSeq = d.record.flowSeq.add (n + 1)
  near : d.record.seq.distance e.record.seq ≤ s.config.maxGap
  counted : ((Exchange.recorded ⟨.cross s, c⟩).unresolvedBetween d.record.seq
    e.record.seq).length = n

namespace FlowGap

variable (g : FlowGap base xs s c d e n)
include g

theorem entries_inWindow : ∀ e ∈ entries (xs ++ [⟨.cross s, c⟩]), e.record.seq.InWindow base := by
  intro e he
  obtain ⟨x, hx, hxe⟩ := List.mem_filterMap.mp he
  exact g.window x hx _ (Exchange.mem_handled_of_accepted? hxe)

theorem previous_mem : d ∈ entries xs :=
  (List.mem_filter.mp (List.mem_of_getLast? g.previous)).1

theorem behind (hm : m ∈ (Exchange.recorded ⟨.cross s, c⟩).unresolvedBetween d.record.seq
    e.record.seq) : m.ahead base < e.record.seq.ahead base := by
  have hd : d ∈ entries (xs ++ [⟨.cross s, c⟩]) := by
    rw [entries_append]
    exact List.mem_append_left _ g.previous_mem
  have he : e ∈ entries (xs ++ [⟨.cross s, c⟩]) := by simp [entries_append, g.accepted]
  exact (SeqNumber.ahead_of_mem_between (g.entries_inWindow d hd) (g.entries_inWindow e he)
    (LossLedger.mem_unresolvedBetween.mp hm).1).2

theorem declared (h : Estimator.SinceReset xs (.cross s)) (hidle : s.phase.isRunning = false)
    (hm : m ∈ (Exchange.recorded ⟨.cross s, c⟩).unresolvedBetween d.record.seq e.record.seq)
    (hslot : (Exchange.recorded ⟨.cross s, c⟩).overtaken m = false) :
    Exchange.ReportsLoss ⟨.cross s, c⟩ m := by
  have hwin := g.entries_inWindow
  have horder := g.inOrder
  have hcounted := g.counted
  have he := g.accepted
  rw [entries_append, he, Option.toList_some] at hwin horder
  have hearlier : ∀ e ∈ entries xs, e.record.seq.InWindow base := fun e he =>
    hwin e (List.mem_append_left _ he)
  have horder' : FlowTable.InOrder (entries xs) := (List.pairwise_append.mp horder).1
  obtain ⟨hd, hflow, hnewest⟩ := horder'.newest_of_last hearlier g.previous
  have hnewer := ((List.pairwise_append.mp horder).2.2 d hd e (List.mem_singleton_self e) hflow).2
  have hfew : n < 32768 := by
    have := SeqNumber.length_between_lt d.record.seq e.record.seq
    have := List.length_filter_le (!(Exchange.recorded ⟨.cross s, c⟩).isResolved ·)
      (d.record.seq.between e.record.seq)
    rw [LossLedger.unresolvedBetween] at hcounted
    omega
  have hsteps : e.record.flowSeq.ahead d.record.flowSeq = n + 1 := by
    rw [g.skips, SeqNumber.ahead_add_self (by omega)]
  have hpositive := g.positive
  obtain ⟨hafter, hskips⟩ := (follows_entries h hearlier horder'.inStep).gapAfter_of_ahead hd hflow
    hnewest hnewer hpositive hsteps
  refine reportsLoss_of_reveals (sound_of_sinceReset h) hidle he ?_ hm hslot
  exact ⟨hafter, by omega, g.near, hcounted.trans hskips.symm⟩

theorem keepsUp (h : Estimator.SinceReset xs (.cross s)) : Exchange.KeepsUp ⟨.cross s, c⟩ := by
  have hcall := g.window ⟨.cross s, c⟩ (by simp)
  have hbefore := fun x hx => g.window x (List.mem_append_left _ hx)
  have hd : d.record.seq.InWindow base := by
    refine g.entries_inWindow d ?_
    rw [entries_append]
    exact List.mem_append_left _ g.previous_mem
  have he : e.record.seq.InWindow base := hcall _ (Exchange.mem_handled_of_accepted? g.accepted)
  have hnear := g.near
  obtain ⟨now, a, hcall', rfl, -⟩ := Exchange.arrival_of_accepted? g.accepted
  obtain rfl : c = .arrival now a := hcall'
  intro E hE
  have hE' : E.InWindow base := hcall _ (mem_handled_of_expected hE)
  have hahead := (leads_of_sinceReset h hbefore).expected E hE d g.previous_mem
  rw [SeqNumber.distance_of_inWindow hd he] at hnear
  rw [SeqNumber.distance_of_inWindow hE' he]
  omega

theorem hasLong (h : Estimator.SinceReset xs (.cross s)) (hrun : s.phase.isRunning = true)
    (hm : m ∈ (Exchange.recorded ⟨.cross s, c⟩).unresolvedBetween d.record.seq e.record.seq)
    (hslot : (Exchange.recorded ⟨.cross s, c⟩).overtaken m = false)
    (hjumps : ∀ x ∈ xs, ¬ x.JumpsOver m)
    (hexpected : ∃ x ∈ xs ++ [⟨.cross s, c⟩], ∃ E ∈ x.expected?, E.ahead base ≤ m.ahead base)
    (hstep : ((Estimator.cross s).call c).state = .cross s') : s'.hasLong m = true := by
  have he := g.accepted
  have hhistory := sinceReset_call h hstep (heard_of_accepted he hstep).resets
  have hrunning : s'.stopped = false :=
    (stopped_of_call hstep).trans (Exchange.running_of_accepted? he)
  have hbehind := g.behind hm
  have hwindow : m.InWindow base :=
    Nat.lt_trans hbehind (g.window ⟨.cross s, c⟩ (by simp) _ (Exchange.mem_handled_of_accepted? he))
  have hjumps' : ∀ x ∈ xs ++ [⟨.cross s, c⟩], ¬ x.JumpsOver m := by
    intro x hx
    rcases List.mem_append.mp hx with hx | hx
    · exact hjumps x hx
    · rw [List.mem_singleton.mp hx]
      exact (g.keepsUp h).not_jumpsOver m
  have hunknown := (LossLedger.mem_unresolvedBetween.mp hm).2
  rcases (minds_of_expected hhistory hrunning hwindow g.window hjumps' hexpected).2 with
    ⟨E, hE, hle⟩ | hpassed
  -- The short timer is past the arrival, and so past the number.
  · have hlead := (leads_of_sinceReset hhistory g.window).expected E hE e
      (by simp [entries_append, he])
    omega
  · have hprev : m.prev.ahead base < m.ahead base :=
      Nat.lt_of_le_of_ne hpassed.behind fun heq => m.prev_ne_self (SeqNumber.ahead_inj heq)
    rcases hpassed.covered m hprev (Nat.le_refl _) with hsettled | hlong
    · rw [ledger_of_accepted (sound_of_sinceReset h) hrun he hstep, LossLedger.settled_iff,
        hunknown, hslot] at hsettled
      exact absurd hsettled (by simp)
    · exact hlong

end FlowGap

/-- Take any calls since the last reset and a call that reveals a gap on a flow as `FlowGap` says.
Each unresolved number in the gap that has not lost its slot in the bounded history to a newer number
is reported lost by the call if the timers do not run yet. If they run, it has a long timer after the
call, as long as no arrival has jumped over it too far ahead of the short timer to be covered, and the
short timer has ever expected a number that is not after it. -/
theorem gap_declared_or_covered (h : Estimator.SinceReset xs (.cross s)) (c : EstimatorCall)
    (gap : FlowGap base xs s c d e n) :
    ∀ m ∈ (Exchange.recorded ⟨.cross s, c⟩).unresolvedBetween d.record.seq e.record.seq,
      (Exchange.recorded ⟨.cross s, c⟩).overtaken m = false →
        (s.phase.isRunning = false → Exchange.ReportsLoss ⟨.cross s, c⟩ m) ∧
        (s.phase.isRunning = true → (∀ x ∈ xs, ¬ x.JumpsOver m) →
          (∃ x ∈ xs ++ [⟨.cross s, c⟩], ∃ E ∈ x.expected?, E.ahead base ≤ m.ahead base) →
            ∃ s', ((Estimator.cross s).call c).state = .cross s' ∧ s'.hasLong m = true) := by
  intro m hm hslot
  refine ⟨fun hidle => gap.declared h hidle hm hslot, fun hrun hjumps hexpected => ?_⟩
  obtain ⟨s', hstep⟩ := s.call_state c
  exact ⟨s', hstep, gap.hasLong h hrun hm hslot hjumps hexpected hstep⟩

theorem flowGap_of_run {start : CrossPath} {calls : List EstimatorCall}
    (hs : (Estimator.cross start).after calls = .cross s)
    (window : ∀ x ∈ (Estimator.cross start).exchanges (calls ++ [c]), ∀ n ∈ x.handled,
      n.InWindow base)
    (inOrder : FlowTable.InOrder (entries ((Estimator.cross start).exchanges (calls ++ [c]))))
    (accepted : Exchange.accepted? ⟨(Estimator.cross start).after calls, c⟩ = some e)
    (previous : ((entries ((Estimator.cross start).exchanges calls)).filter
      (·.flow = e.flow)).getLast? = some d)
    (positive : 0 < n) (skips : e.record.flowSeq = d.record.flowSeq.add (n + 1))
    (near : ∀ s ∈ ((Estimator.cross start).after calls).asCross?,
      d.record.seq.distance e.record.seq ≤ s.config.maxGap)
    (counted : ((Exchange.recorded ⟨(Estimator.cross start).after calls, c⟩).unresolvedBetween
      d.record.seq e.record.seq).length = n) :
    FlowGap base ((Estimator.cross start).exchanges calls) s c d e n := by
  rw [Estimator.exchanges_concat, hs] at window inOrder
  rw [hs] at accepted near counted
  exact ⟨window, inOrder, accepted, previous, positive, skips, near s rfl, counted⟩

theorem gap_declared_or_covered_of_quick :
    let learning : List EstimatorCall :=
      [.arrival (.ofMillis 20) (.onFlow (.ofNat 1) 0 (.ofNat 1)),
        .arrival (.ofMillis 40) (.onFlow (.ofNat 2) 1 (.ofNat 1)),
        .arrival (.ofMillis 60) (.onFlow (.ofNat 4) 1 (.ofNat 2))]
    let c : EstimatorCall := .arrival (.ofMillis 80) (.onFlow (.ofNat 5) 0 (.ofNat 3))
    let c' : EstimatorCall := .arrival (.ofMillis 200) (.onFlow (.ofNat 10) 1 (.ofNat 5))
    (∃ s d e, FlowGap (.ofNat 1) ((Estimator.cross quick).exchanges learning) s c d e 1 ∧
      Exchange.ReportsLoss ⟨.cross s, c⟩ (.ofNat 3)) ∧
    ∃ s d e s', FlowGap (.ofNat 1) ((Estimator.cross quick).exchanges skipping) s c' d e 1 ∧
      ((Estimator.cross s).call c').state = .cross s' ∧ s'.hasLong (.ofNat 8) = true := by
  intro learning c c'
  constructor
  · obtain ⟨s, hs⟩ := quick.after_state learning
    have history : Estimator.SinceReset ((Estimator.cross quick).exchanges learning) (.cross s) :=
      hs ▸ .of_fresh fresh_quick (by decide +kernel)
    have gap : FlowGap (.ofNat 1) ((Estimator.cross quick).exchanges learning) s c
        ⟨0, .ofNat 1, .ofNat 1, .ofMillis 20⟩ ⟨0, .ofNat 5, .ofNat 3, .ofMillis 80⟩ 1 := by
      apply flowGap_of_run hs <;> decide +kernel
    have idle : ((Estimator.cross quick).after learning).asCross?.map (·.phase.isRunning) =
        some false := by
      decide +kernel
    have missing : .ofNat 3 ∈ (Exchange.recorded
        ⟨(Estimator.cross quick).after learning, c⟩).unresolvedBetween (.ofNat 1) (.ofNat 5) := by
      decide +kernel
    have slot : (Exchange.recorded ⟨(Estimator.cross quick).after learning, c⟩).overtaken
        (.ofNat 3) = false := by
      decide +kernel
    rw [hs] at idle missing slot
    exact ⟨s, _, _, gap,
      (gap_declared_or_covered history c gap _ missing slot).1 (Option.some.inj idle)⟩
  · obtain ⟨s, hs⟩ := quick.after_state skipping
    have history : Estimator.SinceReset ((Estimator.cross quick).exchanges skipping) (.cross s) :=
      hs ▸ .of_fresh fresh_quick (by decide +kernel)
    have gap : FlowGap (.ofNat 1) ((Estimator.cross quick).exchanges skipping) s c'
        ⟨1, .ofNat 6, .ofNat 3, .ofMillis 120⟩ ⟨1, .ofNat 10, .ofNat 5, .ofMillis 200⟩ 1 := by
      apply flowGap_of_run hs <;> decide +kernel
    have running : ((Estimator.cross quick).after skipping).asCross?.map (·.phase.isRunning) =
        some true := by
      decide +kernel
    have missing : .ofNat 8 ∈ (Exchange.recorded
        ⟨(Estimator.cross quick).after skipping, c'⟩).unresolvedBetween (.ofNat 6) (.ofNat 10) := by
      decide +kernel
    have slot : (Exchange.recorded ⟨(Estimator.cross quick).after skipping, c'⟩).overtaken
        (.ofNat 8) = false := by
      decide +kernel
    have jumps : ∀ x ∈ (Estimator.cross quick).exchanges skipping, ¬ x.JumpsOver (.ofNat 8) := by
      have keeps : ∀ x ∈ (Estimator.cross quick).exchanges skipping, x.KeepsUp := by decide +kernel
      exact fun x hx => (keeps x hx).not_jumpsOver _
    have listed : ((Estimator.cross quick).exchanges skipping).any fun x =>
        x.expected? = some (.ofNat 8) := by
      decide +kernel
    obtain ⟨x, hx, hE⟩ := List.any_eq_true.mp listed
    rw [hs] at running missing slot
    obtain ⟨s', hstep, hlong⟩ := (gap_declared_or_covered history c' gap _ missing slot).2
      (Option.some.inj running) jumps
      ⟨x, List.mem_append_left _ hx, _, of_decide_eq_true hE, Nat.le_refl _⟩
    exact ⟨s, _, _, s', gap, hstep, hlong⟩

/-- A sender puts numbers on flows as `sent` says, and they come as sent, without repairs. Then `c`
brings `e`, which reveals that just `m` is missing on its flow after `d`; but `m` is never reported
lost, and it has no long timer after the call. -/
structure Unnoticed (sent : List (SeqNumber × FlowPosition)) (xs : List Exchange) (s : CrossPath)
    (c : EstimatorCall) (d e : FlowEntry) (m : SeqNumber) : Prop where
  history : Estimator.SinceReset xs (.cross s)
  sender : Sends (.ofNat 1) (sent.lookup ·)
  gap : FlowGap (.ofNat 1) xs s c d e 1
  sent : ∀ x ∈ xs ++ [⟨.cross s, c⟩], x.call.Routed (sent.lookup ·) ∧ x.repair? = none
  missing : (Exchange.recorded ⟨.cross s, c⟩).unresolvedBetween d.record.seq e.record.seq = [m]
  unreported : ∀ x ∈ xs ++ [⟨.cross s, c⟩], ¬ x.ReportsLoss m
  untimed : ((Estimator.cross s).call c).state.asCross?.any (·.hasLong m) = false

theorem unnoticed_of_run {start : CrossPath} {calls : List EstimatorCall}
    {sent : List (SeqNumber × FlowPosition)} (fresh : (Estimator.cross start).Fresh)
    (unreset : ((Estimator.cross start).after calls).diagnostics.resets =
      (Estimator.cross start).diagnostics.resets)
    (hs : (Estimator.cross start).after calls = .cross s)
    (sender : Sends (.ofNat 1) (sent.lookup ·))
    (gap : FlowGap (.ofNat 1) ((Estimator.cross start).exchanges calls) s c d e 1)
    (quiet : ∀ x ∈ (Estimator.cross start).exchanges (calls ++ [c]),
      (x.call.Routed (sent.lookup ·) ∧ x.repair? = none) ∧ ¬ x.ReportsLoss m)
    (missing : (Exchange.recorded ⟨(Estimator.cross start).after calls, c⟩).unresolvedBetween
      d.record.seq e.record.seq = [m])
    (untimed : (((Estimator.cross start).after calls).call c).state.asCross?.any (·.hasLong m) =
      false) :
    Unnoticed sent ((Estimator.cross start).exchanges calls) s c d e m := by
  rw [Estimator.exchanges_concat, hs] at quiet
  rw [hs] at missing untimed
  exact ⟨hs ▸ .of_fresh fresh unreset, sender, gap, fun x hx => (quiet x hx).1, missing,
    fun x hx => (quiet x hx).2, untimed⟩

/-- Number 7 is lost while the estimator still learns. With 8 it starts its timers, which expect 9
next; so when 9 reveals the gap on its flow, nothing is read off it and no timer has ever been armed
for 7. -/
theorem gap_before_start_unnoticed :
    let c : EstimatorCall := .arrival (.ofMillis 160) (.onFlow (.ofNat 9) 1 (.ofNat 5))
    let sent : List (SeqNumber × FlowPosition) :=
      [(.ofNat 1, ⟨0, .ofNat 1⟩), (.ofNat 2, ⟨1, .ofNat 1⟩), (.ofNat 3, ⟨0, .ofNat 2⟩),
        (.ofNat 4, ⟨1, .ofNat 2⟩), (.ofNat 5, ⟨0, .ofNat 3⟩), (.ofNat 6, ⟨1, .ofNat 3⟩),
        (.ofNat 7, ⟨1, .ofNat 4⟩), (.ofNat 8, ⟨0, .ofNat 4⟩), (.ofNat 9, ⟨1, .ofNat 5⟩)]
    ∃ s d e, Unnoticed sent
      ((Estimator.cross quick).exchanges (skipping.take 6 ++
        [.arrival (.ofMillis 140) (.onFlow (.ofNat 8) 0 (.ofNat 4))])) s c d e (.ofNat 7) := by
  intro c sent
  obtain ⟨s, hs⟩ := quick.after_state (skipping.take 6 ++
    [.arrival (.ofMillis 140) (.onFlow (.ofNat 8) 0 (.ofNat 4))])
  refine ⟨s, ⟨1, .ofNat 6, .ofNat 3, .ofMillis 120⟩, ⟨1, .ofNat 9, .ofNat 5, .ofMillis 160⟩, ?_⟩
  refine unnoticed_of_run fresh_quick ?_ hs (sends_lookup ?_ ?_) ?gap ?_ ?_ ?_
  case gap => apply flowGap_of_run hs <;> decide +kernel
  all_goals decide +kernel

/-- The two limits by design: 1026 has taken the slot of 2 in the bounded history; and 521 has jumped
over 8 so far that the short timer gives up the numbers in between, with a note. -/
theorem gap_beyond_limits :
    let c : EstimatorCall := .arrival (.ofMillis 60) (.onFlow (.ofNat 3) 0 (.ofNat 3))
    let c' : EstimatorCall := .arrival (.ofMillis 180) (.onFlow (.ofNat 9) 1 (.ofNat 5))
    (∃ s d e, Unnoticed [(.ofNat 1, ⟨0, .ofNat 1⟩), (.ofNat 2, ⟨0, .ofNat 2⟩),
        (.ofNat 3, ⟨0, .ofNat 3⟩), (.ofNat 1026, ⟨1, .ofNat 1⟩)]
      ((Estimator.cross quick).exchanges
        [.arrival (.ofMillis 20) (.onFlow (.ofNat 1) 0 (.ofNat 1)),
          .arrival (.ofMillis 40) (.onFlow (.ofNat 1026) 1 (.ofNat 1))]) s c d e (.ofNat 2)) ∧
    ∃ s d e, Unnoticed [(.ofNat 1, ⟨0, .ofNat 1⟩), (.ofNat 2, ⟨1, .ofNat 1⟩),
        (.ofNat 3, ⟨0, .ofNat 2⟩), (.ofNat 4, ⟨1, .ofNat 2⟩), (.ofNat 5, ⟨0, .ofNat 3⟩),
        (.ofNat 6, ⟨1, .ofNat 3⟩), (.ofNat 7, ⟨0, .ofNat 4⟩), (.ofNat 8, ⟨1, .ofNat 4⟩),
        (.ofNat 9, ⟨1, .ofNat 5⟩), (.ofNat 521, ⟨0, .ofNat 5⟩)]
      ((Estimator.cross quick).exchanges (skipping.take 7 ++
        [.arrival (.ofMillis 160) (.onFlow (.ofNat 521) 0 (.ofNat 5))])) s c' d e (.ofNat 8) := by
  intro c c'
  constructor
  · obtain ⟨s, hs⟩ := quick.after_state
      [.arrival (.ofMillis 20) (.onFlow (.ofNat 1) 0 (.ofNat 1)),
        .arrival (.ofMillis 40) (.onFlow (.ofNat 1026) 1 (.ofNat 1))]
    refine ⟨s, ⟨0, .ofNat 1, .ofNat 1, .ofMillis 20⟩, ⟨0, .ofNat 3, .ofNat 3, .ofMillis 60⟩, ?_⟩
    refine unnoticed_of_run fresh_quick ?_ hs (sends_lookup ?_ ?_) ?gap ?_ ?_ ?_
    case gap => apply flowGap_of_run hs <;> decide +kernel
    all_goals decide +kernel
  · obtain ⟨s, hs⟩ := quick.after_state (skipping.take 7 ++
      [.arrival (.ofMillis 160) (.onFlow (.ofNat 521) 0 (.ofNat 5))])
    refine ⟨s, ⟨1, .ofNat 6, .ofNat 3, .ofMillis 120⟩, ⟨1, .ofNat 9, .ofNat 5, .ofMillis 180⟩, ?_⟩
    refine unnoticed_of_run fresh_quick ?_ hs (sends_lookup ?_ ?_) ?gap ?_ ?_ ?_
    case gap => apply flowGap_of_run hs <;> decide +kernel
    all_goals decide +kernel

end CrossPath
end LossWatch
