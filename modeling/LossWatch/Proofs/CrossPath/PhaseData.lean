import LossWatch.Proofs.CrossPath.History

/-!
The phase and the data of the cross-path estimator agree in every reachable state. The short timer is
there exactly while the estimator runs, unless it is stopped, and it moves in few ways: it starts
after the newest number, it goes past an arrival that has reached it, it expires, or all starts over.
So it expects a number that is newer than all that have arrived.
-/

namespace LossWatch.CrossPath

variable {s s' t : CrossPath} {c : EstimatorCall} {xs : List Exchange} {base n : SeqNumber}

/-! ### How the short timer moves -/

inductive ShortMoves (s : CrossPath) (c : EstimatorCall) : CrossPath → Prop
  | kept {s' : CrossPath} (expected : s'.expected = s.expected)
      (running : s'.phase.isRunning = s.phase.isRunning)
      (behind : ∀ e ∈ Exchange.accepted? ⟨.cross s, c⟩, ∀ E ∈ s.expected,
        e.record.seq.newerOrEqual E = false) : ShortMoves s c s'
  | started {s' : CrossPath} {m : SeqNumber} (idle : s.phase.isRunning = false)
      (newest : s'.maxSeen = some m) (expected : s'.expected = some m.next) : ShortMoves s c s'
  | passed {s' : CrossPath} {e : FlowEntry} {E : SeqNumber}
      (entry : Exchange.accepted? ⟨.cross s, c⟩ = some e) (armed : s.expected = some E)
      (reached : e.record.seq.newerOrEqual E = true)
      (expected : s'.expected = some e.record.seq.next)
      (running : s'.phase.isRunning = s.phase.isRunning) : ShortMoves s c s'
  | expired {s' : CrossPath} {E : SeqNumber} (silent : Exchange.accepted? ⟨.cross s, c⟩ = none)
      (armed : s.expected = some E) (expected : s'.expected = some E.next)
      (running : s'.phase.isRunning = s.phase.isRunning) : ShortMoves s c s'
  | restarted {t s' : CrossPath} (resets : t.counters.resets = s.counters.resets)
      (restarted : t.StartedOver s') : ShortMoves s c s'

theorem ShortMoves.unchanged (hshort : s'.short = s.short) (hphase : s'.phase = s.phase)
    (hsilent : Exchange.accepted? ⟨.cross s, c⟩ = none) : s.ShortMoves c s' :=
  .kept (by rw [expected, expected, hshort]) (by rw [hphase]) (by simp [hsilent])

theorem Reconciled.shortMoves {now : Timestamp} {a : Arrival}
    (hentry : Exchange.accepted? ⟨.cross s, .arrival now a⟩ =
      some ⟨a.place.flow, a.seq, a.place.flowSeq, now⟩)
    (entered : s.Entered now a.seq t) (h : t.Reconciled a.seq s') :
    s.ShortMoves (.arrival now a) s' := by
  have hexpected : s.expected = t.expected := by rw [expected, expected, entered.short]
  have harmed : ∀ {short : ShortTimer}, t.short = some short →
      s.expected = some short.expected := fun armed => by
    rw [hexpected, expected, armed, Option.map_some]
  cases h with
  | unarmed none =>
    have hnone : s.expected = Option.none := by rw [hexpected, expected, none, Option.map_none]
    exact .kept hexpected.symm entered.running (by simp [hnone])
  | waiting armed later =>
    refine .kept hexpected.symm entered.running ?_
    intro e he E hE
    rw [hentry] at he
    rw [harmed armed] at hE
    cases he
    cases hE
    exact later
  | far armed reached _ next =>
    exact .passed hentry (harmed armed) reached (congrArg some next) entered.running
  | near armed reached _ next =>
    exact .passed hentry (harmed armed) reached (congrArg some next) entered.running

theorem shortMoves_onArrival (h : s.Sound) (now : Timestamp) (a : Arrival) :
    s.ShortMoves (.arrival now a) (s.onArrival now a).state := by
  have htold := s.told_onArrival now a
  cases hstopped : s.stopped with
  | true =>
    have hstay : s.onArrival now a = .stay s := by simp only [onArrival, hstopped, if_true]
    rw [hstay]
    exact .unchanged rfl rfl (by simp [Exchange.accepted?, Estimator.isStopped, hstopped])
  | false =>
    have hentry : (s.ledger.receive now a.seq).1.isRecorded = true →
        Exchange.accepted? ⟨.cross s, .arrival now a⟩ =
          some ⟨a.place.flow, a.seq, a.place.flowSeq, now⟩ :=
      fun hr => Exchange.accepted?_arrival.mpr ⟨hstopped, hr, rfl⟩
    have harrived := arrived_onArrival hstopped h.anchored now a
    generalize (s.onArrival now a).state = s' at harrived htold ⊢
    cases harrived with
    | ignored known =>
      refine .unchanged rfl rfl ?_
      simp [Exchange.accepted?, Estimator.isStopped, Estimator.ledger, hstopped, known]
    | learned recorded entered idle learned =>
      have hnone : s.short = none := (h.idle idle).1
      cases hrun : s'.phase.isRunning with
      | false =>
        have hshort : s'.short = none := (learned.idle hrun).trans (entered.short.trans hnone)
        refine .kept ?_ (hrun.trans idle.symm) ?_
        · simp only [expected, hshort, hnone]
        · simp [expected, hnone]
      | true =>
        obtain ⟨m, hexpected⟩ := learned.started hrun
        cases htold with
        | heard _ heard =>
          exact .started idle heard.maxSeen (by simpa [heard.maxSeen] using hexpected)
        | silent entry _ => simp [hentry recorded] at entry
        | restarted _ restarted => simp [restarted.idle] at hrun
    | followed recorded entered _ reconciled =>
      exact reconciled.shortMoves (hentry recorded) entered

theorem shortMoves_onRepair (s : CrossPath) (a : Arrival) :
    s.ShortMoves (.repair a) (s.onRepair a).state := by
  cases hstopped : s.stopped with
  | true =>
    have hstay : s.onRepair a = .stay s := by simp only [onRepair, hstopped, if_true]
    rw [hstay]
    exact .unchanged rfl rfl rfl
  | false =>
    obtain ⟨long, hstate, -⟩ := onRepair_state hstopped a
    rw [hstate]
    exact .unchanged rfl rfl rfl

theorem shortMoves_onTimeout (h : s.Sound) (now : Timestamp) (key : TimerKey) :
    s.ShortMoves (.timeout now key) (s.onTimeout now key).state := by
  simp only [onTimeout]
  split
  · exact .unchanged rfl rfl rfl
  · cases key with
    | basic => exact .unchanged rfl rfl rfl
    | short =>
      cases harmed : s.short with
      | none =>
        have hstay : s.onShortTimeout now = .stay s := by rw [onShortTimeout, harmed]
        rw [hstay]
        exact .unchanged rfl rfl rfl
      | some short =>
        have hrun := h.running_of_short harmed
        obtain ⟨short', long, counters, hnext, -, hstate⟩ :=
          onShortTimeout_state harmed (h.anchored hrun) now
        rw [hstate]
        exact .expired rfl (by rw [expected, harmed]; rfl) (congrArg some hnext) rfl
    | long n =>
      have hexpired := s.longExpired_onLongTimeout now n
      dsimp only
      generalize (s.onLongTimeout now n).state = s' at hexpired
      cases hexpired with
      | unarmed => exact .unchanged rfl rfl rfl
      | late => exact .unchanged rfl rfl rfl
      | declared => exact .unchanged rfl rfl rfl
      | reset _ resets restarted => exact .restarted resets restarted

theorem shortMoves_call (h : s.Sound) (hstep : ((Estimator.cross s).call c).state = .cross s') :
    s.ShortMoves c s' := by
  cases c with
  | arrival now a => cases hstep; exact shortMoves_onArrival h now a
  | repair a => cases hstep; exact s.shortMoves_onRepair a
  | timeout now key => cases hstep; exact shortMoves_onTimeout h now key
  | withdrawn n => cases hstep; exact .unchanged rfl rfl rfl

theorem ShortMoves.running (h : s.ShortMoves c s') (hrun : s.phase.isRunning = true) :
    s'.phase.isRunning = true ∨
      ∃ t : CrossPath, t.counters.resets = s.counters.resets ∧ t.StartedOver s' := by
  cases h with
  | kept _ running _ => exact Or.inl (running.trans hrun)
  | started idle _ _ => simp [hrun] at idle
  | passed _ _ _ _ running => exact Or.inl (running.trans hrun)
  | expired _ _ _ running => exact Or.inl (running.trans hrun)
  | restarted resets restarted => exact Or.inr ⟨_, resets, restarted⟩

/-! ### Timers and phases -/

structure Timed (s : CrossPath) : Prop where
  armed : s.stopped = false → s.phase.isRunning = true → s.short.isSome = true
  quiet : s.stopped = true → s.short = none ∧ s.long = []

theorem stopped_of_call (hstep : ((Estimator.cross s).call c).state = .cross s') :
    s'.stopped = s.stopped := by
  have hkept := (Exchange.kept ⟨.cross s, c⟩).2.1
  rwa [show Exchange.step ⟨.cross s, c⟩ = (Estimator.cross s).call c from rfl, hstep] at hkept

theorem call_of_stopped (h : s.stopped = true)
    (hstep : ((Estimator.cross s).call c).state = .cross s') :
    s'.short = s.short ∧ s'.long = s.long := by
  have hstopped : (Estimator.cross s).isStopped = true := h
  cases c with
  | arrival now a =>
    rw [Estimator.call, Estimator.onArrival_of_stopped hstopped] at hstep
    cases hstep
    exact ⟨rfl, rfl⟩
  | repair a =>
    rw [Estimator.call, Estimator.onRepair_of_stopped hstopped] at hstep
    cases hstep
    exact ⟨rfl, rfl⟩
  | timeout now key =>
    have hstay : s.onTimeout now key = .stay s := by simp only [onTimeout, h, if_true]
    obtain rfl : (s.onTimeout now key).state = s' := Estimator.cross.inj hstep
    rw [hstay]
    exact ⟨rfl, rfl⟩
  | withdrawn n => cases hstep; exact ⟨rfl, rfl⟩

theorem Timed.call (ht : s.Timed) (h : s.Sound)
    (hstep : ((Estimator.cross s).call c).state = .cross s') : s'.Timed := by
  have hstopped := stopped_of_call hstep
  constructor
  · intro hrunning hrun
    rw [hstopped] at hrunning
    have hsome : ∀ {E : SeqNumber}, s'.expected = some E → s'.short.isSome = true := by
      intro E hE
      rw [expected, Option.map_eq_some_iff] at hE
      obtain ⟨short, hshort, -⟩ := hE
      rw [hshort]
      rfl
    cases shortMoves_call h hstep with
    | kept hexpected running _ =>
      have harmed := ht.armed hrunning (running.symm.trans hrun)
      obtain ⟨short, hshort⟩ := Option.isSome_iff_exists.mp harmed
      exact hsome (E := short.expected) (hexpected.trans (by rw [expected, hshort]; rfl))
    | started _ _ hexpected => exact hsome hexpected
    | passed _ _ _ hexpected _ => exact hsome hexpected
    | expired _ _ hexpected _ => exact hsome hexpected
    | restarted _ restarted => simp [restarted.idle] at hrun
  · intro hquiet
    obtain ⟨hshort, hlong⟩ := call_of_stopped (hstopped.symm.trans hquiet) hstep
    rw [hshort, hlong]
    exact ht.quiet (hstopped.symm.trans hquiet)

theorem timed_of_sinceReset (h : Estimator.SinceReset xs (.cross s)) : s.Timed := by
  refine sinceReset_induction (P := fun _ s => s.Timed) ?_ ?_ ?_ h
  · intro s _ hblank
    exact ⟨fun _ hrun => by simp [hblank.phase, CrossPhase.isRunning] at hrun,
      fun _ => ⟨hblank.short, hblank.long⟩⟩
  · intro xs s s' c hs ih hstep _
    exact ih.call (sound_of_sinceReset hs) hstep
  · intro xs s _ _
    rw [stop, Step.state_alter, cancelTimers_state]
    exact ⟨fun hstopped => by simp at hstopped, fun _ => ⟨rfl, rfl⟩⟩

theorem consistent_of_sinceReset (h : Estimator.SinceReset xs (.cross s)) : s.Consistent := by
  refine sinceReset_induction (P := fun _ s => s.Consistent) ?_ ?_ ?_ h
  · intro s _ hblank
    constructor
    · simp [hblank.awaited, hblank.phase]
    · exact iff_of_true hblank.order hblank.phase
    · exact fun hleft => absurd hblank.phase hleft
  · intro xs s s' c _ ih hstep hresets
    rcases (told_call hstep).unreset hresets with ⟨e, -, hheard⟩ | ⟨-, hcoheres⟩
    · exact hheard.consistent ih
    · exact hcoheres.consistent ih
  · intro xs s _ ih
    rw [stop, Step.state_alter, cancelTimers_state]
    exact ⟨ih.awaited, ih.order, ih.anchored⟩

/-! ### The number expected -/

/-- The newest number is not behind the entries, and the expected number is ahead of them. -/
structure Leads (base : SeqNumber) (es : List FlowEntry) (s : CrossPath) : Prop where
  inWindow : ∀ m ∈ s.maxSeen, m.InWindow base
  newest : ∀ e ∈ es, ∃ m ∈ s.maxSeen, e.record.seq.ahead base ≤ m.ahead base
  expected : ∀ E ∈ s.expected, ∀ e ∈ es, e.record.seq.ahead base < E.ahead base

theorem mem_handled_of_expected {E : SeqNumber} (h : s.expected = some E) :
    E ∈ Exchange.handled ⟨.cross s, c⟩ := by
  have hmem : E ∈ (Estimator.cross s).awaited :=
    List.mem_append_left _ (Option.mem_toList.mpr h)
  cases c with
  | arrival now a => exact List.mem_cons_of_mem _ hmem
  | repair a => exact List.mem_cons_of_mem _ hmem
  | timeout now key => exact hmem
  | withdrawn n => exact hmem

namespace Leads

variable {es : List FlowEntry}

theorem heard {e : FlowEntry} (h : s.Leads base es) (hh : s.Heard e s')
    (he : e.record.seq.InWindow base) : (∀ m ∈ s'.maxSeen, m.InWindow base) ∧
      ∀ f ∈ es ++ [e], ∃ m ∈ s'.maxSeen, f.record.seq.ahead base ≤ m.ahead base := by
  rw [hh.maxSeen]
  cases hm : s.maxSeen with
  | none =>
    refine ⟨by simpa using he, fun f hf => ⟨_, rfl, ?_⟩⟩
    rcases List.mem_append.mp hf with hf | hf
    · obtain ⟨m, hmem, -⟩ := h.newest f hf
      simp [hm] at hmem
    · rw [List.mem_singleton.mp hf]
      exact Nat.le_refl _
  | some m =>
    obtain ⟨hin, hold, hnew⟩ := SeqNumber.ahead_newest (h.inWindow m hm) he
    rw [Option.elim_some]
    refine ⟨by simpa using hin, fun f hf => ⟨_, rfl, ?_⟩⟩
    rcases List.mem_append.mp hf with hf | hf
    · obtain ⟨m', hmem, hle⟩ := h.newest f hf
      obtain rfl : m = m' := Option.some.inj (hm.symm.trans hmem)
      exact Nat.le_trans hle hold
    · rw [List.mem_singleton.mp hf]
      exact hnew

theorem newest_call (h : s.Leads base es) (hstep : ((Estimator.cross s).call c).state = .cross s')
    (hresets : s'.counters.resets = s.counters.resets)
    (hwin : ∀ n ∈ Exchange.handled ⟨.cross s, c⟩, n.InWindow base) :
    (∀ m ∈ s'.maxSeen, m.InWindow base) ∧
      ∀ f ∈ es ++ (Exchange.accepted? ⟨.cross s, c⟩).toList,
        ∃ m ∈ s'.maxSeen, f.record.seq.ahead base ≤ m.ahead base := by
  rcases (told_call hstep).unreset hresets with ⟨e, he, hheard⟩ | ⟨he, hcoheres⟩
  · rw [he]
    exact h.heard hheard (hwin _ (Exchange.mem_handled_of_accepted? he))
  · rw [he, Option.toList_none, List.append_nil, hcoheres.maxSeen]
    exact ⟨h.inWindow, h.newest⟩

theorem call (h : s.Leads base es) (hsound : s.Sound)
    (hstep : ((Estimator.cross s).call c).state = .cross s')
    (hresets : s'.counters.resets = s.counters.resets)
    (hwin : ∀ n ∈ Exchange.handled ⟨.cross s, c⟩, n.InWindow base) :
    s'.Leads base (es ++ (Exchange.accepted? ⟨.cross s, c⟩).toList) := by
  have hentry : ∀ {e : FlowEntry}, Exchange.accepted? ⟨.cross s, c⟩ = some e →
      e.record.seq.InWindow base := fun he => hwin _ (Exchange.mem_handled_of_accepted? he)
  have hexpected : ∀ {E : SeqNumber}, s.expected = some E → E.InWindow base := fun hE =>
    hwin _ (mem_handled_of_expected hE)
  obtain ⟨hin, hnewest⟩ := h.newest_call hstep hresets hwin
  refine ⟨hin, hnewest, fun E' hE' f hf => ?_⟩
  have hold : ∀ {E : SeqNumber}, s.expected = some E → f ∈ es →
      f.record.seq.ahead base < E.ahead base := fun hE hf => h.expected _ hE f hf
  cases shortMoves_call hsound hstep with
  | kept hsame _ hbehind =>
    have hE : s.expected = some E' := hsame.symm.trans hE'
    rcases List.mem_append.mp hf with hf | hf
    · exact hold hE hf
    · have hf' := Option.mem_toList.mp hf
      have hlater := hbehind f hf' E' hE
      have hreached := SeqNumber.newerOrEqual_iff (hentry hf') (hexpected hE)
      rw [hlater] at hreached
      exact Nat.lt_of_not_le fun hle => by simp [hle] at hreached
  | @started _ m _ hm hstart =>
    obtain rfl : m.next = E' := Option.some.inj (hstart.symm.trans hE')
    obtain ⟨m', hmem, hle⟩ := hnewest f hf
    obtain rfl : m = m' := Option.some.inj (hm.symm.trans hmem)
    rw [SeqNumber.ahead_next_of_inWindow (hin m hm)]
    exact Nat.lt_succ_of_le hle
  | @passed _ e E hee armed reached hpass _ =>
    obtain rfl : e.record.seq.next = E' := Option.some.inj (hpass.symm.trans hE')
    rw [SeqNumber.ahead_next_of_inWindow (hentry hee)]
    rw [SeqNumber.newerOrEqual_iff (hentry hee) (hexpected armed)] at reached
    rcases List.mem_append.mp hf with hf | hf
    · have := hold armed hf
      omega
    · rw [hee] at hf
      rw [show f = e by simpa using hf]
      omega
  | @expired _ E silent armed hpass _ =>
    obtain rfl : E.next = E' := Option.some.inj (hpass.symm.trans hE')
    rw [silent, Option.toList_none, List.append_nil] at hf
    rw [SeqNumber.ahead_next_of_inWindow (hexpected armed)]
    exact Nat.lt_succ_of_lt (hold armed hf)
  | restarted before restarted =>
    have := restarted.resets
    omega

end Leads

theorem leads_of_sinceReset (h : Estimator.SinceReset xs (.cross s))
    (hwin : ∀ x ∈ xs, ∀ n ∈ x.handled, n.InWindow base) : s.Leads base (entries xs) := by
  refine sinceReset_induction (P := fun xs s => (∀ x ∈ xs, ∀ n ∈ x.handled, n.InWindow base) →
    s.Leads base (entries xs)) ?_ ?_ ?_ h hwin
  · intro s _ hblank _
    exact ⟨by simp [hblank.maxSeen], by simp [entries], by simp [entries]⟩
  · intro xs s s' c hs ih hstep hresets hwin
    rw [entries_append]
    exact (ih fun x hx => hwin x (List.mem_append_left _ hx)).call (sound_of_sinceReset hs) hstep
      hresets (hwin _ (by simp))
  · intro xs s _ ih hwin
    obtain ⟨hin, hnewest, -⟩ := ih hwin
    rw [stop, Step.state_alter, cancelTimers_state]
    exact ⟨hin, hnewest, by simp [expected]⟩

/-! ### The agreement -/

/-- In every reachable state that is not stopped, the short timer is there exactly in the two running
phases, a number is awaited exactly in the phase that waits for it, the order is empty exactly in the
first phase and an anchor is set in all others, and long timers are out only in a running phase. A
stopped estimator has no timer. As long as the numbers since the last reset lie in one window, the
number expected next comes behind every arrival accepted since, and is newer if it lies in the window
too. Calls and stopping do not end a running phase, unless by a full reset. -/
theorem phase_agrees_with_data (h : Estimator.SinceReset xs (.cross s)) :
    (s.stopped = false →
      (s.short.isSome = true ↔ s.phase = .estRunningA ∨ s.phase = .estRunningB) ∧
      (s.awaited.isSome = true ↔ s.phase = .learnAwaitingAlternate) ∧
      (s.order = [] ↔ s.phase = .learnFlowOrder) ∧
      (s.phase ≠ .learnFlowOrder → s.anchor.isSome = true) ∧
      (s.long ≠ [] → s.phase = .estRunningA ∨ s.phase = .estRunningB)) ∧
    (∀ base E : SeqNumber, s.expected = some E →
      (∀ x ∈ xs, ∀ n ∈ x.handled, n.InWindow base) → ∀ x ∈ xs, ∀ n, x.RecordsOriginal n →
        n.ahead base < E.ahead base ∧ (E.InWindow base → E.newer n = true)) ∧
    (s.phase = .estRunningA ∨ s.phase = .estRunningB → s.stop.state.phase = s.phase ∧
      ∀ (c : EstimatorCall) (s' : CrossPath), ((Estimator.cross s).call c).state = .cross s' →
        (s'.phase = .estRunningA ∨ s'.phase = .estRunningB) ∨
          ∃ t : CrossPath, t.counters.resets = s.counters.resets ∧ s' = t.fullReset.state) ∧
    (s.stopped = true → s.short = none ∧ s.long = []) := by
  have hsound := sound_of_sinceReset h
  have htimed := timed_of_sinceReset h
  obtain ⟨hawaited, horder, hanchored⟩ := consistent_of_sinceReset h
  refine ⟨fun hrunning => ⟨?_, hawaited, horder, hanchored, fun hlong => ?_⟩, ?_, ?_, htimed.quiet⟩
  · rw [← CrossPhase.isRunning_iff]
    constructor
    · intro hsome
      obtain ⟨short, hshort⟩ := Option.isSome_iff_exists.mp hsome
      exact hsound.running_of_short hshort
    · exact htimed.armed hrunning
  · rw [← CrossPhase.isRunning_iff]
    cases hrun : s.phase.isRunning with
    | true => rfl
    | false => exact absurd (LongTimers.eq_nil (hsound.idle hrun).2) hlong
  · intro base E hE hwin x hx n hrec
    obtain ⟨e, he, rfl⟩ := mem_entries_iff.mp ⟨x, hx, hrec⟩
    have hhandled : e.record.seq.InWindow base := by
      obtain ⟨y, hy, hye⟩ := List.mem_filterMap.mp he
      exact hwin y hy _ (Exchange.mem_handled_of_accepted? hye)
    have hahead := (leads_of_sinceReset h hwin).expected E hE e he
    exact ⟨hahead, fun hin => (SeqNumber.newer_iff hin hhandled).mpr hahead⟩
  · intro hrun
    refine ⟨?_, fun c s' hstep => ?_⟩
    · rw [stop, Step.state_alter, cancelTimers_state]
    · rcases (shortMoves_call hsound hstep).running (CrossPhase.isRunning_iff.mpr hrun) with
        hrun | ⟨t, ht, hs'⟩
      · exact Or.inl (CrossPhase.isRunning_iff.mp hrun)
      · exact Or.inr ⟨t, ht, hs'.full⟩

/-- An estimator that ranks flows by two records each and is ready after one interval. -/
def quick : CrossPath :=
  let model : Predictor := .movingAverage ⟨⟨1, []⟩, ⟨1, []⟩, 1, 1.0, none, 0.0, 0⟩
  { config := { minFlowSamples := 2 }, delta := model, cross := model, flows := { window := 16 } }

theorem fresh_quick : (Estimator.cross quick).Fresh := .cross _ _ _ _

/-- Two flows are ranked, the second brings the awaited number, and the timers start; then number 8 is
skipped. -/
def skipping : List EstimatorCall :=
  [.arrival (.ofMillis 20) (.onFlow (.ofNat 1) 0 (.ofNat 1)),
    .arrival (.ofMillis 40) (.onFlow (.ofNat 2) 1 (.ofNat 1)),
    .arrival (.ofMillis 60) (.onFlow (.ofNat 3) 0 (.ofNat 2)),
    .arrival (.ofMillis 80) (.onFlow (.ofNat 4) 1 (.ofNat 2)),
    .arrival (.ofMillis 100) (.onFlow (.ofNat 5) 0 (.ofNat 3)),
    .arrival (.ofMillis 120) (.onFlow (.ofNat 6) 1 (.ofNat 3)),
    .arrival (.ofMillis 140) (.onFlow (.ofNat 7) 0 (.ofNat 4)),
    .arrival (.ofMillis 180) (.onFlow (.ofNat 9) 0 (.ofNat 5))]

theorem phase_agrees_with_data_of_running :
    ∃ s : CrossPath, Estimator.SinceReset ((Estimator.cross quick).exchanges skipping) (.cross s) ∧
      s.stopped = false ∧ s.phase = .estRunningA ∧ s.short.isSome = true ∧
      s.awaited.isSome = false ∧ s.order ≠ [] ∧ s.expected = some (.ofNat 10) ∧
      ∀ x ∈ (Estimator.cross quick).exchanges skipping, ∀ n, x.RecordsOriginal n →
        (SeqNumber.ofNat 10).newer n = true := by
  obtain ⟨s, hs⟩ := quick.after_state skipping
  have history : Estimator.SinceReset ((Estimator.cross quick).exchanges skipping) (.cross s) :=
    hs ▸ .of_fresh fresh_quick (by decide +kernel)
  have window : ∀ x ∈ (Estimator.cross quick).exchanges skipping, ∀ n ∈ x.handled,
      n.InWindow (.ofNat 1) := by
    decide +kernel
  have reached : ((Estimator.cross quick).after skipping).asCross?.map (fun s =>
      (s.stopped, s.phase, s.expected)) = some (false, .estRunningA, some (.ofNat 10)) := by
    decide +kernel
  rw [hs] at reached
  simp only [Estimator.asCross?, Option.map_some, Option.some.injEq, Prod.mk.injEq] at reached
  obtain ⟨running, phase, expected⟩ := reached
  obtain ⟨agree, newer, -, -⟩ := phase_agrees_with_data history
  obtain ⟨short, awaited, order, -, -⟩ := agree running
  refine ⟨s, history, running, phase, short.mpr (Or.inl phase), ?_, ?_, expected,
    fun x hx n hn => (newer (.ofNat 1) (.ofNat 10) expected window x hx n hn).2 (by decide)⟩
  · exact Bool.eq_false_iff.mpr fun hsome => by simp [phase] at awaited; simp [awaited] at hsome
  · exact fun hnil => by simp [phase] at order; exact order hnil

end LossWatch.CrossPath
