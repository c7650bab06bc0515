import LossWatch.Proofs.CrossPath.Ranking
import LossWatch.Proofs.Estimator.Timers
import LossWatch.Proofs.LossLedger.Reach

/-!
What the steps of the cross-path estimator do to its timers and its ledger. Learning leaves both
alone and cannot start or stop the timers, but for the one step from the last phase of learning into
the running ones, which arms the short timer. A running estimator follows an arrival by moving the
short timer past it.
-/

namespace LossWatch

theorem CrossPhase.isRunning_next {p q : CrossPhase} {t : CrossTrigger} (h : p.next t = some q)
    (hready : t ≠ .predictorsReady) (hlost : t = .referenceLost → p.isRunning = false) :
    q.isRunning = p.isRunning := by
  cases p <;> cases t <;> simp_all [CrossPhase.next, CrossPhase.isRunning] <;> subst h <;> rfl

theorem CrossPhase.isRunning_iff {p : CrossPhase} :
    p.isRunning = true ↔ p = .estRunningA ∨ p = .estRunningB := by
  cases p <;> simp [CrossPhase.isRunning]

namespace LongTimers

theorem eq_nil {l : LongTimers} (h : ∀ n, l.has n = false) : l = [] := by
  cases l with
  | nil => rfl
  | cons p ps => simpa [has] using h p.1

theorem has_erase (l : LongTimers) (seq n : SeqNumber) :
    (l.erase seq).has n = true ↔ n ≠ seq ∧ l.has n = true := by
  rw [has_eq, deadline?_erase, has_eq]
  by_cases h : n = seq <;> simp [h]

theorem has_insert (l : LongTimers) (seq n : SeqNumber) (d : Timestamp) :
    (l.insert seq d).has n = true ↔ n = seq ∨ l.has n = true := by
  rw [has_eq, deadline?_insert, has_eq]
  by_cases h : n = seq <;> simp [h]

end LongTimers

namespace CrossPath

variable {s s' s'' : CrossPath} {n seq : SeqNumber} {now : Timestamp}

/-! ### Learning -/

structure SameTimers (s s' : CrossPath) : Prop where
  config : s'.config = s.config
  ledger : s'.ledger = s.ledger
  short : s'.short = s.short
  long : s'.long = s.long
  running : s'.phase.isRunning = s.phase.isRunning
  anchored : s'.phase.isRunning = true → s.anchor.isSome = true → s'.anchor.isSome = true

namespace SameTimers

theorem refl (s : CrossPath) : s.SameTimers s := ⟨rfl, rfl, rfl, rfl, rfl, fun _ => id⟩

theorem trans (h : s.SameTimers s') (h' : s'.SameTimers s'') : s.SameTimers s'' :=
  ⟨h'.config.trans h.config, h'.ledger.trans h.ledger, h'.short.trans h.short,
    h'.long.trans h.long, h'.running.trans h.running, fun hrun ha =>
      h'.anchored hrun (h.anchored (h'.running.symm.trans hrun) ha)⟩

theorem of_sameRecord (h : s.SameRecord s') (hp : s'.phase.isRunning = s.phase.isRunning)
    (ha : s.anchor.isSome = true → s'.anchor.isSome = true) : s.SameTimers s' :=
  ⟨h.config, h.ledger, h.short, h.long, hp, fun _ => ha⟩

theorem of_idle (hidle : s.phase.isRunning = false) (h : s.SameRecord s')
    (hp : s'.phase.isRunning = false) : s.SameTimers s' :=
  ⟨h.config, h.ledger, h.short, h.long, hp.trans hidle.symm, fun hrun => by simp [hp] at hrun⟩

end SameTimers

theorem sameTimers_advance (s : CrossPath) {t : CrossTrigger} (hready : t ≠ .predictorsReady)
    (hlost : t = .referenceLost → s.phase.isRunning = false) : s.SameTimers (s.advance t) := by
  have hsame := s.sameRecord_advance t
  unfold advance at hsame ⊢
  cases hnext : s.phase.next t with
  | none => exact .refl s
  | some phase =>
    rw [hnext] at hsame
    have hrunning := CrossPhase.isRunning_next hnext hready hlost
    refine .of_sameRecord hsame hrunning ?_
    by_cases h : t = .referenceLost <;> simp [h, count]

theorem sameTimers_anchorReference (s : CrossPath) (seq : SeqNumber) :
    s.SameTimers (s.anchorReference seq) := by
  have hsame := s.sameRecord_anchorReference seq
  unfold anchorReference at hsame ⊢
  cases hnext : s.phase.next .referenceAnchored with
  | none => exact .refl s
  | some phase =>
    rw [hnext] at hsame
    exact .of_sameRecord hsame (CrossPhase.isRunning_next hnext (by simp) (by simp)) id

theorem sameTimers_awaited (s : CrossPath) (awaited : Option SeqNumber) :
    s.SameTimers { s with awaited } :=
  .of_sameRecord (s.sameRecord_awaited awaited) rfl id

theorem sameTimers_loseReference (h : s.phase.isRunning = false) :
    s.SameTimers s.loseReference :=
  (s.sameTimers_awaited none).trans (sameTimers_advance _ (by simp) fun _ => h)

theorem sameTimers_awaitAlternate (h : s.phase.isRunning = false) (seq : SeqNumber)
    (onFastest : Bool) (update : FlowUpdate) :
    s.SameTimers (s.awaitAlternate seq onFastest update) := by
  unfold awaitAlternate
  split
  · exact .refl s
  · split
    · split
      · exact (sameTimers_loseReference h).trans (sameTimers_anchorReference _ _)
      · split
        · exact s.sameTimers_awaited _
        · exact .refl s
    · split
      · exact (s.sameTimers_awaited none).trans (sameTimers_advance _ (by simp) (by simp))
      · split
        · exact sameTimers_loseReference h
        · exact .refl s

theorem sameTimers_learn (h : s.phase.isRunning = false) (seq : SeqNumber) (flow : Nat) :
    s.SameTimers (s.learn seq flow).state := by
  unfold learn
  cases hr : s.learnFlowOrder? with
  | none => exact .refl s
  | some ranked =>
    obtain ⟨hsame, -⟩ := sameRecord_learnFlowOrder? hr
    obtain ⟨-, -, -, -, hphase⟩ := learnFlowOrder?_eq_some hr
    have hranked : s.SameTimers ranked.state := .of_idle h hsame (by rw [hphase, h])
    have hadvance := hranked.trans
      (sameTimers_advance ranked.state (t := .flowOrderLearned) (by simp) (by simp))
    simp only [Step.state_alter]
    split
    · exact hadvance.trans (sameTimers_anchorReference _ _)
    · exact hadvance

theorem sameTimers_observeFastest (s : CrossPath) (now : Timestamp) (seq : SeqNumber) :
    s.SameTimers (s.observeFastest now seq).2.state ∧
      (s.observeFastest now seq).2.state.anchor.isSome = true := by
  unfold observeFastest
  split
  · exact ⟨by constructor <;> first | rfl | exact fun _ _ => rfl, rfl⟩
  · rename_i anchor hanchor
    split
    · exact ⟨.refl s, by simp [hanchor]⟩
    · dsimp only
      split <;> exact ⟨by constructor <;> first | rfl | exact fun _ _ => rfl, rfl⟩

theorem sameTimers_observe (s : CrossPath) (now : Timestamp) (seq : SeqNumber) (flow : Nat) :
    s.SameTimers (s.observe now seq flow).2.state ∧
      ((s.observe now seq flow).2.state.fastest? = some flow →
        (s.observe now seq flow).2.state.anchor.isSome = true) := by
  unfold observe
  split
  · obtain ⟨hsame, hanchor⟩ := s.sameTimers_observeFastest now seq
    exact ⟨hsame, fun _ => hanchor⟩
  · rename_i hslower
    split
    · exact ⟨by constructor <;> first | rfl | exact fun _ => id, fun h => absurd h hslower⟩
    · exact ⟨.refl s, fun h => absurd h hslower⟩

/-! ### The timers -/

theorem dropShort_state (s : CrossPath) : s.dropShort.state = { s with short := none } := by
  cases h : s.short with
  | none =>
    simp only [dropShort, h, Step.state_stay]
    rw [← h]
  | some short => simp only [dropShort, h, Step.state_act]

theorem armShort_state (h : s.anchor.isSome = true) (now : Timestamp) (expected : SeqNumber)
    (timerDriven : Bool) :
    ∃ (short : ShortTimer) (counters : CrossCounters), short.expected = expected ∧
      (s.armShort now expected timerDriven).state = { s with short := some short, counters } := by
  obtain ⟨anchor, hanchor⟩ := Option.isSome_iff_exists.mp h
  unfold armShort
  split
  · simp_all
  · simp only [Step.state_andThen, Step.state_act, dropShort_state]
    exact ⟨_, _, rfl, rfl⟩

theorem settleLong_state (s : CrossPath) (seq : SeqNumber) :
    ∃ long : LongTimers, (s.settleLong seq).state = { s with long } ∧
      ∀ n, long.has n = true ↔ n ≠ seq ∧ s.long.has n = true := by
  unfold settleLong
  by_cases h : s.hasLong seq = true
  · rw [if_pos h]
    exact ⟨_, rfl, s.long.has_erase seq⟩
  · rw [if_neg h]
    refine ⟨s.long, rfl, fun n => ⟨fun hn => ⟨?_, hn⟩, And.right⟩⟩
    rintro rfl
    exact h hn

/-- After covering `ns` the long timers are those before and some for numbers nothing is known of,
and each of `ns` is known or has one. -/
structure Covering (s : CrossPath) (ns : List SeqNumber) (long : LongTimers) : Prop where
  kept : ∀ n, s.long.has n = true → long.has n = true
  unknown : ∀ n, long.has n = true → s.long.has n = true ∨ s.ledger.status n = none
  covered : ∀ n ∈ ns, s.ledger.isResolved n = true ∨ long.has n = true

theorem covering_coverLong (now : Timestamp) (n : SeqNumber) (s : CrossPath) :
    ∃ long, (s.coverLong now n).state = { s with long } ∧ s.Covering [n] long := by
  unfold coverLong
  by_cases h : s.needsLong n = true
  · rw [if_pos h]
    refine ⟨_, rfl, fun m hm => ?_, fun m hm => ?_, fun m hm => ?_⟩
    · exact (s.long.has_insert ..).mpr (Or.inr hm)
    · rcases (s.long.has_insert ..).mp hm with rfl | hm
      · simp only [needsLong, Bool.and_eq_true, Bool.not_eq_true', LossLedger.isResolved,
          Option.isSome_eq_false_iff, Option.isNone_iff_eq_none] at h
        exact Or.inr h.1
      · exact Or.inl hm
    · exact Or.inr ((s.long.has_insert ..).mpr (Or.inl (List.mem_singleton.mp hm)))
  · rw [if_neg h]
    refine ⟨s.long, rfl, fun _ => id, fun _ => Or.inl, fun m hm => ?_⟩
    obtain rfl := List.mem_singleton.mp hm
    cases hknown : s.ledger.isResolved m with
    | true => exact Or.inl rfl
    | false => exact Or.inr (by simpa [needsLong, hasLong, hknown] using h)

theorem covering_forEach (now : Timestamp) (ns : List SeqNumber) (s : CrossPath) :
    ∃ long, (Step.forEach (coverLong now) ns s).state = { s with long } ∧ s.Covering ns long := by
  induction ns generalizing s with
  | nil => exact ⟨s.long, rfl, fun _ => id, fun _ => Or.inl, by simp⟩
  | cons n ns ih =>
    obtain ⟨long₁, hstate₁, hfirst⟩ := covering_coverLong now n s
    obtain ⟨long, hstate, hrest⟩ := ih (s.coverLong now n).state
    rw [hstate₁] at hstate hrest
    rw [Step.forEach, Step.state_andThen, hstate₁]
    refine ⟨long, hstate, fun m hm => hrest.kept m (hfirst.kept m hm), fun m hm => ?_,
      fun m hm => ?_⟩
    · rcases hrest.unknown m hm with hm | hm
      · exact hfirst.unknown m hm
      · exact Or.inr hm
    · rcases List.mem_cons.mp hm with rfl | hm
      · exact (hfirst.covered m (by simp)).imp_right (hrest.kept m)
      · exact hrest.covered m hm

theorem forEach_armShort_state (h : s.anchor.isSome = true) (now : Timestamp)
    (ns : List SeqNumber) (expected : SeqNumber) (timerDriven : Bool) :
    ∃ (short : ShortTimer) (long : LongTimers) (counters : CrossCounters),
      short.expected = expected ∧ s.Covering ns long ∧
      ((Step.forEach (coverLong now) ns s).andThen fun s =>
        s.armShort now expected timerDriven).state =
          { s with short := some short, long, counters } := by
  obtain ⟨long, hcover, hcovering⟩ := covering_forEach now ns s
  obtain ⟨short, counters, hnext, hstate⟩ :=
    armShort_state (s := { s with long }) h now expected timerDriven
  rw [Step.state_andThen, hcover, hstate]
  exact ⟨short, long, counters, hnext, hcovering, rfl⟩

/-- How the short timer follows an arrival. -/
inductive Reconciled (s : CrossPath) (seq : SeqNumber) : CrossPath → Prop
  | unarmed (short : s.short = none) : Reconciled s seq s
  | waiting {short : ShortTimer} (armed : s.short = some short)
      (later : seq.newerOrEqual short.expected = false) : Reconciled s seq s
  | far {short short' : ShortTimer} {counters : CrossCounters} (armed : s.short = some short)
      (reached : seq.newerOrEqual short.expected = true)
      (skipped : s.config.maxGap < short.expected.distance seq)
      (next : short'.expected = seq.next) :
      Reconciled s seq { s with short := some short', counters }
  | near {short short' : ShortTimer} {long : LongTimers} {counters : CrossCounters}
      (armed : s.short = some short) (reached : seq.newerOrEqual short.expected = true)
      (covering : s.Covering (short.expected.prev.between seq) long)
      (next : short'.expected = seq.next) :
      Reconciled s seq { s with short := some short', long, counters }

theorem resync_state (s : CrossPath) (short : ShortTimer) :
    ∃ counters : CrossCounters, counters.resets = s.counters.resets ∧
      (if short.timerDriven = true
        then s.count fun c => { c with resyncs := c.resyncs + 1 } else s) = { s with counters } := by
  split
  · exact ⟨{ s.counters with resyncs := s.counters.resyncs + 1 }, rfl, rfl⟩
  · exact ⟨s.counters, rfl, rfl⟩

theorem reconciled_reconcileShort (h : s.anchor.isSome = true) (now : Timestamp)
    (seq : SeqNumber) : s.Reconciled seq (s.reconcileShort now seq).state := by
  unfold reconcileShort
  split
  · exact .unarmed ‹_›
  · rename_i short harmed
    cases hreached : seq.newerOrEqual short.expected with
    | false => exact .waiting harmed hreached
    | true =>
      simp only [Bool.not_true, Bool.false_eq_true, if_false]
      obtain ⟨counters, -, hcounted⟩ := s.resync_state short
      rw [hcounted]
      dsimp only
      by_cases hfar : s.config.maxGap < short.expected.distance seq
      · rw [if_pos hfar]
        obtain ⟨short', counters', hnext, hstate⟩ :=
          armShort_state (s := { s with counters }) h now seq.next false
        rw [Step.state_andThen, Step.state_note, hstate]
        exact .far harmed hreached hfar hnext
      · rw [if_neg hfar]
        obtain ⟨short', long, counters', hnext, hcovering, hstate⟩ :=
          forEach_armShort_state (s := { s with counters }) h now (short.expected.prev.between seq)
            seq.next false
        rw [hstate]
        exact .near harmed hreached ⟨hcovering.kept, hcovering.unknown, hcovering.covered⟩ hnext

/-! ### Arrivals -/

theorem reconciled_keepRunning (hrun : s.phase.isRunning = true) (h : s.anchor.isSome = true)
    (now : Timestamp) (seq : SeqNumber) (o : Observation) :
    ∃ s₁, s.SameTimers s₁ ∧ s₁.Reconciled seq (s.keepRunning now seq o).state := by
  have hreconciled : ∀ {t : CrossTrigger}, t ≠ .predictorsReady → t ≠ .referenceLost →
      s.SameTimers (s.advance t) ∧
        (s.advance t).Reconciled seq ((s.advance t).reconcileShort now seq).state := by
    intro t hready hlost
    have hsame := s.sameTimers_advance hready fun ht => absurd ht hlost
    exact ⟨hsame, reconciled_reconcileShort (hsame.anchored (hsame.running.trans hrun) h) now seq⟩
  cases o with
  | delta => exact ⟨_, hreconciled (t := .deltaSample) (by simp) (by simp)⟩
  | cross => exact ⟨_, hreconciled (t := .crossSample) (by simp) (by simp)⟩
  | stale => exact ⟨s, .refl s, reconciled_reconcileShort h now seq⟩

/-- A running estimator only observes an arrival and moves the short timer past it. -/
theorem reconciled_follow (hrun : s.phase.isRunning = true) (h : s.anchor.isSome = true)
    (now : Timestamp) (seq : SeqNumber) (position : FlowPosition) :
    ∃ s₁, s.SameTimers s₁ ∧ s₁.Reconciled seq (s.follow now seq position).state := by
  have hlearnt : s.phase ≠ .learnFlowOrder := by
    intro hp
    simp [hp, CrossPhase.isRunning] at hrun
  let recorded : CrossPath :=
    { s with flows := (s.flows.record position.flow ⟨seq, position.flowSeq, now⟩).2 }
  let observed := (recorded.observe now seq position.flow).2.state
  have hsame : s.SameTimers observed := by
    have hrecorded : s.SameTimers recorded := ⟨rfl, rfl, rfl, rfl, rfl, fun _ => id⟩
    exact hrecorded.trans (recorded.sameTimers_observe now seq position.flow).1
  have hobserved := hsame.running.trans hrun
  obtain ⟨s₁, htimers, hreconciled⟩ := reconciled_keepRunning hobserved
    (hsame.anchored hobserved h) now seq (recorded.observe now seq position.flow).1
  refine ⟨s₁, hsame.trans htimers, ?_⟩
  have hstate : (s.follow now seq position).state =
      (observed.keepRunning now seq (recorded.observe now seq position.flow).1).state := by
    have hdispatch : ∀ (onFastest : Bool) (update : FlowUpdate) (o : Observation),
        observed.dispatch now seq onFastest update o = observed.keepRunning now seq o := by
      intro onFastest update o
      unfold dispatch
      cases hp : observed.phase <;> simp_all [CrossPhase.isRunning]
    unfold follow
    dsimp only
    rw [if_pos hrun, Step.state_andThen, Step.state_stay, if_neg hlearnt, Step.state_andThen]
    exact congrArg Step.state (hdispatch _ _ _)
  rw [hstate]
  exact hreconciled

structure Learned (s s' : CrossPath) : Prop where
  placed : s.ledger.Placed → s'.ledger.Placed
  long : s'.long = s.long
  idle : s'.phase.isRunning = false → s'.short = s.short
  anchored : s'.phase.isRunning = true → s'.anchor.isSome = true
  started : s'.phase.isRunning = true → ∃ n, s'.expected = some (s'.maxSeen.getD n).next

theorem Learned.of_sameTimers (hidle : s.phase.isRunning = false) (h : s.SameTimers s') :
    s.Learned s' where
  placed hl := h.ledger ▸ hl
  long := h.long
  idle _ := h.short
  anchored hrun := by simp [h.running, hidle] at hrun
  started hrun := by simp [h.running, hidle] at hrun

theorem declareFlowGap_state (s : CrossPath) (now : Timestamp) (seq : SeqNumber)
    (position : FlowPosition) (update : FlowUpdate) :
    ∃ (ledger : LossLedger) (counters : CrossCounters), (s.ledger.Placed → ledger.Placed) ∧
      counters.resets = s.counters.resets ∧
      (s.declareFlowGap now seq position update).state = { s with ledger, counters } := by
  have hone : ∀ (at' : FlowPosition) (m : SeqNumber) (t : CrossPath),
      ∃ (ledger : LossLedger) (counters : CrossCounters), (t.ledger.Placed → ledger.Placed) ∧
        counters.resets = t.counters.resets ∧
          (declareGapLoss now at' m t).state = { t with ledger, counters } := by
    intro at' m t
    cases h : t.ledger.assumeLost? now m with
    | none =>
      have hstay : declareGapLoss now at' m t = .stay t := by rw [declareGapLoss, h]
      exact ⟨t.ledger, t.counters, id, rfl, congrArg Step.state hstay⟩
    | some ledger =>
      refine ⟨ledger, { t.counters with losses := t.counters.losses + 1 },
        fun hl => hl.assumeLost? h, rfl, ?_⟩
      rw [declareGapLoss, h]
      rfl
  have hall : ∀ (ps : List (SeqNumber × Nat)) (first : SeqNumber) (t : CrossPath),
      ∃ (ledger : LossLedger) (counters : CrossCounters), (t.ledger.Placed → ledger.Placed) ∧
        counters.resets = t.counters.resets ∧
          (Step.forEach (fun p : SeqNumber × Nat =>
            declareGapLoss now ⟨position.flow, first.add p.2⟩ p.1) ps t).state =
              { t with ledger, counters } := by
    intro ps first
    induction ps with
    | nil => exact fun t => ⟨t.ledger, t.counters, id, rfl, rfl⟩
    | cons p ps ih =>
      intro t
      obtain ⟨l₁, c₁, hplaced₁, hresets₁, hstate₁⟩ := hone ⟨position.flow, first.add p.2⟩ p.1 t
      obtain ⟨ledger, counters, hplaced, hresets, hstate⟩ :=
        ih { t with ledger := l₁, counters := c₁ }
      rw [Step.forEach, Step.state_andThen, hstate₁, hstate]
      exact ⟨ledger, counters, fun hl => hplaced (hplaced₁ hl), hresets.trans hresets₁, rfl⟩
  have hstay : ∃ (ledger : LossLedger) (counters : CrossCounters),
      (s.ledger.Placed → ledger.Placed) ∧ counters.resets = s.counters.resets ∧
        (Step.stay s).state = { s with ledger, counters } :=
    ⟨s.ledger, s.counters, id, rfl, rfl⟩
  unfold declareFlowGap
  split
  · exact hstay
  · split
    · exact hstay
    · dsimp only
      split
      · exact hstay
      · exact hall _ _ s

theorem Learned.after {t : CrossPath} (h : s.SameTimers t) (h' : t.Learned s') : s.Learned s' where
  placed hl := h'.placed (h.ledger ▸ hl)
  long := h'.long.trans h.long
  idle hidle := (h'.idle hidle).trans h.short
  anchored := h'.anchored
  started := h'.started

theorem learned_tryStart (hphase : s.phase = .estAwaitingFastest) (h : s.anchor.isSome = true)
    (now : Timestamp) (seq : SeqNumber) (update : FlowUpdate) :
    s.Learned (s.tryStart now seq update).state := by
  have hidle : s.phase.isRunning = false := by rw [hphase]; rfl
  unfold tryStart
  split
  · have hlost := sameTimers_loseReference hidle
    exact .of_sameTimers hidle (hlost.trans (sameTimers_anchorReference _ _))
  · split
    · have hsame := s.sameRecord_advance .predictorsReady
      have hstarted : (s.advance .predictorsReady).phase = .estRunningA ∧
          (s.advance .predictorsReady).anchor = s.anchor := by
        simp [advance, hphase, CrossPhase.next]
      obtain ⟨short, counters, hexpected, hstate⟩ :=
        armShort_state (hstarted.2 ▸ h) now (s.maxSeen.getD seq).next false
      rw [hstate]
      refine ⟨fun hl => hsame.ledger ▸ hl, hsame.long, fun hp => ?_, fun _ => hstarted.2 ▸ h,
        fun _ => ⟨seq, ?_⟩⟩
      · simp [hstarted.1, CrossPhase.isRunning] at hp
      · exact congrArg some (hexpected.trans (by rw [hsame.maxSeen]))
    · exact .of_sameTimers hidle (.refl s)

theorem learned_dispatch (hidle : s.phase.isRunning = false) (now : Timestamp) (seq : SeqNumber)
    {onFastest : Bool} (h : onFastest = true → s.anchor.isSome = true) (update : FlowUpdate)
    (o : Observation) : s.Learned (s.dispatch now seq onFastest update o).state := by
  unfold dispatch
  cases hp : s.phase with
  | learnFlowOrder => exact .of_sameTimers hidle (.refl s)
  | learnPathDifference =>
    refine .of_sameTimers hidle ?_
    simp only [Step.state_stay]
    split
    · exact s.sameTimers_anchorReference seq
    · exact .refl s
  | learnAwaitingAlternate =>
    exact .of_sameTimers hidle (sameTimers_awaitAlternate hidle seq onFastest update)
  | estAwaitingFastest =>
    cases onFastest with
    | true => exact learned_tryStart hp (h rfl) now seq update
    | false => exact .of_sameTimers hidle (.refl s)
  | estRunningA => simp [hp, CrossPhase.isRunning] at hidle
  | estRunningB => simp [hp, CrossPhase.isRunning] at hidle

theorem learned_follow (hidle : s.phase.isRunning = false) (now : Timestamp) (seq : SeqNumber)
    (position : FlowPosition) : s.Learned (s.follow now seq position).state := by
  let recorded : CrossPath :=
    { s with flows := (s.flows.record position.flow ⟨seq, position.flowSeq, now⟩).2 }
  obtain ⟨ledger, counters, hplaced, -, hstate⟩ := recorded.declareFlowGap_state now seq position
    (s.flows.record position.flow ⟨seq, position.flowSeq, now⟩).1
  let declared : CrossPath := { recorded with ledger, counters }
  have hdeclared : declared.Learned (s.follow now seq position).state := by
    have hidle' : declared.phase.isRunning = false := hidle
    have hread : ¬ recorded.phase.isRunning = true := by simp [recorded, hidle]
    have hfollow : (s.follow now seq position).state =
        (if declared.phase = .learnFlowOrder then declared.learn seq position.flow
        else (declared.observe now seq position.flow).2.andThen fun t =>
          t.dispatch now seq (decide (t.fastest? = some position.flow))
            (s.flows.record position.flow ⟨seq, position.flowSeq, now⟩).1
            (declared.observe now seq position.flow).1).state := by
      unfold follow
      dsimp only
      rw [if_neg hread, Step.state_andThen, hstate]
    rw [hfollow]
    split
    · exact .of_sameTimers hidle' (sameTimers_learn hidle' seq position.flow)
    · obtain ⟨hsame, hanchor⟩ := declared.sameTimers_observe now seq position.flow
      rw [Step.state_andThen]
      refine .after hsame (learned_dispatch (hsame.running.trans hidle') now seq ?_ _ _)
      exact fun hfastest => hanchor (of_decide_eq_true hfastest)
  exact ⟨fun hl => hdeclared.placed (hplaced hl), hdeclared.long, hdeclared.idle,
    hdeclared.anchored, hdeclared.started⟩

structure Entered (s : CrossPath) (now : Timestamp) (seq : SeqNumber) (t : CrossPath) : Prop where
  config : t.config = s.config
  ledger : t.ledger = (s.ledger.receive now seq).2
  short : t.short = s.short
  long : ∀ n, t.long.has n = true ↔ n ≠ seq ∧ s.long.has n = true
  running : t.phase.isRunning = s.phase.isRunning
  anchored : t.phase.isRunning = true → s.anchor.isSome = true → t.anchor.isSome = true

theorem Entered.trans {t t' : CrossPath} (h : s.Entered now seq t) (h' : t.SameTimers t') :
    s.Entered now seq t' where
  config := h'.config.trans h.config
  ledger := h'.ledger.trans h.ledger
  short := h'.short.trans h.short
  long n := by rw [h'.long, h.long]
  running := h'.running.trans h.running
  anchored hrun ha := h'.anchored hrun (h.anchored (h'.running.symm.trans hrun) ha)

inductive Arrived (s : CrossPath) (now : Timestamp) (seq : SeqNumber) : CrossPath → Prop
  | ignored (known : (s.ledger.receive now seq).1.isRecorded = false) :
      Arrived s now seq { s with ledger := (s.ledger.receive now seq).2 }
  | learned {t s' : CrossPath} (recorded : (s.ledger.receive now seq).1.isRecorded = true)
      (entered : s.Entered now seq t) (idle : s.phase.isRunning = false) (learned : t.Learned s') :
      Arrived s now seq s'
  | followed {t s' : CrossPath} (recorded : (s.ledger.receive now seq).1.isRecorded = true)
      (entered : s.Entered now seq t) (running : s.phase.isRunning = true)
      (reconciled : t.Reconciled seq s') : Arrived s now seq s'

theorem arrived_onArrival (hstopped : s.stopped = false)
    (h : s.phase.isRunning = true → s.anchor.isSome = true) (now : Timestamp) (a : Arrival) :
    s.Arrived now a.seq (s.onArrival now a).state := by
  have haccept : ∀ (counters : CrossCounters) (position : FlowPosition),
      (s.ledger.receive now a.seq).1.isRecorded = true → s.Arrived now a.seq
        (accept { s with ledger := (s.ledger.receive now a.seq).2, counters } now a.seq
          position).state := by
    intro counters position hrecorded
    have hsettled : ∀ maxSeen, ∃ t, (settleLong { s with
        ledger := (s.ledger.receive now a.seq).2, counters, consecutiveLosses := 0, maxSeen }
          a.seq).state = t ∧ s.Entered now a.seq t := by
      intro maxSeen
      obtain ⟨long, hstate, hlong⟩ := settleLong_state { s with
        ledger := (s.ledger.receive now a.seq).2, counters, consecutiveLosses := 0, maxSeen } a.seq
      exact ⟨_, hstate, rfl, rfl, rfl, hlong, rfl, fun _ => id⟩
    obtain ⟨maxSeen, hstate⟩ : ∃ maxSeen,
        (accept { s with ledger := (s.ledger.receive now a.seq).2, counters } now a.seq
          position).state = ((settleLong { s with
            ledger := (s.ledger.receive now a.seq).2, counters, consecutiveLosses := 0, maxSeen }
              a.seq).state.follow now a.seq position).state := ⟨_, rfl⟩
    obtain ⟨t, ht, hentered⟩ := hsettled maxSeen
    rw [hstate, ht]
    cases hrun : s.phase.isRunning with
    | false =>
      exact .learned hrecorded hentered hrun
        (learned_follow (hentered.running.trans hrun) now a.seq position)
    | true =>
      have hrun' := hentered.running.trans hrun
      obtain ⟨t', hsame, hreconciled⟩ :=
        reconciled_follow hrun' (hentered.anchored hrun' (h hrun)) now a.seq position
      exact .followed hrecorded (hentered.trans hsame) hrun hreconciled
  have hrun : ¬ s.stopped = true := by simp [hstopped]
  rw [onArrival, if_neg hrun]
  dsimp only
  cases hr : (s.ledger.receive now a.seq).1 with
  | duplicate => exact .ignored (by rw [hr]; rfl)
  | stale => exact .ignored (by rw [hr]; rfl)
  | fresh => exact haccept s.counters _ (by rw [hr]; rfl)
  | recovered => exact haccept s.counters _ (by rw [hr]; rfl)
  | falsePositive d => exact haccept _ _ (by rw [hr]; rfl)

/-! ### Expiries, repairs and resets -/

theorem cancelTimers_state (s : CrossPath) :
    s.cancelTimers.state = { s with short := none, long := [] } := by
  rw [cancelTimers, Step.state_andThen, dropShort_state]

theorem fullReset_state (s : CrossPath) :
    s.fullReset.state =
      { config := s.config, delta := s.delta.reset, cross := s.cross.reset, flows := s.flows.clear
        ledger := s.ledger.clearHistory
        counters := { s.counters with resets := s.counters.resets + 1 }, stopped := s.stopped } := by
  rw [fullReset, Step.state_alter, cancelTimers_state]

structure StartedOver (s s' : CrossPath) : Prop where
  full : s' = s.fullReset.state
  ledger : s'.ledger = s.ledger.clearHistory
  short : s'.short = none
  long : s'.long = []
  idle : s'.phase.isRunning = false
  resets : s'.counters.resets = s.counters.resets + 1

theorem startedOver_fullReset (s : CrossPath) : s.StartedOver s.fullReset.state := by
  constructor
  case full => rfl
  all_goals rw [fullReset_state]
  case idle => rfl

theorem onShortTimeout_state {short : ShortTimer} (harmed : s.short = some short)
    (h : s.anchor.isSome = true) (now : Timestamp) :
    ∃ (short' : ShortTimer) (long : LongTimers) (counters : CrossCounters),
      short'.expected = short.expected.next ∧ s.Covering [short.expected] long ∧
        (s.onShortTimeout now).state = { s with short := some short', long, counters } := by
  let counted : CrossPath := count { s with short := none } fun c =>
    { c with shortTimeouts := c.shortTimeouts + 1 }
  obtain ⟨long, hcover, hcovering⟩ := covering_coverLong now short.expected counted
  obtain ⟨short', counters, hnext, hstate⟩ :=
    armShort_state (s := { counted with long }) h now short.expected.next true
  refine ⟨short', long, counters, hnext, ⟨hcovering.kept, hcovering.unknown, hcovering.covered⟩, ?_⟩
  have hstep : (s.onShortTimeout now).state =
      ((counted.coverLong now short.expected).state.armShort now short.expected.next true).state := by
    unfold onShortTimeout
    rw [harmed]
    rfl
  exact (hstep.trans (congrArg (fun t => (armShort t now _ true).state) hcover)).trans hstate

/-- What the expiry of the long timer for `n` can do. -/
inductive LongExpired (s : CrossPath) (n : SeqNumber) : CrossPath → Prop
  | unarmed (absent : s.hasLong n = false) : LongExpired s n s
  | late {counters : CrossCounters} (armed : s.hasLong n = true)
      (found : s.ledger.wasReceived n = true) (resets : counters.resets = s.counters.resets) :
      LongExpired s n { s with long := s.long.erase n, counters }
  | declared {ledger : LossLedger} {lost : List SeqNumber} {counters : CrossCounters}
      {consecutiveLosses : Nat} (armed : s.hasLong n = true)
      (tries : s.ledger.Tries [n] ledger lost) (resets : counters.resets = s.counters.resets) :
      LongExpired s n { s with long := s.long.erase n, ledger, counters, consecutiveLosses }
  | reset {t s' : CrossPath} {lost : List SeqNumber} (tries : s.ledger.Tries [n] t.ledger lost)
      (resets : t.counters.resets = s.counters.resets) (restarted : t.StartedOver s') :
      LongExpired s n s'

theorem LongExpired.short {n : SeqNumber} {s' : CrossPath} (h : s.LongExpired n s')
    (hresets : s'.counters.resets = s.counters.resets) : s'.short = s.short := by
  cases h with
  | unarmed _ => rfl
  | late _ _ _ => rfl
  | declared _ _ _ => rfl
  | reset _ resets restarted =>
    have := restarted.resets
    omega

theorem declareLongLoss_state (s : CrossPath) (now : Timestamp) (n : SeqNumber) :
    ∃ (ledger : LossLedger) (lost : List SeqNumber) (counters : CrossCounters)
      (consecutiveLosses : Nat), s.ledger.Tries [n] ledger lost ∧
      counters.resets = s.counters.resets ∧
      (s.declareLongLoss now n).state = { s with ledger, counters, consecutiveLosses } := by
  unfold declareLongLoss
  cases h : s.ledger.assumeLost? now n with
  | none =>
    have hknown := LossLedger.assumeLost?_eq_none_iff.mp h
    exact ⟨s.ledger, [], s.counters, s.consecutiveLosses, .settled hknown (.nil _), rfl, rfl⟩
  | some ledger =>
    exact ⟨ledger, [n], { s.counters with losses := s.counters.losses + 1 },
      s.consecutiveLosses + 1, .lost h (.nil _), rfl, rfl⟩

theorem longExpired_onLongTimeout (s : CrossPath) (now : Timestamp) (n : SeqNumber) :
    s.LongExpired n (s.onLongTimeout now n).state := by
  unfold onLongTimeout
  cases harmed : s.hasLong n with
  | false => exact .unarmed harmed
  | true =>
    simp only [Bool.not_true, Bool.false_eq_true, if_false]
    by_cases hfound : s.ledger.wasReceived n = true
    · rw [if_pos (by exact hfound)]
      exact .late harmed hfound rfl
    · rw [if_neg (by exact hfound), Step.state_andThen]
      obtain ⟨ledger, lost, counters, consecutiveLosses, htries, hresets, hstate⟩ :=
        declareLongLoss_state (count { s with long := s.long.erase n } fun c =>
          { c with longTimeouts := c.longTimeouts + 1 }) now n
      rw [hstate]
      unfold breakStall
      split
      · rw [Step.state_andThen, Step.state_note]
        exact .reset (t := { s with long := s.long.erase n, ledger, counters, consecutiveLosses })
          htries hresets (startedOver_fullReset _)
      · exact .declared harmed htries hresets

theorem onRepair_state (hstopped : s.stopped = false) (a : Arrival) :
    ∃ long : LongTimers,
      (s.onRepair a).state = { s with ledger := (s.ledger.receiveRepair a.seq).2, long } ∧
      ∀ n, long.has n = true ↔ n ≠ a.seq ∧ s.long.has n = true := by
  have hrun : ¬ s.stopped = true := by simp [hstopped]
  rw [onRepair, if_neg hrun]
  exact settleLong_state { s with ledger := (s.ledger.receiveRepair a.seq).2 } a.seq

theorem short_onRepair (s : CrossPath) (a : Arrival) : (s.onRepair a).state.short = s.short := by
  cases hstopped : s.stopped with
  | true => simp [onRepair, hstopped]
  | false =>
    obtain ⟨long, hstate, -⟩ := onRepair_state hstopped a
    rw [hstate]

end CrossPath
end LossWatch
