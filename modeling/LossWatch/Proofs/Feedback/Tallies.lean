import LossWatch.Proofs.Estimator.Tallies
import LossWatch.Proofs.Feedback.Balance

/-!
Three layers count the events of a session: the ledger of the primary estimator, the estimator itself
and the feedback around it. They count at different times, for the feedback hears of an event when the
whole call has run, and only then notes in the ledger that a report was withdrawn. The packet is still
on record as late at that time, so the counts agree after every call.
-/

namespace LossWatch

/-! ### One turn of a monitor -/

namespace Turn

variable {t : Turn} {m : Monitor} {cs : List EstimatorCall}

structure Recounts (t : Turn) (m : Monitor) : Prop where
  tally : t.monitor.estimator.tally = m.estimator.tally.after t.events
  late : ∀ n position, .falsePositive n position ∈ t.events →
    t.monitor.estimator.ledger.IsLate n

theorem Recounts.of_makes (ht : t.Makes m cs) (hcs : ∀ c ∈ cs, ∀ n, c ≠ .withdrawn n)
    (hlate : ∀ n position, .falsePositive n position ∈ m.estimator.events cs →
      (m.estimator.after cs).ledger.IsLate n) : t.Recounts m := by
  constructor
  · rw [ht.estimator, ht.events]
    exact m.estimator.tally_after hcs
  · rw [ht.estimator, ht.events]
    exact hlate

theorem Recounts.of_expiries (ht : t.Makes m cs)
    (hcs : ∀ c ∈ cs, (∃ a, c = .repair a) ∨ ∃ x : Expiry, c = x.call) : t.Recounts m := by
  refine .of_makes ht (fun c hc n he => ?_) fun n position h => ?_
  · rcases hcs c hc with ⟨a, rfl⟩ | ⟨x, rfl⟩ <;> cases he
  · have hlost := Estimator.isLost_of_mem_events (fun c hc now a he => by
      rcases hcs c hc with ⟨a', rfl⟩ | ⟨x, rfl⟩ <;> cases he) h
    exact absurd hlost Bool.false_ne_true

end Turn

namespace Monitor

theorem recounts_onArrival (m : Monitor) (hsize : 0 < m.estimator.ledger.history)
    (now : Timestamp) (a : Arrival) : (m.onArrival now a).Recounts m := by
  obtain ⟨es, -, hmakes⟩ := m.makes_onArrival now a
  have hexpiries : ∀ c ∈ es.map Expiry.call, ∃ x : Expiry, c = x.call := by
    intro c hc
    obtain ⟨x, -, rfl⟩ := List.mem_map.mp hc
    exact ⟨x, rfl⟩
  refine .of_makes hmakes (fun c hc n he => ?_) fun n position h => ?_
  · rcases List.mem_append.mp hc with hc | hc
    · obtain ⟨x, rfl⟩ := hexpiries c hc
      cases he
    · rw [List.mem_singleton.mp hc] at he
      cases he
  · rw [Estimator.events_append, List.mem_append] at h
    rw [Estimator.after_append]
    rcases h with h | h
    · have hlost := Estimator.isLost_of_mem_events (fun c hc now' a' he => by
        obtain ⟨x, rfl⟩ := hexpiries c hc
        cases he) h
      exact absurd hlost Bool.false_ne_true
    · let last : Exchange := ⟨m.estimator.after (es.map Expiry.call), .arrival now a⟩
      have hlast : (m.estimator.after (es.map Expiry.call)).events [.arrival now a] = last.events :=
        List.append_nil _
      have hkept := (m.estimator.kept_after (es.map Expiry.call)).2.2
      rw [hlast] at h
      exact last.isLate_of_alarm (Nat.lt_of_lt_of_eq hsize hkept.symm) h

theorem recounts_onRepair (m : Monitor) (now : Timestamp) (a : Arrival) :
    (m.onRepair now a).Recounts m := by
  obtain ⟨es, hmakes⟩ := m.makes_onRepair now a
  refine .of_expiries hmakes fun c hc => ?_
  rcases List.mem_append.mp hc with hc | hc
  · obtain ⟨x, -, rfl⟩ := List.mem_map.mp hc
    exact Or.inr ⟨x, rfl⟩
  · exact Or.inl ⟨a, List.mem_singleton.mp hc⟩

theorem recounts_pollTimers (m : Monitor) (now : Timestamp) : (m.pollTimers now).Recounts m := by
  obtain ⟨es, hmakes⟩ := m.makes_pollTimers now
  refine .of_expiries hmakes fun c hc => ?_
  obtain ⟨x, -, rfl⟩ := List.mem_map.mp hc
  exact Or.inr ⟨x, rfl⟩

end Monitor

namespace Feedback

variable {f f' f'' : Feedback} {e e' e'' : Estimator} {es fs : List LossEvent} {k k' : Nat}
  {heard : List LossEvent} {m : Monitor}

/-! ### Handling the events of a turn -/

structure Handled (f : Feedback) (e : Estimator) (es : List LossEvent) (k : Nat)
    (f' : Feedback) (e' : Estimator) : Prop where
  estimator : f'.estimator? = some e'
  slots : e'.ledger.slots = e.ledger.slots
  tally : e'.tally = { e.tally with withdrawn := e.tally.withdrawn + k }
  withdrawn : f'.stats.withdrawn = f.stats.withdrawn + k
  falsePositives : f'.stats.falsePositives = f.stats.falsePositives + es.countP (!·.isLost)

theorem Handled.trans (h : f.Handled e es k f' e') (h' : f'.Handled e' fs k' f'' e'') :
    f.Handled e (es ++ fs) (k + k') f'' e'' where
  estimator := h'.estimator
  slots := h'.slots.trans h.slots
  tally := by rw [h'.tally, h.tally, Nat.add_assoc]
  withdrawn := by rw [h'.withdrawn, h.withdrawn, Nat.add_assoc]
  falsePositives := by
    rw [h'.falsePositives, h.falsePositives, List.countP_append, Nat.add_assoc]

theorem handled_lost (he : f.estimator? = some e) (n : SeqNumber)
    (position : Option FlowPosition) :
    f.Handled e [.lost n position] 0 (f.handleEvent (.lost n position)) e := by
  have hstats : (f.handleEvent (.lost n position)).stats.withdrawn = f.stats.withdrawn ∧
      (f.handleEvent (.lost n position)).stats.falsePositives = f.stats.falsePositives ∧
      (f.handleEvent (.lost n position)).estimator? = f.estimator? := by
    by_cases hmem : n ∈ f.pending.lost
    · simp only [handleEvent, PendingLists.addLost_of_mem hmem, and_self]
    · simp only [handleEvent, PendingLists.addLost_of_not_mem hmem]
      exact ⟨rfl, rfl, rfl⟩
  exact ⟨hstats.2.2.trans he, rfl, rfl, hstats.1, hstats.2.1⟩

theorem handled_falsePositive (he : f.estimator? = some e) {n : SeqNumber}
    (hlate : e.ledger.IsLate n) (position : Option FlowPosition) :
    ∃ k e', f.Handled e [.falsePositive n position] k
      (f.handleEvent (.falsePositive n position)) e' := by
  by_cases hmem : n ∈ f.pending.lost
  · refine ⟨1, e.noteWithdrawn n, ?_⟩
    have hnoted : (f.primary.map (Monitor.noteWithdrawn · n)).map (·.estimator) =
        some (e.noteWithdrawn n) := by
      obtain ⟨m, hm, rfl⟩ := Option.map_eq_some_iff.mp he
      rw [hm]
      rfl
    have hslots : (e.noteWithdrawn n).ledger.slots = e.ledger.slots := by
      cases e <;> exact LossLedger.slots_noteWithdrawn _ n
    simp only [handleEvent, count, PendingLists.removeLost_of_mem hmem]
    exact ⟨hnoted, hslots, Estimator.tally_noteWithdrawn hlate, rfl, rfl⟩
  · refine ⟨0, e, ?_⟩
    simp only [handleEvent, count, PendingLists.removeLost_of_not_mem hmem]
    exact ⟨he, rfl, rfl, rfl, rfl⟩

theorem handled_handleEvents (he : f.estimator? = some e)
    (hlate : ∀ n position, .falsePositive n position ∈ es → e.ledger.IsLate n) :
    ∃ k e', f.Handled e es k (f.handleEvents es) e' := by
  induction es generalizing f e with
  | nil => exact ⟨0, e, he, rfl, rfl, rfl, rfl⟩
  | cons ev es ih =>
    obtain ⟨k, e', hfirst⟩ : ∃ k e', f.Handled e [ev] k (f.handleEvent ev) e' := by
      cases ev with
      | lost n position => exact ⟨0, e, handled_lost he n position⟩
      | falsePositive n position =>
        exact handled_falsePositive he (hlate n position List.mem_cons_self) position
    obtain ⟨k', e'', hrest⟩ := ih hfirst.estimator fun n position hmem =>
      (hlate n position (List.mem_cons_of_mem _ hmem)).of_slots hfirst.slots
    exact ⟨k + k', e'', hfirst.trans hrest⟩

/-! ### The counts after every call -/

/-- The three layers have counted these events. -/
structure Agrees (f : Feedback) (heard : List LossEvent) : Prop where
  estimator : ∃ e, f.estimator? = some e ∧
    e.tally = EventTally.after ⟨0, 0, 0, 0, f.stats.withdrawn⟩ heard
  falsePositives : f.stats.falsePositives = heard.countP (!·.isLost)

structure SameCounts (f f' : Feedback) : Prop where
  estimator : f'.estimator? = f.estimator?
  withdrawn : f'.stats.withdrawn = f.stats.withdrawn
  falsePositives : f'.stats.falsePositives = f.stats.falsePositives

theorem sameCounts_runComparison (f : Feedback) (act : Monitor → Turn) :
    f.SameCounts (f.runComparison act).feedback := by
  have hsame := f.unwatched_runComparison act
  have hstats := (congrArg Feedback.stats hsame :)
  exact ⟨(congrArg Feedback.estimator? hsame :), (congrArg FeedbackStats.withdrawn hstats :),
    (congrArg FeedbackStats.falsePositives hstats :)⟩

namespace Agrees

theorem of_same (h : f.Agrees heard) (hs : f.SameCounts f') : f'.Agrees heard := by
  constructor
  · rw [hs.estimator, hs.withdrawn]
    exact h.estimator
  · rw [hs.falsePositives]
    exact h.falsePositives

theorem runBoth (h : f.Agrees heard) (hm : f.primary = some m) (act : Monitor → Turn)
    (hact : (act m).Recounts m) :
    (f.runBoth act).feedback.Agrees (heard ++ (f.runBoth act).value) := by
  obtain ⟨e, he, htally⟩ := h.estimator
  have hestimator : m.estimator = e := Option.some.inj ((estimator?_of_primary hm).symm.trans he)
  obtain ⟨k, e', hhandled⟩ := handled_handleEvents
    (f := { f with primary := some (act m).monitor }) (e := (act m).monitor.estimator) rfl
    hact.late
  have hran : (f.runBoth act).value = (act m).events ∧
      (f.runBoth act).feedback = (({ f with primary := some (act m).monitor }.handleEvents
        (act m).events).runComparison act).feedback := by
    simp only [Feedback.runBoth, runPrimary, hm, and_self]
  rw [hran.1, hran.2]
  refine of_same ?_ (sameCounts_runComparison _ act)
  refine ⟨⟨e', hhandled.estimator, ?_⟩, ?_⟩
  · rw [hhandled.tally, hact.tally, hestimator, htally, hhandled.withdrawn,
      EventTally.after_append]
    rfl
  · rw [hhandled.falsePositives, List.countP_append]
    exact congrArg (· + _) h.falsePositives

theorem onArrival (h : f.Agrees heard) (hf : f.Sound) (now : Timestamp) (a : Arrival) :
    (f.call (.arrival now a)).Agrees (heard ++ f.heard (.arrival now a)) := by
  cases hrun : f.isShutDown with
  | true =>
    simp only [Feedback.call, Feedback.heard, onArrival_of_shutDown hrun, List.append_nil]
    exact h
  | false =>
    obtain ⟨m, hm⟩ := hf.monitor
    obtain ⟨e, he, -, hhistory⟩ := hf.estimator
    have hestimator : m.estimator = e :=
      Option.some.inj ((estimator?_of_primary hm).symm.trans he)
    have hsize : 0 < m.estimator.ledger.history := by
      rw [hestimator, hhistory]
      exact LossLedger.history_initial_pos
    have hcounted : (f.count fun s => { s with packets := s.packets + 1 }).Agrees heard :=
      h.of_same ⟨rfl, rfl, rfl⟩
    simp only [Feedback.call, Feedback.heard, onArrival_of_running hf.mode hrun]
    exact hcounted.runBoth hm (·.onArrival now a) (m.recounts_onArrival hsize now a)

theorem onRepair (h : f.Agrees heard) (hf : f.Sound) (now : Timestamp) (a : Arrival) :
    (f.call (.repair now a)).Agrees (heard ++ f.heard (.repair now a)) := by
  cases hrun : f.isShutDown with
  | true =>
    have hrefused : f.onRepair now a = .error .shutDown := by
      simp only [Feedback.onRepair, requireRunning, hrun, if_true]
      rfl
    simp only [Feedback.call, Feedback.heard, hrefused, List.append_nil]
    exact h
  | false =>
    obtain ⟨m, hm⟩ := hf.monitor
    let counted := f.count fun s => { s with rtxPackets := s.rtxPackets + 1 }
    have hcounted : counted.Agrees heard := h.of_same ⟨rfl, rfl, rfl⟩
    have hran := hcounted.runBoth hm (·.onRepair now a) (m.recounts_onRepair now a)
    have hvalue : (counted.runBoth (·.onRepair now a)).value = (m.onRepair now a).events := by
      simp only [counted, Feedback.runBoth, runPrimary, count, hm]
    have hheard : f.heard (.repair now a) = (counted.runBoth (·.onRepair now a)).value := by
      simp only [Feedback.heard, onRepair_eq hf.mode hrun, hm, Option.map_some, Option.getD_some]
      exact hvalue.symm
    rw [hheard]
    simp only [Feedback.call, onRepair_eq hf.mode hrun]
    refine hran.of_same ?_
    -- The answer of the requests moves only counts of repairs.
    rw [reconcile]
    generalize (counted.runBoth (·.onRepair now a)).feedback.requests.answer now a.seq
      f.rtxLateAfter = answer
    rcases answer with ⟨_ | _ | _ | _, requests⟩ <;> exact ⟨rfl, rfl, rfl⟩

theorem pollTimers (h : f.Agrees heard) (hf : f.Sound) (now : Timestamp) :
    (f.call (.poll now)).Agrees (heard ++ f.heard (.poll now)) := by
  simp only [Feedback.call, Feedback.heard, Feedback.pollTimers]
  split
  · rw [List.append_nil]
    exact h
  · obtain ⟨m, hm⟩ := hf.monitor
    exact h.runBoth hm (·.pollTimers now) (m.recounts_pollTimers now)

theorem onRequest (h : f.Agrees heard) (hf : f.Sound) (now : Timestamp) (n : SeqNumber)
    (flow : Option Nat) (tie : Nat) : (f.call (.request now n flow tie)).Agrees heard := by
  cases hrun : f.isShutDown with
  | true =>
    have hrefused : f.onRequest now n flow tie = .error .shutDown := by
      simp only [Feedback.onRequest, requireRunning, hrun, if_true]
      rfl
    simp only [Feedback.call, hrefused]
    exact h
  | false =>
    simp only [Feedback.call, onRequest_eq hf.mode hrun]
    generalize (f.requests.prune _ _ _).request _ _ _ = requests
    exact h.of_same ⟨rfl, rfl, rfl⟩

theorem of_tally {g : Estimator → Step Estimator} (h : f.Agrees heard)
    (hg : ∀ e, (g e).state.tally = e.tally)
    (hestimator : f'.estimator? = f.estimator?.map fun e => (g e).state)
    (hstats : f'.stats = f.stats) : f'.Agrees heard := by
  obtain ⟨e, he, htally⟩ := h.estimator
  rw [he] at hestimator
  refine ⟨⟨_, hestimator, ?_⟩, ?_⟩
  · rw [hg, hstats]
    exact htally
  · rw [hstats]
    exact h.falsePositives

theorem shutDown (h : f.Agrees heard) : (f.call .shutDown).Agrees heard := by
  simp only [Feedback.call, Feedback.shutDown]
  split
  · exact h
  · refine h.of_tally Estimator.tally_stop ?_ rfl
    rw [estimator?, estimator?, Option.map_map, Option.map_map]
    rfl

theorem reset (h : f.Agrees heard) : (f.call .reset).Agrees heard := by
  refine h.of_tally Estimator.tally_reset ?_ rfl
  show (f.primary.map _).map _ = (f.primary.map _).map _
  rw [Option.map_map, Option.map_map]
  rfl

theorem call (h : f.Agrees heard) (hf : f.Sound) (c : FeedbackCall) :
    (f.call c).Agrees (heard ++ f.heard c) := by
  have hsilent : f.heard c = [] → (f.call c).Agrees heard →
      (f.call c).Agrees (heard ++ f.heard c) := by
    intro hheard hcall
    rwa [hheard, List.append_nil]
  cases c with
  | arrival now a => exact h.onArrival hf now a
  | repair now a => exact h.onRepair hf now a
  | poll now => exact h.pollTimers hf now
  | request now n flow tie => exact hsilent rfl (h.onRequest hf now n flow tie)
  | takeLost => exact hsilent rfl (h.of_same ⟨rfl, rfl, rfl⟩)
  | takeReceived => exact hsilent rfl (h.of_same ⟨rfl, rfl, rfl⟩)
  | takeComparison => exact hsilent rfl (h.of_same ⟨rfl, rfl, rfl⟩)
  | shutDown => exact hsilent rfl h.shutDown
  | reset => exact hsilent rfl h.reset

theorem after (h : f.Agrees heard) (hf : f.Sound) (calls : List FeedbackCall) :
    (f.after calls).Agrees (heard ++ f.hears calls) := by
  induction calls generalizing f heard with
  | nil =>
    rw [hears, List.append_nil]
    exact h
  | cons c calls ih =>
    have hrest := ih (h.call hf c) (hf.call c)
    rwa [List.append_assoc] at hrest

end Agrees

theorem Fresh.agrees (h : f.Fresh) : f.Agrees [] := by
  obtain ⟨he, comparison, rtxLateAfter⟩ := h
  exact ⟨⟨_, rfl, he.tally_eq⟩, rfl⟩

/-- With loss reports, the ledger of the primary estimator, the estimator and the feedback agree on
how many losses and false alarms were reported and how many reports were withdrawn, after any calls. -/
theorem layers_count_alike {caps : Capabilities} {r : FeedbackReply Unit}
    (hmode : caps.mode = .nack) (built : ofCapabilities caps = .ok r) (calls : List FeedbackCall) :
    let f := r.feedback.after calls
    let reported := (r.feedback.hears calls).countP (·.isLost)
    let alarms := (r.feedback.hears calls).countP (!·.isLost)
    ∃ m, f.primary = some m ∧
      (m.estimator.diagnostics.losses = reported ∧
        m.estimator.ledger.totals.assumedLost = reported) ∧
      (m.estimator.diagnostics.falsePositives = alarms ∧
        m.estimator.ledger.totals.falsePositives = alarms ∧ f.stats.falsePositives = alarms) ∧
      f.stats.withdrawn = m.estimator.ledger.totals.withdrawn := by
  intro f reported alarms
  have hfresh := fresh_of_ofCapabilities hmode built
  have hagrees := hfresh.agrees.after hfresh.sound calls
  rw [List.nil_append] at hagrees
  obtain ⟨e, he, htally⟩ := hagrees.estimator
  obtain ⟨m, hm, rfl⟩ := Option.map_eq_some_iff.mp he
  have hlosses := congrArg EventTally.losses htally
  have hassumed := congrArg EventTally.assumedLost htally
  have halarms := congrArg EventTally.falsePositives htally
  have hlate := congrArg EventTally.lateArrivals htally
  have hwithdrawn := congrArg EventTally.withdrawn htally
  simp only [EventTally.after, Nat.zero_add] at hlosses hassumed halarms hlate
  exact ⟨m, hm, ⟨hlosses, hassumed⟩, ⟨halarms, hlate, hagrees.falsePositives⟩, hwithdrawn.symm⟩

theorem layers_count_alike_of_restarted_session :
    let caps : Capabilities := { primary := .crossPath }
    let calls : List FeedbackCall :=
      [.arrival .zero ⟨.ofNat 1, some ⟨0, .ofNat 1⟩⟩,
        .arrival (.ofMillis 40) ⟨.ofNat 5, some ⟨0, .ofNat 5⟩⟩,
        .arrival (.ofMillis 45) ⟨.ofNat 3, some ⟨1, .ofNat 1⟩⟩, .takeLost,
        .arrival (.ofMillis 50) ⟨.ofNat 2, some ⟨1, .ofNat 2⟩⟩, .reset,
        .arrival (.ofMillis 80) ⟨.ofNat 6, none⟩, .poll (.ofMillis 200), .shutDown]
    ∃ r, caps.mode = .nack ∧ ofCapabilities caps = .ok r ∧
      let f := r.feedback.after calls
      let reported := (r.feedback.hears calls).countP (·.isLost)
      let alarms := (r.feedback.hears calls).countP (!·.isLost)
      ∃ m, f.primary = some m ∧
        (m.estimator.diagnostics.losses = reported ∧
          m.estimator.ledger.totals.assumedLost = reported) ∧
        (m.estimator.diagnostics.falsePositives = alarms ∧
          m.estimator.ledger.totals.falsePositives = alarms ∧ f.stats.falsePositives = alarms) ∧
        f.stats.withdrawn = m.estimator.ledger.totals.withdrawn := by
  intro caps calls
  have hmode : caps.mode = .nack := by decide
  have hvalid : caps.validate = .ok () :=
    (validate_of_nack hmode).trans PredictorConfig.validate_default
  obtain ⟨_, hbuilt⟩ := ofCapabilities_of_valid hmode hvalid
  obtain ⟨r, -, hr, -⟩ := hbuilt none
  exact ⟨r, hmode, hr, layers_count_alike hmode hr calls⟩

end Feedback
end LossWatch
