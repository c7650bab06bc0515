import LossWatch.Feedback
import LossWatch.Proofs.Estimator.Recall
import LossWatch.Proofs.Monitor.Expiries
import Mathlib.Data.List.Nodup

/-!
What a call does to the list of losses and to the primary estimator. Either the estimator goes through
a run of calls and the list follows the events of that run, or the list is emptied, or the estimator
is stopped or reset. The comparison estimator, the requests and the statistics have no part in it.
-/

namespace LossWatch

inductive FeedbackCall
  | arrival (now : Timestamp) (a : Arrival)
  | repair (now : Timestamp) (a : Arrival)
  /-- The last argument picks one of several equally old requests, should one of them have to go. -/
  | request (now : Timestamp) (seq : SeqNumber) (flow : Option Nat) (tie : Nat := 0)
  | poll (now : Timestamp)
  | takeLost
  | takeReceived
  | takeComparison (count : Nat)
  | shutDown
  | reset

def FeedbackCall.packet? : FeedbackCall → Option EstimatorCall
  | .arrival now a => some (.arrival now a)
  | .repair _ a => some (.repair a)
  | _ => none

def FeedbackCall.Spares (s : SeqNumber) (c : FeedbackCall) : Prop := ∀ d ∈ c.packet?, d.Spares s

instance (s : SeqNumber) (c : FeedbackCall) : Decidable (c.Spares s) :=
  inferInstanceAs (Decidable (∀ d ∈ c.packet?, d.Spares s))

namespace PendingLists

variable {p : PendingLists}

theorem nodup_addLost (hn : p.lost.Nodup) (seq : SeqNumber) : (p.addLost seq).2.lost.Nodup := by
  unfold addLost
  split
  · exact hn
  · rename_i hnot
    exact List.nodup_append.mpr ⟨hn, List.nodup_singleton _, by
      rintro a ha b hb rfl
      exact hnot (List.mem_singleton.mp hb ▸ ha)⟩

theorem mem_addLost (p : PendingLists) (seq s : SeqNumber) :
    s ∈ (p.addLost seq).2.lost ↔ seq = s ∨ s ∈ p.lost := by
  unfold addLost
  split
  · rename_i hmem
    exact ⟨Or.inr, fun h => h.elim (fun he => he ▸ hmem) id⟩
  · simp [or_comm, eq_comm]

theorem nodup_removeLost (hn : p.lost.Nodup) (seq : SeqNumber) :
    (p.removeLost seq).2.lost.Nodup := by
  unfold removeLost
  split
  · exact hn.erase seq
  · exact hn

theorem mem_removeLost (hn : p.lost.Nodup) (seq s : SeqNumber) :
    s ∈ (p.removeLost seq).2.lost ↔ seq ≠ s ∧ s ∈ p.lost := by
  unfold removeLost
  split
  · exact hn.mem_erase_iff.trans (and_congr_left fun _ => ne_comm)
  · rename_i hnot
    exact ⟨fun h => ⟨fun he => hnot (he ▸ h), h⟩, And.right⟩

end PendingLists

namespace Feedback

/-- The feedback after a call. A refused one changes nothing. -/
def call (f : Feedback) : FeedbackCall → Feedback
  | .arrival now a =>
    match f.onArrival now a with
    | .ok r => r.feedback
    | .error _ => f
  | .repair now a =>
    match f.onRepair now a with
    | .ok r => r.feedback
    | .error _ => f
  | .request now seq flow tie =>
    match f.onRequest now seq flow tie with
    | .ok f' => f'
    | .error _ => f
  | .poll now => (f.pollTimers now).feedback
  | .takeLost => f.takeLost.2
  | .takeReceived => f.takeReceived.2
  | .takeComparison count => (f.takeComparison count).2
  | .shutDown => f.shutDown.feedback
  | .reset => f.reset

def heard (f : Feedback) : FeedbackCall → List LossEvent
  | .arrival now a =>
    match f.onArrival now a with
    | .ok r => r.value
    | .error _ => []
  | .repair now a =>
    match f.onRepair now a with
    | .ok _ => (f.primary.map fun m => (m.onRepair now a).events).getD []
    | .error _ => []
  | .poll now => (f.pollTimers now).value
  | _ => []

def after (f : Feedback) (calls : List FeedbackCall) : Feedback := calls.foldl call f

/-- A request at once for each of the numbers. -/
def requestsFor (now : Timestamp) (tie : SeqNumber → Nat) (seqs : List SeqNumber) :
    List FeedbackCall :=
  seqs.map fun seq => .request now seq none (tie seq)

def hears : Feedback → List FeedbackCall → List LossEvent
  | _, [] => []
  | f, c :: calls => f.heard c ++ hears (f.call c) calls

def resets (f : Feedback) : Nat := (f.diagnostics.map (·.resets)).getD 0

def estimator? (f : Feedback) : Option Estimator := f.primary.map (·.estimator)

def lists (f : Feedback) (s : SeqNumber) : Bool := decide (s ∈ f.pending.lost)

/-! ### Events on the list -/

structure SameLosses (f f' : Feedback) : Prop where
  mode : f'.mode = f.mode
  isShutDown : f'.isShutDown = f.isShutDown
  lost : f'.pending.lost = f.pending.lost
  primary : f'.primary = f.primary

/-- The list has followed the events, and the primary estimator has gone through the calls. -/
structure Follows (f : Feedback) (cs : List EstimatorCall) (es : List LossEvent)
    (f' : Feedback) : Prop where
  mode : f'.mode = f.mode
  isShutDown : f'.isShutDown = f.isShutDown
  nodup : f'.pending.lost.Nodup
  lists : ∀ s, f'.lists s = listedAfter s (f.lists s) es
  estimator : f'.estimator? = f.estimator?.map (·.after cs)

variable {f f' f'' : Feedback} {cs ds : List EstimatorCall} {es fs : List LossEvent}
  {e : LossEvent} {s : SeqNumber}

theorem lists_of_eq_nil (h : f.pending.lost = []) (s : SeqNumber) : f.lists s = false := by
  simp only [Feedback.lists, h, List.not_mem_nil, decide_false]

theorem lists_congr (h : f'.pending.lost = f.pending.lost) (s : SeqNumber) :
    f'.lists s = f.lists s := by
  simp only [Feedback.lists, h]

theorem estimator?_of_primary {m : Monitor} (h : f.primary = some m) :
    f.estimator? = some m.estimator := by
  simp only [estimator?, h, Option.map_some]

theorem Follows.of_same (h : f.SameLosses f') (hn : f.pending.lost.Nodup) :
    f.Follows [] [] f' := by
  refine ⟨h.mode, h.isShutDown, h.lost ▸ hn, fun s => ?_, ?_⟩
  · exact lists_congr h.lost s
  · rw [estimator?, estimator?, h.primary]
    cases f.primary <;> rfl

theorem Follows.trans (h : f.Follows cs es f') (h' : f'.Follows ds fs f'') :
    f.Follows (cs ++ ds) (es ++ fs) f'' := by
  refine ⟨h'.mode.trans h.mode, h'.isShutDown.trans h.isShutDown, h'.nodup, fun s => ?_, ?_⟩
  · rw [h'.lists, h.lists, listedAfter_append]
  · rw [h'.estimator, h.estimator, Option.map_map]
    exact congrFun (congrArg _ (funext fun e => (e.after_append cs ds).symm)) _

theorem Follows.same_right (h : f.Follows cs es f') (h' : f'.SameLosses f'') :
    f.Follows cs es f'' := by
  have hall := h.trans (.of_same h' h.nodup)
  rwa [List.append_nil, List.append_nil] at hall

theorem handleEvent_lost (f : Feedback) (seq : SeqNumber) (position : Option FlowPosition) :
    ∃ stats, f.handleEvent (.lost seq position) =
      { f with pending := (f.pending.addLost seq).2, stats } := by
  unfold handleEvent PendingLists.addLost
  by_cases hmem : seq ∈ f.pending.lost
  · simp only [if_pos hmem]
    exact ⟨f.stats, rfl⟩
  · simp only [if_neg hmem]
    exact ⟨_, rfl⟩

theorem handleEvent_falsePositive (f : Feedback) (seq : SeqNumber)
    (position : Option FlowPosition) :
    ∃ stats, f.handleEvent (.falsePositive seq position) =
      { f with
        pending := (f.pending.removeLost seq).2
        primary := if seq ∈ f.pending.lost then f.primary.map (Monitor.noteWithdrawn · seq)
          else f.primary
        stats } := by
  unfold handleEvent PendingLists.removeLost
  by_cases hmem : seq ∈ f.pending.lost
  · have hcount : ∀ g, seq ∈ (f.count g).pending.lost := fun _ => hmem
    simp only [if_pos hmem, if_pos (hcount _)]
    exact ⟨_, rfl⟩
  · have hcount : ∀ g, seq ∉ (f.count g).pending.lost := fun _ => hmem
    simp only [if_neg hmem, if_neg (hcount _)]
    exact ⟨_, rfl⟩

theorem follows_handleEvent (hn : f.pending.lost.Nodup) (e : LossEvent) :
    ∃ seqs : List SeqNumber, f.Follows (seqs.map .withdrawn) [e] (f.handleEvent e) := by
  cases e with
  | lost seq position =>
    obtain ⟨stats, hf'⟩ := f.handleEvent_lost seq position
    have hlists : ∀ s, decide (s ∈ (f.pending.addLost seq).2.lost) =
        listedAfter s (f.lists s) [.lost seq position] := by
      intro s
      by_cases hs : seq = s <;>
        simp [listedAfter, LossEvent.seq, LossEvent.isLost, PendingLists.mem_addLost,
          Feedback.lists, hs]
    rw [hf']
    refine ⟨[], rfl, rfl, PendingLists.nodup_addLost hn seq, hlists, ?_⟩
    exact Option.map_id'.symm
  | falsePositive seq position =>
    obtain ⟨stats, hf'⟩ := f.handleEvent_falsePositive seq position
    have hlists : ∀ s, decide (s ∈ (f.pending.removeLost seq).2.lost) =
        listedAfter s (f.lists s) [.falsePositive seq position] := by
      intro s
      by_cases hs : seq = s <;>
        simp [listedAfter, LossEvent.seq, LossEvent.isLost, PendingLists.mem_removeLost hn,
          Feedback.lists, hs]
    have hnodup := PendingLists.nodup_removeLost hn seq
    rw [hf']
    by_cases hmem : seq ∈ f.pending.lost
    · rw [if_pos hmem]
      refine ⟨[seq], rfl, rfl, hnodup, hlists, ?_⟩
      show (f.primary.map _).map _ = (f.primary.map _).map _
      rw [Option.map_map, Option.map_map]
      rfl
    · rw [if_neg hmem]
      refine ⟨[], rfl, rfl, hnodup, hlists, ?_⟩
      exact Option.map_id'.symm

theorem follows_handleEvents (hn : f.pending.lost.Nodup) (es : List LossEvent) :
    ∃ seqs : List SeqNumber, f.Follows (seqs.map .withdrawn) es (f.handleEvents es) := by
  induction es generalizing f with
  | nil => exact ⟨[], .of_same ⟨rfl, rfl, rfl, rfl⟩ hn⟩
  | cons e es ih =>
    obtain ⟨first, hfirst⟩ := follows_handleEvent hn e
    obtain ⟨rest, hrest⟩ := ih hfirst.nodup
    refine ⟨first ++ rest, ?_⟩
    rw [List.map_append]
    exact hfirst.trans hrest

/-! ### What a call does -/

theorem SameLosses.refl (f : Feedback) : f.SameLosses f := ⟨rfl, rfl, rfl, rfl⟩

theorem SameLosses.trans (h : f.SameLosses f') (h' : f'.SameLosses f'') : f.SameLosses f'' :=
  ⟨h'.mode.trans h.mode, h'.isShutDown.trans h.isShutDown, h'.lost.trans h.lost,
    h'.primary.trans h.primary⟩

theorem sameLosses_count (f : Feedback) (g : FeedbackStats → FeedbackStats) :
    f.SameLosses (f.count g) := ⟨rfl, rfl, rfl, rfl⟩

theorem sameLosses_forward (kind : EstimatorKind) (ds : List Delivery) (f : Feedback) :
    f.SameLosses (ds.foldl (forward kind) f) := by
  induction ds generalizing f with
  | nil => exact .refl f
  | cons d ds ih =>
    have hfirst : f.SameLosses (f.forward kind d) := by
      unfold forward
      split
      · exact ⟨rfl, rfl, rfl, rfl⟩
      · exact f.sameLosses_count _
    exact hfirst.trans (ih _)

theorem sameLosses_runComparison (f : Feedback) (act : Monitor → Turn) :
    f.SameLosses (f.runComparison act).feedback := by
  unfold runComparison
  cases f.comparison with
  | none => exact .refl f
  | some m =>
    have hturn : f.SameLosses ({ f with comparison := some (act m).monitor }.count fun s =>
      { s with comparisonEvents := s.comparisonEvents + (act m).deliveries.size }) :=
      ⟨rfl, rfl, rfl, rfl⟩
    apply hturn.trans
    simp only [← Array.foldl_toList]
    exact sameLosses_forward _ _ _

theorem follows_runBoth {m : Monitor} (hm : f.primary = some m) (hn : f.pending.lost.Nodup)
    (act : Monitor → Turn) (hact : (act m).Makes m cs) :
    (f.runBoth act).value = m.estimator.events cs ∧ ∃ seqs : List SeqNumber,
      f.Follows (cs ++ seqs.map .withdrawn) (f.runBoth act).value (f.runBoth act).feedback := by
  have hfirst : f.Follows cs [] { f with primary := some (act m).monitor } := by
    refine ⟨rfl, rfl, hn, fun _ => rfl, ?_⟩
    show some (act m).monitor.estimator = _
    rw [hact.estimator, estimator?_of_primary hm]
    rfl
  obtain ⟨seqs, hrest⟩ := follows_handleEvents hfirst.nodup (act m).events
  have hvalue : (f.runBoth act).value = (act m).events := by
    simp only [runBoth, runPrimary, hm]
  have hfeedback : (f.runBoth act).feedback =
      (({ f with primary := some (act m).monitor }.handleEvents (act m).events).runComparison
        act).feedback := by
    simp only [runBoth, runPrimary, hm]
  rw [hfeedback, hvalue]
  exact ⟨hact.events, seqs, (hfirst.trans hrest).same_right (sameLosses_runComparison _ act)⟩

theorem onArrival_of_shutDown (hdown : f.isShutDown = true) (now : Timestamp) (a : Arrival) :
    f.onArrival now a = .error .shutDown := by
  simp only [onArrival, requireRunning, hdown, if_true]
  rfl

theorem onRepair_of_shutDown (hdown : f.isShutDown = true) (now : Timestamp) (a : Arrival) :
    f.onRepair now a = .error .shutDown := by
  simp only [onRepair, requireRunning, hdown, if_true]
  rfl

theorem onRequest_of_shutDown (hdown : f.isShutDown = true) (now : Timestamp) (seq : SeqNumber)
    (flow : Option Nat) (tie : Nat) : f.onRequest now seq flow tie = .error .shutDown := by
  simp only [onRequest, requireRunning, hdown, if_true]
  rfl

theorem onArrival_of_running (hmode : f.mode = .nack) (hrun : f.isShutDown = false)
    (now : Timestamp) (a : Arrival) : f.onArrival now a =
      .ok ((f.count fun s => { s with packets := s.packets + 1 }).runBoth
        (·.onArrival now a)) := by
  have hcount : ∀ g, (f.count g).mode = .nack := fun _ => hmode
  simp only [onArrival, requireRunning, hrun, hcount]
  rfl

theorem onArrival_of_ack (hmode : f.mode = .ack) (hrun : f.isShutDown = false) (now : Timestamp)
    (a : Arrival) : f.onArrival now a = .ok
      { feedback := { f.count fun s => { s with packets := s.packets + 1 } with
          pending := f.pending.addReceived a.seq }
        value := [] } := by
  have hcount : ∀ g, (f.count g).mode = .ack := fun _ => hmode
  simp only [onArrival, requireRunning, hrun, hcount]
  rfl

theorem onArrival_of_none (hmode : f.mode = .none) (hrun : f.isShutDown = false) (now : Timestamp)
    (a : Arrival) : f.onArrival now a = .ok
      { feedback := f.count fun s => { s with packets := s.packets + 1 }, value := [] } := by
  have hcount : ∀ g, (f.count g).mode = .none := fun _ => hmode
  simp only [onArrival, requireRunning, hrun, hcount]
  rfl

theorem onRepair_of_ne (hmode : f.mode ≠ .nack) (hrun : f.isShutDown = false) (now : Timestamp)
    (a : Arrival) : f.onRepair now a = .error (.wrongMode .nack f.mode) := by
  simp only [onRepair, requireRunning, requireMode, hrun, if_neg hmode]
  rfl

theorem onRequest_of_ne (hmode : f.mode ≠ .nack) (hrun : f.isShutDown = false) (now : Timestamp)
    (seq : SeqNumber) (flow : Option Nat) (tie : Nat) :
    f.onRequest now seq flow tie = .error (.wrongMode .nack f.mode) := by
  simp only [onRequest, requireRunning, requireMode, hrun, if_neg hmode]
  rfl

/-- What one call does to the list of losses and to the primary estimator. -/
inductive Effect (f : Feedback) (c : FeedbackCall) : Prop
  | ran (cs : List EstimatorCall) (hspares : ∀ s, c.Spares s → ∀ d ∈ cs, d.Spares s)
      (hheard : ∀ e, f.estimator? = some e → f.heard c = e.events cs)
      (hfollows : f.Follows cs (f.heard c) (f.call c))
  | emptied (hheard : f.heard c = []) (hmode : (f.call c).mode = f.mode)
      (hdown : (f.call c).isShutDown = f.isShutDown) (hlost : (f.call c).pending.lost = [])
      (hestimator : (f.call c).estimator? = f.estimator?)
  | stopped (hheard : f.heard c = []) (hmode : (f.call c).mode = f.mode)
      (hdown : (f.call c).isShutDown = true) (hlost : (f.call c).pending = f.pending)
      (hestimator : (f.call c).estimator? = f.estimator?.map (·.stop.state))
  | restarted (hheard : f.heard c = []) (hmode : (f.call c).mode = f.mode)
      (hdown : (f.call c).isShutDown = false) (hlost : (f.call c).pending.lost = [])
      (hestimator : (f.call c).estimator? = f.estimator?.map (·.reset.state))

variable {c : FeedbackCall}

theorem Effect.of_same (hn : f.pending.lost.Nodup) (hheard : f.heard c = [])
    (h : f.SameLosses (f.call c)) : f.Effect c := by
  refine .ran [] (fun _ _ d hd => absurd hd List.not_mem_nil) (fun _ _ => hheard) ?_
  rw [hheard]
  exact .of_same h hn

theorem Effect.of_runBoth {m : Monitor} (hm : f.primary = some m) (hn : f.pending.lost.Nodup)
    (g : FeedbackStats → FeedbackStats) (act : Monitor → Turn) (hact : (act m).Makes m cs)
    (hspares : ∀ s, c.Spares s → ∀ d ∈ cs, d.Spares s)
    (hheard : f.heard c = ((f.count g).runBoth act).value)
    (hafter : ((f.count g).runBoth act).feedback.SameLosses (f.call c)) : f.Effect c := by
  obtain ⟨hvalue, seqs, hfollows⟩ := follows_runBoth (f := f.count g) hm hn act hact
  have hcounted : f.Follows [] [] (f.count g) := .of_same (f.sameLosses_count g) hn
  refine .ran (cs ++ seqs.map .withdrawn) ?_ ?_ ?_
  · intro s hs d hd
    rcases List.mem_append.mp hd with hd | hd
    · exact hspares s hs d hd
    · obtain ⟨seq, -, rfl⟩ := List.mem_map.mp hd
      trivial
  · intro e he
    have hsame : m.estimator = e := Option.some.inj ((estimator?_of_primary hm).symm.trans he)
    rw [hheard, hvalue, ← hsame, Estimator.events_append, Estimator.events_withdrawn,
      List.append_nil]
  · rw [hheard]
    exact (hcounted.trans hfollows).same_right hafter

theorem spares_expiries {es : List Expiry} {s : SeqNumber} :
    ∀ d ∈ es.map Expiry.call, d.Spares s := by
  intro d hd
  obtain ⟨x, -, rfl⟩ := List.mem_map.mp hd
  trivial

theorem spares_expiries_append {es : List Expiry} {d : EstimatorCall} (hd : c.packet? = some d)
    (s : SeqNumber) (hs : c.Spares s) : ∀ d' ∈ es.map Expiry.call ++ [d], d'.Spares s := by
  intro d' hd'
  rcases List.mem_append.mp hd' with hd' | hd'
  · exact spares_expiries d' hd'
  · rw [List.mem_singleton.mp hd']
    exact hs d hd

theorem effect_arrival {m : Monitor} (hm : f.primary = some m) (hmode : f.mode = .nack)
    (hn : f.pending.lost.Nodup) (now : Timestamp) (a : Arrival) : f.Effect (.arrival now a) := by
  cases hdown : f.isShutDown with
  | true =>
    have hrefused := onArrival_of_shutDown hdown now a
    exact .of_same hn (by simp only [heard, hrefused]) (by simp only [call, hrefused]; exact .refl f)
  | false =>
    have haccepted := onArrival_of_running hmode hdown now a
    obtain ⟨es, -, hes⟩ := m.makes_onArrival now a
    refine .of_runBoth hm hn (fun s => { s with packets := s.packets + 1 }) (·.onArrival now a) hes
      (spares_expiries_append rfl) ?_ ?_
    · simp only [heard, haccepted]
    · simp only [call, haccepted]
      exact .refl _

theorem effect_repair {m : Monitor} (hm : f.primary = some m) (hmode : f.mode = .nack)
    (hn : f.pending.lost.Nodup) (now : Timestamp) (a : Arrival) : f.Effect (.repair now a) := by
  cases hdown : f.isShutDown with
  | true =>
    have hrefused := onRepair_of_shutDown hdown now a
    exact .of_same hn (by simp only [heard, hrefused]) (by simp only [call, hrefused]; exact .refl f)
  | false =>
    obtain ⟨es, hes⟩ := m.makes_onRepair now a
    obtain ⟨r, haccepted, hsame⟩ : ∃ r, f.onRepair now a = .ok r ∧
        ((f.count fun s => { s with rtxPackets := s.rtxPackets + 1 }).runBoth
          (·.onRepair now a)).feedback.SameLosses r.feedback := by
      simp only [onRepair, requireRunning, requireMode, hdown, hmode]
      exact ⟨_, rfl, rfl, rfl, rfl, rfl⟩
    have hvalue := (follows_runBoth (f := f.count fun s =>
      { s with rtxPackets := s.rtxPackets + 1 }) hm hn (·.onRepair now a) hes).1
    refine .of_runBoth hm hn (fun s => { s with rtxPackets := s.rtxPackets + 1 })
      (·.onRepair now a) hes (spares_expiries_append rfl) ?_ ?_
    · simp only [heard, haccepted, hm, Option.map_some, Option.getD_some]
      rw [hes.events]
      exact hvalue.symm
    · simp only [call, haccepted]
      exact hsame

theorem effect_poll {m : Monitor} (hm : f.primary = some m) (hn : f.pending.lost.Nodup)
    (now : Timestamp) : f.Effect (.poll now) := by
  cases hdown : f.isShutDown with
  | true =>
    have hidle : f.pollTimers now = { feedback := f, value := [] } := if_pos hdown
    exact .of_same hn (by simp only [heard, hidle]) (by simp only [call, hidle]; exact .refl f)
  | false =>
    -- A poll counts nothing; `count id` gives it the form of the other calls.
    have hpoll : f.pollTimers now = (f.count id).runBoth (·.pollTimers now) :=
      if_neg (by simp [hdown])
    obtain ⟨es, hes⟩ := m.makes_pollTimers now
    refine .of_runBoth hm hn id (·.pollTimers now) hes (fun _ _ => spares_expiries) ?_ ?_
    · simp only [heard, hpoll]
    · simp only [call, hpoll]
      exact .refl _

theorem effect_request (hmode : f.mode = .nack) (hn : f.pending.lost.Nodup) (now : Timestamp)
    (seq : SeqNumber) (flow : Option Nat) (tie : Nat) :
    f.Effect (.request now seq flow tie) := by
  refine .of_same hn rfl ?_
  cases hdown : f.isShutDown with
  | true =>
    simp only [call, onRequest_of_shutDown hdown]
    exact .refl f
  | false =>
    obtain ⟨f', haccepted, hsame⟩ : ∃ f', f.onRequest now seq flow tie = .ok f' ∧
        f.SameLosses f' := by
      simp only [onRequest, requireRunning, requireMode, hdown, hmode]
      exact ⟨_, rfl, hmode.symm, hdown.symm, rfl, rfl⟩
    simp only [call, haccepted]
    exact hsame

theorem effect_shutDown (hn : f.pending.lost.Nodup) : f.Effect .shutDown := by
  cases hdown : f.isShutDown with
  | true =>
    have hagain : f.shutDown = { feedback := f, value := () } := if_pos hdown
    exact .of_same hn rfl (by simp only [call, hagain]; exact .refl f)
  | false =>
    have hfirst : f.shutDown.feedback = { f with
        isShutDown := true
        primary := f.primary.map (·.stop.monitor)
        comparison := f.comparison.map (·.stop.monitor) } := by
      unfold shutDown
      rw [if_neg (by simp [hdown])]
    refine .stopped rfl ?_ ?_ ?_ ?_ <;> simp only [call, hfirst]
    rw [estimator?, estimator?, Option.map_map, Option.map_map]
    rfl

theorem effect {m : Monitor} (hm : f.primary = some m) (hmode : f.mode = .nack)
    (hn : f.pending.lost.Nodup) (c : FeedbackCall) : f.Effect c := by
  cases c with
  | arrival now a => exact effect_arrival hm hmode hn now a
  | repair now a => exact effect_repair hm hmode hn now a
  | request now seq flow tie => exact effect_request hmode hn now seq flow tie
  | poll now => exact effect_poll hm hn now
  | takeLost => exact .emptied rfl rfl rfl rfl rfl
  | takeReceived => exact .of_same hn rfl ⟨rfl, rfl, rfl, rfl⟩
  | takeComparison count => exact .of_same hn rfl ⟨rfl, rfl, rfl, rfl⟩
  | shutDown => exact effect_shutDown hn
  | reset =>
    refine .restarted rfl rfl rfl rfl ?_
    show (f.primary.map _).map _ = (f.primary.map _).map _
    rw [Option.map_map, Option.map_map]
    rfl

end Feedback
end LossWatch
