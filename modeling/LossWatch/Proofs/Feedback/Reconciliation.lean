import LossWatch.Proofs.Feedback.Building
import LossWatch.Proofs.Feedback.Listing

/-!
A late packet takes its loss report back. The list of losses lives in the feedback, what was declared
lost in the bounded ledger of the primary estimator, and only the events join the two. So an arrival
clears its number from the list if the ledger still has it as lost when the packet is handled. The
ledger has, unless a number with the same slot, a repair or a reset came between report and packet;
then the late packet looks like a new one, a stale one or a duplicate, and its report goes out.
-/

namespace LossWatch.Feedback

/-- Loss reports over an estimator that has not been told anything yet. -/
inductive Fresh : Feedback → Prop
  | nack {e : Estimator} (he : e.Fresh) (comparison : Option Monitor) (rtxLateAfter : Duration) :
      Fresh { mode := .nack, primary := some { estimator := e }, comparison, rtxLateAfter }

theorem fresh_of_ofEstimators {caps : Capabilities} {primary comparison : Option Estimator}
    {r : FeedbackReply Unit} (hmode : caps.mode = .nack)
    (hprimary : ∀ e, primary = some e → e.Fresh)
    (h : ofEstimators caps primary comparison = .ok r) : r.feedback.Fresh := by
  obtain ⟨first, second, hr, hfirst⟩ := eq_of_ofEstimators h
  obtain ⟨e, rfl, he⟩ := hfirst hmode
  rw [hr, hmode]
  exact .nack (he.elim (hprimary e) Estimator.fresh_of_build) _ _

theorem fresh_of_ofCapabilities {caps : Capabilities} {r : FeedbackReply Unit}
    (hmode : caps.mode = .nack) (h : ofCapabilities caps = .ok r) : r.feedback.Fresh := by
  obtain ⟨first, second, hr, hfirst⟩ := ofEstimators_of_ofCapabilities h
  exact fresh_of_ofEstimators hmode (fun e he => Estimator.fresh_of_build (hfirst e he)) hr

/-! ### The primary estimator behind the list -/

structure Sound (f : Feedback) : Prop where
  mode : f.mode = .nack
  nodup : f.pending.lost.Nodup
  estimator : ∃ e, f.estimator? = some e ∧ (f.isShutDown = false → e.isStopped = false) ∧
    e.ledger.history = LossLedger.initial.history

variable {f : Feedback} {c : FeedbackCall} {calls : List FeedbackCall} {s : SeqNumber}

theorem Fresh.sound (h : f.Fresh) : f.Sound := by
  obtain ⟨he, comparison, rtxLateAfter⟩ := h
  refine ⟨rfl, List.nodup_nil, _, rfl, fun _ => ?_, ?_⟩
  · cases he <;> rfl
  · cases he <;> rfl

theorem Sound.monitor (hf : f.Sound) : ∃ m, f.primary = some m := by
  obtain ⟨e, he, -⟩ := hf.estimator
  obtain ⟨m, hm, -⟩ := Option.map_eq_some_iff.mp he
  exact ⟨m, hm⟩

theorem Sound.effect (hf : f.Sound) (c : FeedbackCall) : f.Effect c := by
  obtain ⟨m, hm⟩ := hf.monitor
  exact Feedback.effect hm hf.mode hf.nodup c

theorem Sound.call (hf : f.Sound) (c : FeedbackCall) : (f.call c).Sound := by
  obtain ⟨e, he, hlistens, hhistory⟩ := hf.estimator
  cases hf.effect c with
  | ran cs _ _ hfollows =>
    obtain ⟨-, hstopped, hkept⟩ := e.kept_after cs
    have hestimator := hfollows.estimator
    rw [he] at hestimator
    refine ⟨hfollows.mode.trans hf.mode, hfollows.nodup, _, hestimator, ?_, hkept.trans hhistory⟩
    rw [hfollows.isShutDown, hstopped]
    exact hlistens
  | emptied _ hmode hdown hlost hestimator =>
    exact ⟨hmode.trans hf.mode, hlost ▸ List.nodup_nil, e, hestimator.trans he, hdown ▸ hlistens,
      hhistory⟩
  | stopped _ hmode hdown hlost hestimator =>
    rw [he] at hestimator
    refine ⟨hmode.trans hf.mode, hlost ▸ hf.nodup, _, hestimator, ?_, ?_⟩
    · simp [hdown]
    · rw [← Estimator.ledger_lossRecord, e.lossRecord_stop, Estimator.ledger_lossRecord]
      exact hhistory
  | restarted _ hmode hdown hlost hestimator =>
    rw [he] at hestimator
    refine ⟨hmode.trans hf.mode, hlost ▸ List.nodup_nil, _, hestimator, fun _ => ?_, ?_⟩
    · rw [← Estimator.stopped_lossRecord, e.lossRecord_reset]
    · rw [← Estimator.ledger_lossRecord, e.lossRecord_reset]
      exact (LossLedger.history_clearHistory _).trans hhistory

theorem Sound.after (hf : f.Sound) (calls : List FeedbackCall) : (f.after calls).Sound := by
  induction calls generalizing f with
  | nil => exact hf
  | cons c calls ih => exact ih (hf.call c)

theorem after_append (f : Feedback) (cs ds : List FeedbackCall) :
    f.after (cs ++ ds) = (f.after cs).after ds := List.foldl_append

theorem resets_eq {e : Estimator} (he : f.estimator? = some e) :
    f.resets = e.diagnostics.resets := by
  obtain ⟨m, hm, rfl⟩ := Option.map_eq_some_iff.mp he
  simp only [resets, diagnostics, hm, Option.map_some, Option.getD_some]

theorem Sound.resets_le_call (hf : f.Sound) (c : FeedbackCall) :
    f.resets ≤ (f.call c).resets := by
  obtain ⟨e, he, -⟩ := hf.estimator
  rw [resets_eq he]
  cases hf.effect c with
  | ran cs _ _ hfollows =>
    have hestimator := hfollows.estimator
    rw [he] at hestimator
    rw [resets_eq hestimator]
    exact (e.kept_after cs).1
  | emptied _ _ _ _ hestimator =>
    exact Nat.le_of_eq (resets_eq (hestimator.trans he)).symm
  | stopped _ _ _ _ hestimator =>
    rw [he] at hestimator
    have hsame : e.stop.state.diagnostics.resets = e.diagnostics.resets := by
      rw [← Estimator.resets_lossRecord, e.lossRecord_stop, ← e.resets_lossRecord]
    exact Nat.le_of_eq ((resets_eq hestimator).trans hsame).symm
  | restarted _ _ _ _ hestimator =>
    rw [he] at hestimator
    rw [resets_eq hestimator, ← e.reset.state.resets_lossRecord, e.lossRecord_reset]
    exact Nat.le_succ _

theorem Sound.resets_le_after (hf : f.Sound) (calls : List FeedbackCall) :
    f.resets ≤ (f.after calls).resets := by
  induction calls generalizing f with
  | nil => exact Nat.le_refl _
  | cons c calls ih => exact Nat.le_trans (hf.resets_le_call c) (ih (hf.call c))

/-! ### From the report to the packet -/

/-- If `s` is listed, the primary estimator remembers its loss. -/
def Recalls (f : Feedback) (s : SeqNumber) : Prop :=
  ∀ e, f.estimator? = some e → e.ledger.Recalls s (f.lists s)

/-- Over these calls nothing takes the slot of `s` or resets the estimator. -/
structure Undisturbed (f : Feedback) (s : SeqNumber) (calls : List FeedbackCall) : Prop where
  packets : ∀ c ∈ calls, c.Spares s
  reports : ∀ ev ∈ f.hears calls, ev.seq = s ∨ ¬ ev.seq.SharesSlot s
  resets : (f.after calls).resets = f.resets

theorem hears_append (f : Feedback) (cs ds : List FeedbackCall) :
    f.hears (cs ++ ds) = f.hears cs ++ (f.after cs).hears ds := by
  induction cs generalizing f with
  | nil => rfl
  | cons c cs ih =>
    show f.heard c ++ (f.call c).hears (cs ++ ds) = f.heard c ++ (f.call c).hears cs ++ _
    rw [ih, List.append_assoc]
    rfl

theorem Undisturbed.append {cs ds : List FeedbackCall} (hf : f.Sound)
    (h : f.Undisturbed s (cs ++ ds)) :
    f.Undisturbed s cs ∧ (f.after cs).Undisturbed s ds := by
  have hle := hf.resets_le_after cs
  have hle' := (hf.after cs).resets_le_after ds
  have hafter : ((f.after cs).after ds).resets = f.resets := by
    rw [← after_append]
    exact h.resets
  have hreports := h.reports
  rw [hears_append] at hreports
  constructor
  · exact ⟨fun c hc => h.packets c (List.mem_append_left _ hc),
      fun ev hev => hreports ev (List.mem_append_left _ hev), by omega⟩
  · exact ⟨fun c hc => h.packets c (List.mem_append_right _ hc),
      fun ev hev => hreports ev (List.mem_append_right _ hev), by omega⟩

/-- One call; a report of `s` makes up for whatever was listed before. -/
theorem Sound.recalls_call (hf : f.Sound) (hquiet : f.Undisturbed s [c])
    (h : f.Recalls s ∨ ∃ ev ∈ f.heard c, ev.seq = s) : (f.call c).Recalls s := by
  obtain ⟨e, he, -, hhistory⟩ := hf.estimator
  have hunlisted : (f.call c).pending.lost = [] → (f.call c).Recalls s := by
    intro hlost e' _ hlisted
    rw [lists_of_eq_nil hlost] at hlisted
    exact absurd hlisted Bool.false_ne_true
  cases hf.effect c with
  | ran cs hspares hheard hfollows =>
    have hestimator : (f.call c).estimator? = some (e.after cs) := by
      rw [hfollows.estimator, he]
      rfl
    have hevents := hheard e he
    have hcs := hspares s (hquiet.packets c (by simp))
    have hreports : ∀ ev ∈ e.events cs, ev.seq = s ∨ ¬ ev.seq.SharesSlot s := fun ev hev =>
      hquiet.reports ev (by simpa [hears, hevents] using hev)
    have hresets : (e.after cs).diagnostics.resets = e.diagnostics.resets := by
      rw [← resets_eq he, ← resets_eq hestimator]
      exact hquiet.resets
    have hrun : ∀ {listed : Bool}, e.ledger.Recalls s listed →
        (e.after cs).ledger.Recalls s (listedAfter s listed (e.events cs)) :=
      Estimator.recalls_after hhistory hcs hreports hresets
    intro e' he'
    rw [hestimator, Option.some.injEq] at he'
    rw [← he', hfollows.lists, hevents]
    -- Once `s` was reported in the call, what was listed before no longer matters.
    rcases h with h | ⟨ev, hev, hseq⟩
    · exact hrun (h e he)
    · rw [hevents] at hev
      rw [listedAfter_of_mem hev hseq false]
      exact hrun fun hno => absurd hno (by simp)
  | emptied _ _ _ hlost _ => exact hunlisted hlost
  | stopped hheard _ _ hlost hestimator =>
    have hbefore : f.Recalls s := by
      rcases h with h | ⟨ev, hev, -⟩
      · exact h
      · simp [hheard] at hev
    intro e' he'
    rw [hestimator, he] at he'
    have hledger : e'.ledger = e.ledger := by
      rw [← Option.some.inj he', ← Estimator.ledger_lossRecord, e.lossRecord_stop,
        ← e.ledger_lossRecord]
    rw [hledger, lists_congr (congrArg _ hlost)]
    exact hbefore e he
  | restarted _ _ _ hlost _ => exact hunlisted hlost

theorem Sound.recalls_after (hf : f.Sound) (hquiet : f.Undisturbed s calls)
    (h : f.Recalls s) : (f.after calls).Recalls s := by
  induction calls generalizing f with
  | nil => exact h
  | cons c calls ih =>
    have hsplit : f.Undisturbed s ([c] ++ calls) := hquiet
    obtain ⟨hfirst, hrest⟩ := hsplit.append hf
    exact ih (hf.call c) hrest (hf.recalls_call hfirst (Or.inl h))

/-! ### The packet and after -/

/-- When an arrival is handled, after the timers due before it, `s` still counts as lost. -/
def remembersLoss (f : Feedback) (now : Timestamp) (s : SeqNumber) : Bool :=
  f.primary.any fun m =>
    (Turn.fireBefore now { monitor := m }).monitor.estimator.ledger.isAssumedLost s

def ReportsLoss (f : Feedback) (c : FeedbackCall) (s : SeqNumber) : Prop :=
  ∃ position, LossEvent.lost s position ∈ f.heard c

theorem running_of_accepted {now : Timestamp} {a : Arrival} {r : FeedbackReply (List LossEvent)}
    (h : f.onArrival now a = .ok r) : f.isShutDown = false := by
  cases hdown : f.isShutDown with
  | false => rfl
  | true =>
    rw [onArrival_of_shutDown hdown] at h
    exact absurd h (by simp)

theorem Sound.follows_onArrival (hf : f.Sound) {now : Timestamp} {a : Arrival}
    {r : FeedbackReply (List LossEvent)} (accepted : f.onArrival now a = .ok r) :
    ∃ m cs ds, f.primary = some m ∧
      (Turn.fireBefore now { monitor := m }).monitor.estimator = m.estimator.after cs ∧
      (∀ s, ∀ d ∈ cs, d.Spares s) ∧
      r.value = m.estimator.events cs ++
        Exchange.events ⟨m.estimator.after cs, .arrival now a⟩ ∧
      f.Follows (cs ++ ds) r.value r.feedback := by
  obtain ⟨m, hm⟩ := hf.monitor
  have hreply := onArrival_of_running hf.mode (running_of_accepted accepted) now a
  rw [hreply, Except.ok.injEq] at accepted
  obtain ⟨es, hfired, hmakes⟩ := m.makes_onArrival now a
  let counted := f.count fun s => { s with packets := s.packets + 1 }
  obtain ⟨hvalue, seqs, hfollows⟩ := follows_runBoth (f := counted) hm hf.nodup
    (·.onArrival now a) hmakes
  rw [accepted] at hvalue hfollows
  refine ⟨m, es.map Expiry.call, [.arrival now a] ++ seqs.map .withdrawn, hm, hfired.estimator,
    fun _ => spares_expiries, ?_, ?_⟩
  · rw [hvalue, Estimator.events_append]
    exact congrArg _ (List.append_nil _)
  · rw [List.append_assoc] at hfollows
    exact (Follows.of_same (f.sameLosses_count _) hf.nodup).trans hfollows

theorem Sound.not_lists_onArrival (hf : f.Sound) {now : Timestamp} {a : Arrival}
    {r : FeedbackReply (List LossEvent)} (accepted : f.onArrival now a = .ok r)
    (h : f.remembersLoss now a.seq = true ∨
      f.Recalls a.seq ∧ f.Undisturbed a.seq [.arrival now a]) : r.feedback.lists a.seq = false := by
  obtain ⟨m, cs, ds, hm, hfired, hspares, hvalue, hfollows⟩ := hf.follows_onArrival accepted
  obtain ⟨e, he, hlistens, hhistory⟩ := hf.estimator
  have hsame : m.estimator = e := Option.some.inj ((estimator?_of_primary hm).symm.trans he)
  rw [hsame] at hfired hvalue
  have hstopped : (e.after cs).isStopped = false :=
    (e.kept_after cs).2.1.trans (hlistens (running_of_accepted accepted))
  have hrecalls : (e.after cs).ledger.Recalls a.seq
      (listedAfter a.seq (f.lists a.seq) (e.events cs)) := by
    rcases h with hremembers | ⟨hrecalls, hquiet⟩
    · intro _
      unfold remembersLoss at hremembers
      rwa [hm, Option.any_some, hfired] at hremembers
    · have hheard : f.hears [.arrival now a] = r.value := by
        simp only [hears, heard, accepted, List.append_nil]
      have hafter : (f.after [.arrival now a]).resets =
          (e.after (cs ++ ds)).diagnostics.resets := by
        apply resets_eq
        show (f.call (.arrival now a)).estimator? = _
        simp only [Feedback.call, accepted]
        rw [hfollows.estimator, he]
        rfl
      have hquietResets := hquiet.resets
      rw [hafter, resets_eq he] at hquietResets
      have hunreset := (Estimator.unreset_append cs ds hquietResets).1
      refine Estimator.recalls_after hhistory (hspares a.seq) (fun ev hev => ?_) hunreset
        (hrecalls e he)
      apply hquiet.reports ev
      rw [hheard, hvalue]
      exact List.mem_append_left _ hev
  rw [hfollows.lists, hvalue, listedAfter_append]
  exact Exchange.not_listedAfter_arrival hstopped hrecalls

theorem Sound.not_lists_after (hf : f.Sound) (hs : f.lists s = false)
    (hunreported : ∀ position, LossEvent.lost s position ∉ f.hears calls) :
    (f.after calls).lists s = false := by
  induction calls generalizing f with
  | nil => exact hs
  | cons c calls ih =>
    have hfirst : ∀ position, LossEvent.lost s position ∉ f.heard c := fun position hmem =>
      hunreported position (List.mem_append_left _ hmem)
    refine ih (hf.call c) ?_ fun position hmem =>
      hunreported position (List.mem_append_right _ hmem)
    cases hf.effect c with
    | ran cs _ _ hfollows =>
      rw [hfollows.lists, hs]
      apply listedAfter_of_unreported
      intro ev hev hlost hseq
      cases ev with
      | lost n position => exact hfirst position (hseq ▸ hev)
      | falsePositive n position => simp [LossEvent.isLost] at hlost
    | emptied _ _ _ hlost _ => exact lists_of_eq_nil hlost s
    | stopped _ _ _ hlost _ => exact (lists_congr (congrArg _ hlost) s).trans hs
    | restarted _ _ _ hlost _ => exact lists_of_eq_nil hlost s

/-- From a fresh start on, the accepted arrival of a number keeps it out of the next list of losses,
and of every later one, until its loss is reported again. For this the primary estimator must have the
number as lost when it handles the packet. It has, if its loss was reported before and the calls from
then on left its slot and the estimator alone. -/
theorem late_arrival_withdraws_report {start : Feedback} (hstart : start.Fresh)
    {calls later : List FeedbackCall} {now : Timestamp} {a : Arrival}
    {r : FeedbackReply (List LossEvent)}
    (accepted : (start.after calls).onArrival now a = .ok r)
    (kept : (start.after calls).remembersLoss now a.seq = true ∨
      ∃ before c between, calls = before ++ c :: between ∧
        (start.after before).ReportsLoss c a.seq ∧
        (start.after before).Undisturbed a.seq (c :: between ++ [.arrival now a]))
    (unreported : ∀ position, LossEvent.lost a.seq position ∉ r.feedback.hears later) :
    a.seq ∉ (r.feedback.after later).takeLost.1 := by
  have hsound := hstart.sound.after calls
  have hreply : (start.after calls).call (.arrival now a) = r.feedback := by
    simp only [call, accepted]
  have hcleared : r.feedback.lists a.seq = false := by
    refine hsound.not_lists_onArrival accepted (kept.imp_right ?_)
    rintro ⟨before, c, between, rfl, ⟨position, hreported⟩, hquiet⟩
    have hbefore := hstart.sound.after before
    obtain ⟨hrun, hlast⟩ := hquiet.append hbefore
    have hsplit : (start.after before).Undisturbed a.seq ([c] ++ between) := hrun
    obtain ⟨hfirst, hrest⟩ := hsplit.append hbefore
    have hrecalls := hbefore.recalls_call hfirst (Or.inr ⟨_, hreported, rfl⟩)
    rw [after_append]
    exact ⟨(hbefore.call c).recalls_after hrest hrecalls, hlast⟩
  have hlater := (hreply ▸ hsound.call (.arrival now a)).not_lists_after hcleared unreported
  exact of_decide_eq_false hlater

theorem late_arrival_withdraws_report_of_reordering :
    let e : Estimator := .single
      { config := {}
        predictor := .movingAverage ⟨⟨1, []⟩, ⟨1, []⟩, 5, 1.0, none, 0.0, 0⟩ }
    let start : Feedback :=
      { mode := .nack, primary := some { estimator := e }, comparison := none
        rtxLateAfter := .ofMillis 500 }
    let calls : List FeedbackCall :=
      [.arrival (.ofMillis 1) ⟨.ofNat 1, none⟩, .arrival (.ofMillis 41) ⟨.ofNat 3, none⟩]
    start.Fresh ∧ (start.after calls).takeLost.1 = [.ofNat 2] ∧
      ∃ r, (start.after calls).onArrival (.ofMillis 50) ⟨.ofNat 2, none⟩ = .ok r ∧
        .ofNat 2 ∉ r.feedback.takeLost.1 := by
  intro e start calls
  have hstart : start.Fresh := .nack (.single _ _) _ _
  have hrunning : (start.after calls).isShutDown = false := by decide +kernel
  have accepted := onArrival_of_running (hstart.sound.after calls).mode hrunning (.ofMillis 50)
    ⟨.ofNat 2, none⟩
  have reported : (start.after (calls.take 1)).ReportsLoss (calls.getD 1 .takeLost) (.ofNat 2) :=
    ⟨none, by decide +kernel⟩
  have undisturbed : (start.after (calls.take 1)).Undisturbed (.ofNat 2)
      (calls.drop 1 ++ [.arrival (.ofMillis 50) ⟨.ofNat 2, none⟩]) :=
    ⟨by decide +kernel, by decide +kernel, by decide +kernel⟩
  refine ⟨hstart, by decide +kernel, _, accepted, ?_⟩
  show _ ∉ (Feedback.after _ []).takeLost.1
  exact late_arrival_withdraws_report hstart accepted
    (.inr ⟨_, _, _, rfl, reported, undisturbed⟩) fun _ => List.not_mem_nil

/-- Packet 1026 takes the slot of the second packet, which then arrives like a stale one. -/
theorem displaced_loss_stays_listed :
    let e : Estimator := .single
      { config := {}
        predictor := .movingAverage ⟨⟨1, []⟩, ⟨1, []⟩, 5, 1.0, none, 0.0, 0⟩ }
    let start : Feedback :=
      { mode := .nack, primary := some { estimator := e }, comparison := none
        rtxLateAfter := .ofMillis 500 }
    let calls : List FeedbackCall :=
      [.arrival (.ofMillis 1) ⟨.ofNat 1, none⟩, .arrival (.ofMillis 41) ⟨.ofNat 3, none⟩,
        .arrival (.ofMillis 81) ⟨.ofNat 1026, none⟩]
    start.Fresh ∧ start.hears calls = [.lost (.ofNat 2) none] ∧
      (start.after calls).takeLost.1 = [.ofNat 2] ∧
      ∃ r, (start.after calls).onArrival (.ofMillis 91) ⟨.ofNat 2, none⟩ = .ok r ∧ r.value = [] ∧
        r.feedback.takeLost.1 = [.ofNat 2] := by
  intro e start calls
  have hstart : start.Fresh := .nack (.single _ _) _ _
  have hrunning : (start.after calls).isShutDown = false := by decide +kernel
  have accepted := onArrival_of_running (hstart.sound.after calls).mode hrunning (.ofMillis 91)
    ⟨.ofNat 2, none⟩
  exact ⟨hstart, by decide +kernel, by decide +kernel, _, accepted, by decide +kernel,
    by decide +kernel⟩

end LossWatch.Feedback
