import LossWatch.Proofs.CrossPath.Phases
import LossWatch.Proofs.Estimator.SinceReset
import LossWatch.Proofs.Flow.Recording

/-!
What the cross-path estimator keeps of its history. A call either enters an accepted arrival into the
table of flows, or leaves what has arrived alone, or starts over. So the table and the newest number
are those of the arrivals accepted since the last reset, in order, and the ledger shows the marks of
every number.
-/

namespace LossWatch

/-- Where an arrival belongs: a stream with one path is taken for flow 0 with its own numbers. -/
def Arrival.place (a : Arrival) : FlowPosition := a.position.getD ⟨0, a.seq⟩

namespace Exchange

/-- What the call adds to the table of flows: an arrival that the ledger accepts. -/
def accepted? (x : Exchange) : Option FlowEntry :=
  match x.call with
  | .arrival now a =>
    if x.before.isStopped then none
    else if (x.before.ledger.receive now a.seq).1.isRecorded
      then some ⟨a.place.flow, a.seq, a.place.flowSeq, now⟩ else none
  | _ => none

theorem recordsOriginal_iff {x : Exchange} {n : SeqNumber} :
    x.RecordsOriginal n ↔ ∃ e, x.accepted? = some e ∧ e.record.seq = n := by
  obtain ⟨before, c⟩ := x
  simp only [RecordsOriginal, original?, accepted?]
  cases c with
  | arrival now a =>
    dsimp only
    split
    · simp
    · cases hr : (before.ledger.receive now a.seq).1.isRecorded <;> grind
  | repair a => simp
  | timeout now key => simp
  | withdrawn m => simp

theorem accepted?_arrival {before : Estimator} {now : Timestamp} {a : Arrival} {e : FlowEntry} :
    accepted? ⟨before, .arrival now a⟩ = some e ↔ before.isStopped = false ∧
      (before.ledger.receive now a.seq).1.isRecorded = true ∧
      e = ⟨a.place.flow, a.seq, a.place.flowSeq, now⟩ := by
  simp only [accepted?, Option.ite_none_left_eq_some, Option.ite_none_right_eq_some,
    Option.some.injEq, Bool.not_eq_true, eq_comm (b := e)]

theorem arrival_of_accepted? {x : Exchange} {e : FlowEntry} (h : x.accepted? = some e) :
    ∃ now a, x.call = .arrival now a ∧ e = ⟨a.place.flow, a.seq, a.place.flowSeq, now⟩ ∧
      x.recorded = (x.before.ledger.receive now a.seq).2 := by
  obtain ⟨before, c⟩ := x
  cases c with
  | arrival now a =>
    obtain ⟨hrunning, -, he⟩ := accepted?_arrival.mp h
    exact ⟨now, a, rfl, he, if_neg (Bool.not_eq_true _ ▸ hrunning)⟩
  | repair a => simp [accepted?] at h
  | timeout now key => simp [accepted?] at h
  | withdrawn n => simp [accepted?] at h

theorem running_of_accepted? {x : Exchange} {e : FlowEntry} (h : x.accepted? = some e) :
    x.before.isStopped = false := by
  obtain ⟨now, a, hcall, -⟩ := arrival_of_accepted? h
  obtain ⟨before, c⟩ := x
  obtain rfl : c = .arrival now a := hcall
  exact (accepted?_arrival.mp h).1

theorem mem_handled_of_accepted? {x : Exchange} {e : FlowEntry} (h : x.accepted? = some e) :
    e.record.seq ∈ x.handled := by
  obtain ⟨now, a, hcall, rfl, -⟩ := arrival_of_accepted? h
  simp [handled, hcall]

end Exchange

def entries (xs : List Exchange) : List FlowEntry := xs.filterMap Exchange.accepted?

theorem entries_append (xs : List Exchange) (x : Exchange) :
    entries (xs ++ [x]) = entries xs ++ x.accepted?.toList := by
  simp only [entries, List.filterMap_append]
  cases h : x.accepted? <;> simp [h]

theorem mem_entries_iff {xs : List Exchange} {n : SeqNumber} :
    (∃ x ∈ xs, x.RecordsOriginal n) ↔ ∃ e ∈ entries xs, e.record.seq = n := by
  simp only [Exchange.recordsOriginal_iff, entries, List.mem_filterMap]
  grind

namespace CrossPath

variable {s s' t : CrossPath} {c : EstimatorCall} {e : FlowEntry}

/-! ### What one call does -/

theorem coheres_ledger (s : CrossPath) (ledger : LossLedger) : s.Coheres { s with ledger } :=
  ⟨rfl, rfl, rfl, fun h => ⟨h.awaited, h.order, h.anchored⟩⟩

structure Heard (s : CrossPath) (e : FlowEntry) (s' : CrossPath) : Prop where
  flows : s'.flows = s.flows.enter e
  maxSeen : s'.maxSeen = some (s.maxSeen.elim e.record.seq (·.newest e.record.seq))
  resets : s'.counters.resets = s.counters.resets
  consistent : s.Consistent → s'.Consistent

theorem heard_accept (s : CrossPath) (now : Timestamp) (seq : SeqNumber)
    (position : FlowPosition) :
    s.Heard ⟨position.flow, seq, position.flowSeq, now⟩ (s.accept now seq position).state := by
  rw [accept]
  generalize hmoved : ({ s with consecutiveLosses := 0, maxSeen := _ } : CrossPath) = moved
  have hsettled := moved.coheres_settleLong seq
  have hfollowed := coheres_follow (moved.settleLong seq).state now seq position
  have hnewest : moved.maxSeen = some (s.maxSeen.elim seq (·.newest seq)) := by
    rw [← hmoved]
    exact SeqNumber.match_newest s.maxSeen seq
  constructor
  · exact hfollowed.flows.trans (by rw [hsettled.flows, ← hmoved]; rfl)
  · exact hfollowed.maxSeen.trans (hsettled.maxSeen.trans hnewest)
  · exact hfollowed.resets.trans (hsettled.resets.trans (by rw [← hmoved]))
  · intro h
    have hs := hsettled.consistent (by rw [← hmoved]; exact ⟨h.awaited, h.order, h.anchored⟩)
    exact hfollowed.consistent ⟨hs.awaited, hs.order, hs.anchored⟩

/-- What a call leaves of what has arrived. -/
inductive Told (s : CrossPath) (c : EstimatorCall) : CrossPath → Prop
  | heard {e : FlowEntry} {s' : CrossPath} (entry : Exchange.accepted? ⟨.cross s, c⟩ = some e)
      (heard : s.Heard e s') : Told s c s'
  | silent {s' : CrossPath} (entry : Exchange.accepted? ⟨.cross s, c⟩ = none)
      (coheres : s.Coheres s') : Told s c s'
  | restarted {t s' : CrossPath} (resets : t.counters.resets = s.counters.resets)
      (restarted : t.StartedOver s') : Told s c s'

theorem heard_onArrival {now : Timestamp} {a : Arrival}
    (he : Exchange.accepted? ⟨.cross s, .arrival now a⟩ = some e) :
    s.Heard e (s.onArrival now a).state := by
  simp only [Exchange.accepted?, Option.ite_none_left_eq_some, Option.ite_none_right_eq_some,
    Option.some.injEq] at he
  obtain ⟨hstopped, hrecorded, rfl⟩ := he
  have hrun : ¬ s.stopped = true := hstopped
  have hr : (s.ledger.receive now a.seq).1.isRecorded = true := hrecorded
  have haccepted : ∀ counters : CrossCounters, counters.resets = s.counters.resets →
      s.Heard ⟨a.place.flow, a.seq, a.place.flowSeq, now⟩
        (accept { s with ledger := (s.ledger.receive now a.seq).2, counters } now a.seq
          a.place).state := by
    intro counters hcounters
    obtain ⟨hflows, hmaxSeen, hresets, hconsistent⟩ := heard_accept
      { s with ledger := (s.ledger.receive now a.seq).2, counters } now a.seq a.place
    exact ⟨hflows, hmaxSeen, hresets.trans hcounters,
      fun h => hconsistent ⟨h.awaited, h.order, h.anchored⟩⟩
  rw [onArrival, if_neg hrun]
  dsimp only
  cases hreception : (s.ledger.receive now a.seq).1 with
  | duplicate => simp [hreception, Reception.isRecorded] at hr
  | stale => simp [hreception, Reception.isRecorded] at hr
  | fresh => exact haccepted _ rfl
  | recovered => exact haccepted _ rfl
  | falsePositive d => exact haccepted _ rfl

theorem onArrival_of_unaccepted {now : Timestamp} {a : Arrival}
    (he : Exchange.accepted? ⟨.cross s, .arrival now a⟩ = none) :
    ∃ ledger : LossLedger, s.onArrival now a = .stay { s with ledger } := by
  rw [onArrival]
  split
  · exact ⟨s.ledger, rfl⟩
  · rename_i hrun
    simp only [Exchange.accepted?, Estimator.isStopped, Estimator.ledger, hrun] at he
    dsimp only
    cases hr : (s.ledger.receive now a.seq).1 with
    | duplicate => exact ⟨_, rfl⟩
    | stale => exact ⟨_, rfl⟩
    | fresh => simp [hr, Reception.isRecorded] at he
    | recovered => simp [hr, Reception.isRecorded] at he
    | falsePositive d => simp [hr, Reception.isRecorded] at he

theorem told_onArrival (s : CrossPath) (now : Timestamp) (a : Arrival) :
    s.Told (.arrival now a) (s.onArrival now a).state := by
  cases he : Exchange.accepted? ⟨.cross s, .arrival now a⟩ with
  | some e => exact .heard he (heard_onArrival he)
  | none =>
    obtain ⟨ledger, hstay⟩ := onArrival_of_unaccepted he
    rw [hstay]
    exact .silent he (s.coheres_ledger ledger)

theorem coheres_onRepair (s : CrossPath) (a : Arrival) : s.Coheres (s.onRepair a).state := by
  simp only [onRepair]
  split
  · exact .refl s
  · exact (s.coheres_ledger _).trans (coheres_settleLong _ a.seq)

theorem told_onTimeout (s : CrossPath) (now : Timestamp) (key : TimerKey) :
    s.Told (.timeout now key) (s.onTimeout now key).state := by
  simp only [onTimeout]
  split
  · exact .silent rfl (.refl s)
  · cases key with
    | basic => exact .silent rfl (.refl s)
    | short => exact .silent rfl (s.coheres_onShortTimeout now)
    | long n =>
      have hexpired := s.longExpired_onLongTimeout now n
      dsimp only
      generalize (s.onLongTimeout now n).state = s' at hexpired
      cases hexpired with
      | unarmed => exact .silent rfl (.refl s)
      | late _ _ resets =>
        exact .silent rfl ⟨rfl, rfl, resets, fun h => ⟨h.awaited, h.order, h.anchored⟩⟩
      | declared _ _ resets =>
        exact .silent rfl ⟨rfl, rfl, resets, fun h => ⟨h.awaited, h.order, h.anchored⟩⟩
      | reset _ resets restarted => exact .restarted resets restarted

theorem told_call (hstep : ((Estimator.cross s).call c).state = .cross s') : s.Told c s' := by
  cases c with
  | arrival now a => cases hstep; exact s.told_onArrival now a
  | repair a => cases hstep; exact .silent rfl (s.coheres_onRepair a)
  | timeout now key => cases hstep; exact s.told_onTimeout now key
  | withdrawn n => cases hstep; exact .silent rfl (s.coheres_ledger _)

theorem Told.unreset (h : s.Told c s') (hresets : s'.counters.resets = s.counters.resets) :
    (∃ e, Exchange.accepted? ⟨.cross s, c⟩ = some e ∧ s.Heard e s') ∨
      (Exchange.accepted? ⟨.cross s, c⟩ = none ∧ s.Coheres s') := by
  cases h with
  | heard entry heard => exact Or.inl ⟨_, entry, heard⟩
  | silent entry coheres => exact Or.inr ⟨entry, coheres⟩
  | restarted before restarted =>
    have := restarted.resets
    omega

theorem Told.restarted_of_ne (h : s.Told c s')
    (hresets : s'.counters.resets ≠ s.counters.resets) :
    ∃ t : CrossPath, t.counters.resets = s.counters.resets ∧ t.StartedOver s' := by
  cases h with
  | heard _ heard => exact absurd heard.resets hresets
  | silent _ coheres => exact absurd coheres.resets hresets
  | restarted before restarted => exact ⟨_, before, restarted⟩

/-! ### From one reset to the next -/

structure Blank (c : CrossPath) : Prop where
  flows : c.flows.flows = []
  ledger : ∀ n, c.ledger.occupant n = none
  phase : c.phase = .learnFlowOrder
  order : c.order = []
  awaited : c.awaited = none
  maxSeen : c.maxSeen = none
  short : c.short = none
  long : c.long = []

theorem blank_fullReset (s : CrossPath) : s.fullReset.state.Blank := by
  rw [fullReset_state]
  exact ⟨rfl, s.ledger.occupant_clearHistory, rfl, rfl, rfl, rfl, rfl, rfl⟩

theorem blank_reset (s : CrossPath) : s.reset.state.Blank := by
  obtain ⟨hflows, hledger, hphase, horder, hawaited, hmaxSeen, hshort, hlong⟩ := s.blank_fullReset
  exact ⟨hflows, hledger, hphase, horder, hawaited, hmaxSeen, hshort, hlong⟩

variable {xs : List Exchange} {base n : SeqNumber}

theorem sound_of_sinceReset (h : Estimator.SinceReset xs (.cross s)) : s.Sound :=
  sound_of_reachable h.reachable rfl

theorem sinceReset_call (h : Estimator.SinceReset xs (.cross s))
    (hstep : ((Estimator.cross s).call c).state = .cross s')
    (hresets : s'.counters.resets = s.counters.resets) :
    Estimator.SinceReset (xs ++ [⟨.cross s, c⟩]) (.cross s') :=
  hstep ▸ h.call c (by rw [hstep]; exact hresets)

/-- What holds of a blank estimator and is kept by every call without a reset, and by stopping, holds
of the history since the last reset. -/
theorem sinceReset_induction {P : List Exchange → CrossPath → Prop}
    (blank : ∀ {s : CrossPath}, Estimator.SinceReset [] (.cross s) → s.Blank → P [] s)
    (call : ∀ {xs : List Exchange} {s s' : CrossPath} {c : EstimatorCall},
      Estimator.SinceReset xs (.cross s) → P xs s →
      ((Estimator.cross s).call c).state = .cross s' → s'.counters.resets = s.counters.resets →
      P (xs ++ [⟨.cross s, c⟩]) s')
    (stop : ∀ {xs : List Exchange} {s : CrossPath},
      Estimator.SinceReset xs (.cross s) → P xs s → P xs s.stop.state)
    (h : Estimator.SinceReset xs (.cross s)) : P xs s := by
  generalize he : Estimator.cross s = e at h
  induction h generalizing s with
  | fresh fresh =>
    subst he
    refine blank (.fresh fresh) ?_
    cases fresh
    exact ⟨rfl, LossLedger.occupant_ofHistory 1024, rfl, rfl, rfl, rfl, rfl, rfl⟩
  | @call xs e h c unreset ih =>
    cases e with
    | single _ => cases c <;> cases he
    | cross t =>
      rw [← he] at unreset
      exact call h (ih rfl) he.symm unreset
  | @broken xs e h c resets ih =>
    cases e with
    | single _ => cases c <;> cases he
    | cross t =>
      have hblank := h.broken c resets
      rw [← he] at resets hblank
      obtain ⟨u, -, hrestarted⟩ := (told_call he.symm).restarted_of_ne resets
      refine blank hblank ?_
      rw [hrestarted.full]
      exact u.blank_fullReset
  | @reset xs e h ih =>
    cases e with
    | single _ => cases he
    | cross t =>
      cases he
      exact blank h.reset t.blank_reset
  | @stop xs e h ih =>
    cases e with
    | single _ => cases he
    | cross t =>
      cases he
      exact stop h (ih rfl)

theorem after_state (s : CrossPath) (calls : List EstimatorCall) :
    ∃ s', (Estimator.cross s).after calls = .cross s' := by
  induction calls generalizing s with
  | nil => exact ⟨s, rfl⟩
  | cons c calls ih =>
    obtain ⟨s₁, hstate⟩ := s.call_state c
    obtain ⟨s', hs'⟩ := ih s₁
    refine ⟨s', ?_⟩
    rw [← hs', ← hstate]
    rfl

/-! ### What is kept of the history -/

structure Remembers (s : CrossPath) (es : List FlowEntry) : Prop where
  flows : s.flows = FlowTable.enterAll { window := s.flows.window } es
  maxSeen : s.maxSeen = es.foldl (fun m e => some (m.elim e.record.seq (·.newest e.record.seq))) none

theorem remembers_entries (h : Estimator.SinceReset xs (.cross s)) :
    s.Remembers (entries xs) := by
  refine sinceReset_induction (P := fun xs s => s.Remembers (entries xs)) ?_ ?_ ?_ h
  · intro s _ hblank
    refine ⟨?_, hblank.maxSeen⟩
    show s.flows = { window := s.flows.window }
    rw [← hblank.flows]
  · intro xs s s' c _ ih hstep hresets
    rw [entries_append]
    rcases (told_call hstep).unreset hresets with ⟨e, hentry, hheard⟩ | ⟨hentry, hcoheres⟩
    · rw [hentry, Option.toList_some]
      constructor
      · rw [FlowTable.enterAll_append, hheard.flows, FlowTable.window_enter, ← ih.flows]
      · rw [List.foldl_append, ← ih.maxSeen, hheard.maxSeen]
        rfl
    · rw [hentry, Option.toList_none, List.append_nil]
      exact ⟨hcoheres.flows ▸ ih.flows, hcoheres.maxSeen ▸ ih.maxSeen⟩
  · intro xs s _ ih
    rw [stop, Step.state_alter, cancelTimers_state]
    exact ⟨ih.flows, ih.maxSeen⟩

theorem follows_entries (h : Estimator.SinceReset xs (.cross s))
    (hwin : ∀ e ∈ entries xs, e.record.seq.InWindow base)
    (hstep : FlowTable.InStep (entries xs)) : s.flows.Follows base (entries xs) := by
  have hempty : FlowTable.Follows base { window := s.flows.window } [] :=
    ⟨fun _ e he => absurd he List.not_mem_nil, fun hf => by simp [FlowTable.get?] at hf⟩
  rw [(remembers_entries h).flows]
  exact hempty.enterAll hwin hstep

theorem noted_of_occupant (h : Estimator.SinceReset xs (.cross s)) {en : LedgerEntry}
    (ho : s.ledger.occupant n = some en) : ∃ x ∈ xs, x.Notes en.seq := by
  refine sinceReset_induction (P := fun xs s => ∀ {n en}, s.ledger.occupant n = some en →
    ∃ x ∈ xs, x.Notes en.seq) ?_ ?_ ?_ h ho
  · intro s _ hblank n en ho
    simp [hblank.ledger] at ho
  · intro xs s s' c hs ih hstep hresets n en ho
    have hledger : (Exchange.step ⟨.cross s, c⟩).state = .cross s' := hstep
    rcases Exchange.occupant_of_step (x := ⟨.cross s, c⟩) (sound_of_sinceReset hs).placed
      (by rw [hledger]; exact hresets)
      (by rw [hledger]; exact ho) with hnotes | ho
    · exact ⟨_, by simp, hnotes⟩
    · obtain ⟨x, hx, hnotes⟩ := ih ho
      exact ⟨x, List.mem_append_left _ hx, hnotes⟩
  · intro xs s _ ih n en ho
    rw [stop, Step.state_alter, cancelTimers_state] at ho
    exact ih ho

/-- The ledger fits what the history notes of a number. -/
structure Accounts (base : SeqNumber) (xs : List Exchange) (s : CrossPath) : Prop where
  windowed : s.ledger.Windowed base
  within : s.lossRecord.Within (.window base)
  shows : ∀ {n : SeqNumber}, n.InWindow base → s.ledger.Shows n (xs.flatMap (·.marks n))

theorem accounts (h : Estimator.SinceReset xs (.cross s))
    (hwin : ∀ x ∈ xs, ∀ n ∈ x.handled, n.InWindow base) : s.Accounts base xs := by
  refine sinceReset_induction (P := fun xs s => (∀ x ∈ xs, ∀ n ∈ x.handled, n.InWindow base) →
    s.Accounts base xs) ?_ ?_ ?_ h hwin
  · intro s hs hblank _
    constructor
    · exact ⟨(sound_of_sinceReset hs).placed.size_pos, fun ho => by simp [hblank.ledger] at ho⟩
    · intro n hn
      simp [lossRecord, FlowTable.newest, hblank.flows] at hn
    · intro n _
      exact LossLedger.status_of_occupant ((hblank.ledger n).trans
        (LossLedger.occupant_ofHistory 1024 n).symm) |>.trans (LossLedger.shows_ofHistory 1024 n)
  · intro xs s s' c _ ih hstep hresets hwin
    have hbefore := ih fun x hx => hwin x (List.mem_append_left _ hx)
    have hcall := hwin ⟨.cross s, c⟩ (by simp)
    have hledger : (Exchange.step ⟨.cross s, c⟩).state = .cross s' := hstep
    have hafter : ∀ {n : SeqNumber}, n.InWindow base → s'.ledger.Windowed base ∧
        s'.ledger.Shows n ((xs ++ [(⟨.cross s, c⟩ : Exchange)]).flatMap (·.marks n)) := by
      intro n hn
      have hshows := Exchange.shows_after (x := ⟨.cross s, c⟩) hcall hbefore.within
        hbefore.windowed (hbefore.shows hn) hn (by rw [hledger]; exact hresets)
      rw [hledger] at hshows
      rw [List.flatMap_append, List.flatMap_singleton]
      exact hshows
    refine ⟨(hafter (n := base) ?_).1, ?_, fun hn => (hafter hn).2⟩
    · rw [SeqNumber.InWindow, SeqNumber.ahead_self]
      omega
    · have hwithin := Exchange.within_after (x := ⟨.cross s, c⟩) (Exchange.fits_window hcall)
        hbefore.within
      rwa [hledger] at hwithin
  · intro xs s _ ih hwin
    obtain ⟨hw, hwithin, hshows⟩ := ih hwin
    rw [stop, Step.state_alter, cancelTimers_state]
    exact ⟨hw, hwithin, hshows⟩

end CrossPath
end LossWatch
