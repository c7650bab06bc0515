import LossWatch.Proofs.Estimator.SinceReset
import LossWatch.Proofs.SinglePath.Completeness
import LossWatch.Proofs.SinglePath.Counting
import LossWatch.Proofs.SinglePath.Stall

/-!
The phase and the timer of the single-path estimator agree in every reachable state. Between calls a
running estimator is in one of three modes: nothing seen, still learning, or waiting for a packet. A
call leaves the timer alone, moves it with an accepted arrival, or is its expiry, and each of these
ends in one of the modes again. While all numbers lie in one window the timer waits for a number
ahead of the newest one.
-/

namespace LossWatch

theorem Exchange.RecordsOriginal.mem_handled {x : Exchange} {n : SeqNumber}
    (h : x.RecordsOriginal n) : n ∈ x.handled := by
  obtain ⟨before, c⟩ := x
  obtain ⟨r, horiginal, -⟩ := h
  cases c with
  | arrival now a =>
    simp only [original?, Option.ite_none_left_eq_some, Option.some.injEq, Prod.mk.injEq]
      at horiginal
    obtain ⟨-, rfl, -⟩ := horiginal
    exact List.mem_cons_self
  | repair a => simp [original?] at horiginal
  | timeout now key => simp [original?] at horiginal
  | withdrawn m => simp [original?] at horiginal

namespace SinglePath

variable {s s' t : SinglePath} {c : EstimatorCall} {xs : List Exchange} {now : Timestamp}
  {base seq : SeqNumber} {p : ExpectedPacket} {lost : List SeqNumber} {R : SeqNumber → Prop}

/-! ### What a call does to the timer -/

inductive Heeds (s : SinglePath) (c : EstimatorCall) : SinglePath → Prop
  | ignored {ledger : LossLedger} (silent : ∀ n, ¬ Exchange.RecordsOriginal ⟨.single s, c⟩ n) :
      Heeds s c { s with ledger }
  | accepted {s' : SinglePath} {ledger : LossLedger} {counters : SingleCounters}
      {now : Timestamp} {seq : SeqNumber} {lost : List SeqNumber} (running : s.stopped = false)
      (original : ∀ n, Exchange.RecordsOriginal ⟨.single s, c⟩ n ↔ n = seq)
      (resets : counters.resets = s.counters.resets)
      (accepted : Accepted { s with ledger, counters } now seq s' lost) : Heeds s c s'
  | expired {s' : SinglePath} {p : ExpectedPacket} {lost : List SeqNumber}
      (running : s.stopped = false) (silent : ∀ n, ¬ Exchange.RecordsOriginal ⟨.single s, c⟩ n)
      (armed : s.pending = some p) (expired : s.Expired p s' lost) : Heeds s c s'

theorem heeds_onArrival (s : SinglePath) (now : Timestamp) (a : Arrival) :
    s.Heeds (.arrival now a) (s.onArrival now a).state := by
  cases hrun : s.stopped with
  | true =>
    rw [onArrival, if_pos hrun]
    exact .ignored (by simp [Exchange.RecordsOriginal, Exchange.original?, Estimator.isStopped, hrun])
  | false =>
    have horiginal : ∀ n, Exchange.RecordsOriginal ⟨.single s, .arrival now a⟩ n ↔
        n = a.seq ∧ (s.ledger.receive now a.seq).1.isRecorded = true := by
      intro n
      have hrun' : ¬ (Estimator.single s).isStopped = true := by simp [Estimator.isStopped, hrun]
      simp only [Exchange.RecordsOriginal, Exchange.original?, if_neg hrun', Option.some.injEq,
        Prod.mk.injEq]
      constructor
      · rintro ⟨r, ⟨rfl, rfl⟩, hr⟩
        exact ⟨rfl, hr⟩
      · rintro ⟨rfl, hr⟩
        exact ⟨_, ⟨rfl, rfl⟩, hr⟩
    obtain ⟨lost, -, harrived⟩ := arrived_onArrival hrun now a
    generalize (s.onArrival now a).state = s' at harrived ⊢
    cases harrived with
    | ignored known => exact .ignored (by simp [horiginal, known])
    | recorded entered resets accepted =>
      exact .accepted hrun (by simp [horiginal, entered]) resets accepted

theorem heeds_onRepair (s : SinglePath) (a : Arrival) :
    s.Heeds (.repair a) (s.onRepair a).state := by
  have hsilent : ∀ n, ¬ Exchange.RecordsOriginal ⟨.single s, .repair a⟩ n := by
    simp [Exchange.RecordsOriginal, Exchange.original?]
  rw [onRepair]
  split
  · exact .ignored hsilent
  · exact .ignored hsilent

theorem heeds_onTimeout (s : SinglePath) (now : Timestamp) (key : TimerKey) :
    s.Heeds (.timeout now key) (s.onTimeout now key).state := by
  have hsilent : ∀ n, ¬ Exchange.RecordsOriginal ⟨.single s, .timeout now key⟩ n := by
    simp [Exchange.RecordsOriginal, Exchange.original?]
  rcases s.onTimeout_cases now key with hstay | ⟨p, lost, hrun, hp, -, hexpired⟩
  · rw [hstay]
    exact .ignored hsilent
  · exact .expired hrun hsilent hp hexpired

theorem heeds_call (hstep : ((Estimator.single s).call c).state = .single s') : s.Heeds c s' := by
  cases c with
  | arrival now a => cases hstep; exact s.heeds_onArrival now a
  | repair a => cases hstep; exact s.heeds_onRepair a
  | timeout now key => cases hstep; exact s.heeds_onTimeout now key
  | withdrawn n =>
    cases hstep
    exact .ignored (by simp [Exchange.RecordsOriginal, Exchange.original?])

theorem stopped_of_call (hstep : ((Estimator.single s).call c).state = .single s') :
    s'.stopped = s.stopped := by
  have hkept := (Exchange.kept ⟨.single s, c⟩).2.1
  rwa [show Exchange.step ⟨.single s, c⟩ = (Estimator.single s).call c from rfl, hstep] at hkept

/-! ### The modes between calls -/

inductive Settled (s : SinglePath) : Prop
  | idle (unseen : s.maxSeen = none) (unarmed : s.pending = none) (phase : s.phase = .idle)
  | predicting (seen : s.maxSeen.isSome = true) (unready : s.predictor.isReady = false)
      (unarmed : s.pending = none) (phase : s.phase = .predicting)
  | armed (seen : s.maxSeen.isSome = true) (ready : s.predictor.isReady = true)
      (armed : s.pending.isSome = true) (phase : s.phase = .armed)

namespace Settled

theorem of_same (h : s.Settled) (newest : s'.maxSeen = s.maxSeen)
    (predictor : s'.predictor = s.predictor) (pending : s'.pending = s.pending)
    (phase : s'.phase = s.phase) : s'.Settled := by
  cases h with
  | idle unseen unarmed idle => exact .idle (newest ▸ unseen) (pending ▸ unarmed) (phase ▸ idle)
  | predicting seen unready unarmed predicting =>
    exact .predicting (newest ▸ seen) (predictor ▸ unready) (pending ▸ unarmed) (phase ▸ predicting)
  | armed seen ready waiting armed =>
    exact .armed (newest ▸ seen) (predictor ▸ ready) (pending ▸ waiting) (phase ▸ armed)

theorem rearmed (h : s.Rearmed s') (seen : s.maxSeen.isSome = true) : s'.Settled := by
  cases h with
  | unseen newest => simp [newest] at seen
  | armed _ ready _ _ => exact .armed seen ready rfl rfl
  | unready _ unready => exact .predicting seen unready rfl rfl

theorem waiting (h : s.Settled) (ha : s.Advanced now seq s' lost) (hp : s'.pending = some p) :
    s'.Settled := by
  cases ha with
  | first newest =>
    cases h with
    | idle _ unarmed _ => simp [show s.pending = some p from hp] at unarmed
    | predicting seen _ _ _ => simp [newest] at seen
    | armed seen _ _ _ => simp [newest] at seen
  | behind _ _ => exact h
  | jumped _ _ _ _ => cases hp
  | filled newest _ _ _ _ =>
    cases h with
    | idle _ unarmed _ => simp [show s.pending = some p from hp] at unarmed
    | predicting _ _ unarmed _ => simp [show s.pending = some p from hp] at unarmed
    | armed _ ready armed phase => exact .armed rfl (Predictor.isReady_insert ready _) armed phase

end Settled

theorem Advanced.maxSeen (h : s.Advanced now seq s' lost) :
    s'.maxSeen = some (s.maxSeen.elim seq (·.newest seq)) := by
  cases h with
  | first newest => simp [newest]
  | behind newest old => simp [newest, SeqNumber.newest, old]
  | jumped newest newer _ _ => simp [newest, SeqNumber.newest, newer]
  | filled newest newer _ _ _ => simp [newest, SeqNumber.newest, newer]

theorem Accepted.maxSeen (h : s.Accepted now seq s' lost) :
    s'.maxSeen = some (s.maxSeen.elim seq (·.newest seq)) := by
  cases h with
  | waiting advanced _ _ => exact advanced.maxSeen
  | rearmed advanced timer => exact timer.maxSeen.trans advanced.maxSeen

namespace Settled

theorem accepted (h : s.Settled) (ha : s.Accepted now seq s' lost) : s'.Settled := by
  have hcleared : Settled { s with consecutiveLosses := 0 } := h.of_same rfl rfl rfl rfl
  cases ha with
  | waiting advanced pending _ => exact hcleared.waiting advanced pending
  | rearmed advanced timer => exact .rearmed timer (by simp [advanced.maxSeen])

theorem expired (h : s.Settled) (hp : s.pending = some p) (he : s.Expired p s' lost) :
    s'.Settled := by
  cases h with
  | idle _ unarmed _ => simp [hp] at unarmed
  | predicting _ _ unarmed _ => simp [hp] at unarmed
  | armed seen ready _ _ =>
    cases he with
    | received _ _ timer => exact .rearmed timer seen
    | moved _ _ _ _ _ => exact .armed seen ready rfl rfl
    | reset _ _ _ _ => exact .idle rfl rfl rfl

end Settled

/-- Running, the estimator is in one of the modes; stopped, it has no timer. -/
structure Agrees (s : SinglePath) : Prop where
  settled : s.stopped = false → s.Settled
  quiet : s.stopped = true → s.pending = none

theorem Agrees.call (h : s.Agrees) (hstep : ((Estimator.single s).call c).state = .single s') :
    s'.Agrees := by
  have hstopped := stopped_of_call hstep
  cases heeds_call hstep with
  | ignored _ => exact ⟨fun hrun => (h.settled hrun).of_same rfl rfl rfl rfl, h.quiet⟩
  | @accepted _ ledger counters _ _ _ running _ _ accepted =>
    refine ⟨fun _ => ?_, fun hstop => by simp [hstop, running] at hstopped⟩
    have hsettled : Settled { s with ledger, counters } := (h.settled running).of_same rfl rfl rfl rfl
    exact hsettled.accepted accepted
  | expired running _ armed expired =>
    refine ⟨fun _ => ?_, fun hstop => by simp [hstop, running] at hstopped⟩
    exact (h.settled running).expired armed expired

theorem reset_state (s : SinglePath) :
    s.reset.state.maxSeen = none ∧ s.reset.state.pending = none ∧
      s.reset.state.phase = .idle := by
  rw [reset, Step.state_alter, fullReset_state]
  exact ⟨rfl, rfl, rfl⟩

theorem agrees_reset (s : SinglePath) : s.reset.state.Agrees := by
  obtain ⟨hunseen, hunarmed, hphase⟩ := s.reset_state
  exact ⟨fun _ => .idle hunseen hunarmed hphase, fun _ => hunarmed⟩

theorem agrees_stop (s : SinglePath) : s.stop.state.Agrees := by
  rw [stop, Step.state_alter, disarm_state]
  exact ⟨fun hrun => by simp at hrun, fun _ => rfl⟩

theorem agrees_of_reachable {e : Estimator} (h : e.Reachable) (hs : e = .single s) :
    s.Agrees := by
  induction h generalizing s with
  | fresh fresh =>
    subst hs
    cases fresh
    exact ⟨fun _ => .idle rfl rfl rfl, fun hstop => by simp at hstop⟩
  | @call e _ c ih =>
    cases e with
    | single t => exact (ih rfl).call hs
    | cross _ => cases c <;> cases hs
  | @reset e _ _ =>
    cases e with
    | single t => cases hs; exact t.agrees_reset
    | cross _ => cases hs
  | @stop e _ _ =>
    cases e with
    | single t => cases hs; exact t.agrees_stop
    | cross _ => cases hs

/-! ### The history since the last reset -/

theorem Accepted.resets (h : s.Accepted now seq s' lost) :
    s'.counters.resets = s.counters.resets := by
  cases h with
  | waiting advanced _ _ => exact advanced.resets
  | rearmed advanced timer => exact timer.resets.trans advanced.resets

theorem Heeds.unseen_of_ne (h : s.Heeds c s') (hresets : s'.counters.resets ≠ s.counters.resets) :
    s'.maxSeen = none ∧ s'.pending = none := by
  cases h with
  | ignored _ => exact absurd rfl hresets
  | accepted _ _ resets accepted => exact absurd (accepted.resets.trans resets) hresets
  | expired _ _ _ expired =>
    cases expired with
    | received _ resets timer => exact absurd (timer.resets.trans resets) hresets
    | moved _ _ _ _ resets => exact absurd resets hresets
    | reset _ _ _ _ => exact ⟨rfl, rfl⟩

/-- What holds before anything was seen and is kept by every call without a reset, and by stopping,
holds of the history since the last reset. -/
theorem sinceReset_induction {P : List Exchange → SinglePath → Prop}
    (unseen : ∀ {s : SinglePath}, s.maxSeen = none → s.pending = none → P [] s)
    (call : ∀ {xs : List Exchange} {s s' : SinglePath} {c : EstimatorCall}, P xs s →
      s.Heeds c s' → s'.counters.resets = s.counters.resets → P (xs ++ [⟨.single s, c⟩]) s')
    (stop : ∀ {xs : List Exchange} {s : SinglePath}, P xs s → P xs s.stop.state)
    (h : Estimator.SinceReset xs (.single s)) : P xs s := by
  generalize he : Estimator.single s = e at h
  induction h generalizing s with
  | fresh fresh =>
    subst he
    cases fresh
    exact unseen rfl rfl
  | @call xs e _ c unreset ih =>
    cases e with
    | single t =>
      rw [← he] at unreset
      exact call (ih rfl) (heeds_call he.symm) unreset
    | cross _ => cases c <;> cases he
  | @broken xs e _ c resets _ =>
    cases e with
    | single t =>
      rw [← he] at resets
      obtain ⟨hunseen, hunarmed⟩ := (heeds_call he.symm).unseen_of_ne resets
      exact unseen hunseen hunarmed
    | cross _ => cases c <;> cases he
  | @reset xs e _ _ =>
    cases e with
    | single t =>
      cases he
      obtain ⟨hunseen, hunarmed, -⟩ := t.reset_state
      exact unseen hunseen hunarmed
    | cross _ => cases he
  | @stop xs e _ ih =>
    cases e with
    | single t => cases he; exact stop (ih rfl)
    | cross _ => cases he

/-! ### The newest number and the expected one -/

/-- The newest number is the newest of the originals `R`. -/
structure Tops (base : SeqNumber) (R : SeqNumber → Prop) (s : SinglePath) : Prop where
  recorded : ∀ last ∈ s.maxSeen, R last
  newest : ∀ n, R n → ∃ last ∈ s.maxSeen, n.ahead base ≤ last.ahead base

structure Leads (base : SeqNumber) (R : SeqNumber → Prop) (s : SinglePath) : Prop
    extends Tops base R s where
  expected : ∀ p ∈ s.pending, ∀ last ∈ s.maxSeen, last.ahead base < p.seq.ahead base

theorem Tops.rearmed (h : Tops base R s) (hin : ∀ n, R n → n.InWindow base)
    (hr : s.Rearmed s') : Leads base R s' := by
  cases hr with
  | unseen newest => exact ⟨h, fun _ _ last hlast => by simp [newest] at hlast⟩
  | @armed last p _ newest _ next _ =>
    refine ⟨⟨h.recorded, h.newest⟩, fun p' hp' last' hlast' => ?_⟩
    obtain rfl : last = last' := Option.some.inj (newest.symm.trans hlast')
    obtain rfl : p = p' := Option.some.inj hp'
    rw [next, SeqNumber.ahead_next_of_inWindow (hin last (h.recorded last newest))]
    exact Nat.lt_succ_self _
  | unready _ _ => exact ⟨⟨h.recorded, h.newest⟩, fun p hp => by simp at hp⟩

theorem mem_maxSeen_of_newest (hmoved : s'.maxSeen = some (s.maxSeen.elim seq (·.newest seq))) :
    ∀ last ∈ s'.maxSeen, last ∈ s.maxSeen ∨ last = seq := by
  intro last hlast
  rw [hmoved] at hlast
  obtain rfl := Option.some.inj hlast
  cases s.maxSeen with
  | none => exact Or.inr rfl
  | some m =>
    rw [Option.elim_some, SeqNumber.newest]
    split
    · exact Or.inr rfl
    · exact Or.inl rfl

theorem Tops.moved (h : Tops base R s) (hin : ∀ n, R n → n.InWindow base)
    (hseq : seq.InWindow base)
    (hmoved : s'.maxSeen = some (s.maxSeen.elim seq (·.newest seq))) :
    Tops base (fun n => R n ∨ n = seq) s' := by
  refine ⟨fun last hlast => ?_, fun n hn => ⟨_, hmoved, ?_⟩⟩
  · exact (mem_maxSeen_of_newest hmoved last hlast).imp_left (h.recorded last)
  · cases hlast : s.maxSeen with
    | none =>
      rcases hn with hn | rfl
      · obtain ⟨last, hmem, -⟩ := h.newest n hn
        simp [hlast] at hmem
      · exact Nat.le_refl _
    | some last =>
      obtain ⟨-, hold, hnew⟩ := SeqNumber.ahead_newest (hin last (h.recorded last hlast)) hseq
      rcases hn with hn | rfl
      · obtain ⟨m, hm, hle⟩ := h.newest n hn
        obtain rfl : last = m := Option.some.inj (hlast.symm.trans hm)
        exact Nat.le_trans hle hold
      · exact hnew

theorem Advanced.pending (h : s.Advanced now seq s' lost) : ∀ p ∈ s'.pending, p ∈ s.pending := by
  cases h with
  | first _ => exact fun _ hp => hp
  | behind _ _ => exact fun _ hp => hp
  | jumped _ _ _ _ => exact fun _ hp => absurd hp (by simp)
  | filled _ _ _ _ _ => exact fun _ hp => hp

namespace Leads

theorem accepted (h : Leads base R s) (hin : ∀ n, R n → n.InWindow base)
    (hseq : seq.InWindow base) (hexpected : ∀ p ∈ s.pending, p.seq.InWindow base)
    (ha : s.Accepted now seq s' lost) : Leads base (fun n => R n ∨ n = seq) s' := by
  have hcleared : Tops base R { s with consecutiveLosses := 0 } := ⟨h.recorded, h.newest⟩
  cases ha with
  | @waiting _ _ p advanced pending later =>
    refine ⟨hcleared.moved hin hseq advanced.maxSeen, fun p' hp' last hlast => ?_⟩
    obtain rfl : p = p' := Option.some.inj (pending.symm.trans hp')
    have hp : p ∈ s.pending := advanced.pending p pending
    rcases mem_maxSeen_of_newest advanced.maxSeen last hlast with hold | rfl
    · exact h.expected p hp last hold
    · have hlater := SeqNumber.newerOrEqual_iff hseq (hexpected p hp)
      rw [later] at hlater
      exact Nat.lt_of_not_le fun hle => by simp [hle] at hlater
  | rearmed advanced timer =>
    refine (hcleared.moved hin hseq advanced.maxSeen).rearmed (fun n hn => ?_) timer
    rcases hn with hn | rfl
    · exact hin n hn
    · exact hseq

theorem expired (h : Leads base R s) (hin : ∀ n, R n → n.InWindow base)
    (hp : s.pending = some p) (hpin : p.seq.InWindow base) (he : s.Expired p s' lost)
    (hresets : s'.counters.resets = s.counters.resets) : Leads base R s' := by
  cases he with
  | @received _ counters _ _ timer =>
    have hcleared : Tops base R { s with pending := none, phase := .resolved, counters } :=
      ⟨h.recorded, h.newest⟩
    exact hcleared.rearmed hin timer
  | @moved _ _ p' _ _ _ _ next _ =>
    refine ⟨⟨h.recorded, h.newest⟩, fun p₁ hp₁ last hlast => ?_⟩
    obtain rfl : p' = p₁ := Option.some.inj hp₁
    have hbefore := h.expected p hp last hlast
    rw [next, SeqNumber.ahead_next_of_inWindow hpin]
    omega
  | reset _ _ _ resets =>
    have : s.counters.resets + 1 = s.counters.resets := resets.symm.trans hresets
    omega

theorem congr (h : Leads base R s) {R' : SeqNumber → Prop} (hR : ∀ n, R n ↔ R' n) :
    Leads base R' s := by
  obtain rfl : R = R' := funext fun n => propext (hR n)
  exact h

theorem call (h : Leads base R s) (hin : ∀ n, R n → n.InWindow base) (hc : s.Heeds c s')
    (hwin : ∀ n ∈ Exchange.handled ⟨.single s, c⟩, n.InWindow base)
    (hresets : s'.counters.resets = s.counters.resets) :
    Leads base (fun n => R n ∨ Exchange.RecordsOriginal ⟨.single s, c⟩ n) s' := by
  have hawaited : ∀ p ∈ s.pending, p.seq.InWindow base := by
    intro p hp
    apply hwin
    have hmem : p.seq ∈ (Estimator.single s).awaited :=
      Option.mem_toList.mpr (Option.mem_map_of_mem _ hp)
    cases c with
    | arrival now a => exact List.mem_cons_of_mem _ hmem
    | repair a => exact List.mem_cons_of_mem _ hmem
    | timeout now key => exact hmem
    | withdrawn n => exact hmem
  cases hc with
  | @ignored ledger silent =>
    have hentered : Leads base R { s with ledger } := ⟨⟨h.recorded, h.newest⟩, h.expected⟩
    exact hentered.congr (by simp [silent])
  | @accepted _ ledger counters _ seq _ _ original _ accepted =>
    have hseq : seq.InWindow base := hwin seq ((original seq).mpr rfl).mem_handled
    have hentered : Leads base R { s with ledger, counters } :=
      ⟨⟨h.recorded, h.newest⟩, h.expected⟩
    exact (hentered.accepted hin hseq hawaited accepted).congr (by simp [original])
  | expired _ silent armed expired =>
    exact (h.expired hin armed (hawaited _ armed) expired hresets).congr (by simp [silent])

end Leads

theorem leads_of_sinceReset (h : Estimator.SinceReset xs (.single s))
    (hwin : ∀ x ∈ xs, ∀ n ∈ x.handled, n.InWindow base) :
    Leads base (fun n => ∃ x ∈ xs, x.RecordsOriginal n) s := by
  refine sinceReset_induction (P := fun xs s => (∀ x ∈ xs, ∀ n ∈ x.handled, n.InWindow base) →
    Leads base (fun n => ∃ x ∈ xs, x.RecordsOriginal n) s) ?_ ?_ ?_ h hwin
  · intro s hunseen hunarmed _
    exact ⟨⟨by simp [hunseen], by simp⟩, by simp [hunarmed]⟩
  · intro xs s s' c ih hc hresets hwin
    have hold : ∀ x ∈ xs, ∀ n ∈ x.handled, n.InWindow base := fun x hx =>
      hwin x (List.mem_append_left _ hx)
    have hin : ∀ n, (∃ x ∈ xs, x.RecordsOriginal n) → n.InWindow base := fun n ⟨x, hx, hn⟩ =>
      hold x hx n hn.mem_handled
    refine ((ih hold).call hin hc (hwin _ (by simp)) hresets).congr fun n => ?_
    simp [or_and_right, exists_or]
  · intro xs s ih hwin
    rw [stop, Step.state_alter, disarm_state]
    exact ⟨⟨(ih hwin).recorded, (ih hwin).newest⟩, by simp⟩

/-! ### Phase, timer and numbers -/

theorem unseen_iff (h : Estimator.SinceReset xs (.single s)) :
    s.maxSeen = none ↔ ∀ x ∈ xs, ∀ n, ¬ x.RecordsOriginal n := by
  refine sinceReset_induction
    (P := fun xs s => s.maxSeen = none ↔ ∀ x ∈ xs, ∀ n, ¬ x.RecordsOriginal n) ?_ ?_ ?_ h
  · intro s hunseen _
    simp [hunseen]
  · intro xs s s' c ih hc hresets
    have hkept : s'.maxSeen = s.maxSeen → (∀ n, ¬ Exchange.RecordsOriginal ⟨.single s, c⟩ n) →
        (s'.maxSeen = none ↔
          ∀ x ∈ xs ++ [⟨.single s, c⟩], ∀ n, ¬ x.RecordsOriginal n) := by
      intro hnewest silent
      rw [hnewest, ih]
      simp [or_imp, forall_and, silent]
    cases hc with
    | ignored silent => exact hkept rfl silent
    | accepted _ original _ accepted =>
      refine iff_of_false (by simp [accepted.maxSeen]) fun hnone => ?_
      exact hnone _ (by simp) _ ((original _).mpr rfl)
    | expired _ silent _ expired =>
      cases expired with
      | received _ _ timer => exact hkept timer.maxSeen silent
      | moved _ _ _ _ _ => exact hkept rfl silent
      | reset _ _ _ resets =>
        have : s.counters.resets + 1 = s.counters.resets := resets.symm.trans hresets
        omega
  · intro xs s ih
    rw [stop, Step.state_alter, disarm_state]
    exact ih

/-- In every reachable state: the timer runs exactly if a packet was seen and the predictor is ready,
and the phase says which of the three modes it is. The newest number is the newest original recorded
since the last reset, and the expected number is ahead of it. -/
theorem timer_agrees_with_phase (h : Estimator.SinceReset xs (.single s)) :
    (s.stopped = false →
      (s.pending.isSome = true ↔ s.maxSeen.isSome = true ∧ s.predictor.isReady = true) ∧
      (s.phase = .idle ↔ s.maxSeen = none) ∧
      (s.phase = .armed ↔ s.pending.isSome = true) ∧
      (s.phase = .predicting ↔ s.maxSeen.isSome = true ∧ s.pending = none) ∧
      s.phase ≠ .resolved) ∧
    (s.maxSeen = none ↔ ∀ x ∈ xs, ∀ n, ¬ x.RecordsOriginal n) ∧
    (∀ base : SeqNumber, (∀ x ∈ xs, ∀ n ∈ x.handled, n.InWindow base) →
      ∀ last ∈ s.maxSeen, (∃ x ∈ xs, x.RecordsOriginal last) ∧
        (∀ x ∈ xs, ∀ n, x.RecordsOriginal n → last.newerOrEqual n = true) ∧
        ∀ E ∈ s.expected, last.ahead base < E.ahead base ∧
          (E.InWindow base → E.newer last = true)) ∧
    (s.stopped = true → s.pending = none) := by
  obtain ⟨hsettled, hquiet⟩ := agrees_of_reachable h.reachable rfl
  refine ⟨fun hrun => ?_, unseen_iff h, fun base hwin last hlast => ?_, hquiet⟩
  · cases hsettled hrun with
    | idle unseen unarmed phase => simp [unseen, unarmed, phase]
    | predicting seen unready unarmed phase =>
      simp [Option.isSome_iff_ne_none.mp seen, seen, unready, unarmed, phase]
    | armed seen ready armed phase =>
      simp [Option.isSome_iff_ne_none.mp seen, Option.isSome_iff_ne_none.mp armed, seen, ready,
        armed, phase]
  · have hleads := leads_of_sinceReset h hwin
    obtain ⟨x, hx, hrecorded⟩ := hleads.recorded last hlast
    have hin : last.InWindow base := hwin x hx last hrecorded.mem_handled
    refine ⟨⟨x, hx, hrecorded⟩, fun y hy n hn => ?_, fun E hE => ?_⟩
    · obtain ⟨last', hlast', hle⟩ := hleads.newest n ⟨y, hy, hn⟩
      obtain rfl : last = last' := Option.some.inj (hlast.symm.trans hlast')
      exact (SeqNumber.newerOrEqual_iff hin (hwin y hy n hn.mem_handled)).mpr hle
    · obtain ⟨p, hp, rfl⟩ := Option.map_eq_some_iff.mp hE
      have hahead := hleads.expected p hp last hlast
      exact ⟨hahead, fun hEin => (SeqNumber.newer_iff hEin hin).mpr hahead⟩

/-- A gap, a repair and an expiry: the timer runs ahead of the newest number. -/
theorem timer_agrees_with_phase_of_stall :
    let e : Estimator := .single
      { config := {}, predictor := .movingAverage ⟨⟨1, []⟩, ⟨1, []⟩, 1, 1.0, none, 0.0, 0⟩ }
    let calls : List EstimatorCall :=
      [.arrival .zero ⟨.ofNat 1, none⟩, .arrival (.ofMillis 40) ⟨.ofNat 4, none⟩,
        .repair ⟨.ofNat 2, none⟩, .timeout (.ofMillis 100) .basic]
    ∃ s : SinglePath, Estimator.SinceReset (e.exchanges calls) (.single s) ∧ s.stopped = false ∧
      s.maxSeen = some (.ofNat 4) ∧ s.expected = some (.ofNat 6) ∧ s.phase = .armed ∧
      (∃ x ∈ e.exchanges calls, x.RecordsOriginal (.ofNat 4)) ∧
      (SeqNumber.ofNat 6).newer (.ofNat 4) = true := by
  intro e calls
  obtain ⟨s, hs⟩ : ∃ s, e.after calls = .single s := ⟨_, rfl⟩
  have history : Estimator.SinceReset (e.exchanges calls) (.single s) :=
    hs ▸ .of_fresh (.single _ _) (by decide +kernel)
  have window : ∀ x ∈ e.exchanges calls, ∀ n ∈ x.handled, n.InWindow (.ofNat 1) := by
    decide +kernel
  have reached : (e.after calls).newest? = some (.ofNat 4) ∧
      (e.after calls).awaited = [.ofNat 6] ∧ (e.after calls).isStopped = false := by
    decide +kernel
  rw [hs] at reached
  obtain ⟨newest, awaited, running⟩ := reached
  have expected : s.expected = some (.ofNat 6) := by
    simpa [Estimator.awaited, Option.toList_eq_singleton_iff] using awaited
  obtain ⟨agree, -, numbers, -⟩ := timer_agrees_with_phase history
  obtain ⟨-, -, armed, -, -⟩ := agree running
  obtain ⟨recorded, -, newer⟩ := numbers (.ofNat 1) window _ newest
  refine ⟨s, history, running, newest, expected, armed.mpr ?_, recorded,
    (newer _ expected).2 (by decide)⟩
  obtain ⟨p, hp, -⟩ := Option.map_eq_some_iff.mp expected
  simp [hp]

end SinglePath
end LossWatch
