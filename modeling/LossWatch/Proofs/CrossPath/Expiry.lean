import LossWatch.Proofs.CrossPath.PhaseData

/-!
The expiry of a long timer is the last word on its number. A number with a long timer is unknown to
the ledger, so its expiry declares it lost, unless a newer number has taken its slot in the bounded
history meanwhile: then the ledger has given the number up, and the expiry says nothing.
-/

namespace LossWatch.CrossPath

variable {s : CrossPath} {n : SeqNumber} {xs : List Exchange}

theorem emitted_breakStall (s : CrossPath) : emitted s.breakStall.actions = [] := by
  rw [breakStall]
  split
  · exact s.emitted_cancelTimers
  · rfl

theorem emitted_declareLongLoss (s : CrossPath) (hknown : s.ledger.status n = none)
    (now : Timestamp) :
    emitted (s.declareLongLoss now n).actions =
      if s.ledger.overtaken n then [] else [.lost n none] := by
  cases hover : s.ledger.overtaken n with
  | true =>
    have hkept : s.ledger.assumeLost? now n = none :=
      LossLedger.assumeLost?_eq_none_iff.mpr (LossLedger.settled_iff.mpr (Or.inr hover))
    rw [declareLongLoss, hkept]
    rfl
  | false =>
    have hopen : ¬ s.ledger.Settled n := by
      simp [LossLedger.settled_iff, LossLedger.isResolved, hknown, hover]
    obtain ⟨ledger, hl⟩ := Option.ne_none_iff_exists'.mp
      (mt LossLedger.assumeLost?_eq_none_iff.mp hopen : s.ledger.assumeLost? now n ≠ none)
    rw [declareLongLoss, hl]
    rfl

theorem emitted_onTimeout_long (h : s.Sound) (hrunning : s.stopped = false)
    (hlong : s.hasLong n = true) (now : Timestamp) :
    emitted (s.onTimeout now (.long n)).actions =
      if s.ledger.overtaken n then [] else [.lost n none] := by
  have hknown := h.waiting n hlong
  have hunreceived : s.ledger.wasReceived n = false := by
    simp only [LossLedger.wasReceived, hknown]
  have hrun : ¬ s.stopped = true := by simp [hrunning]
  have hdue : ¬ (!s.hasLong n) = true := by simp [hlong]
  rw [onTimeout, if_neg hrun]
  show emitted (s.onLongTimeout now n).actions = _
  rw [onLongTimeout, if_neg hdue]
  dsimp only
  rw [if_neg (by simp [count, hunreceived]), Step.actions_andThen, emitted_append,
    emitted_breakStall, List.append_nil]
  refine emitted_declareLongLoss _ ?_ now
  exact hknown

theorem running_of_hasLong (h : Estimator.SinceReset xs (.cross s)) (hlong : s.hasLong n = true) :
    s.stopped = false := by
  cases hstopped : s.stopped with
  | false => rfl
  | true =>
    rw [hasLong, ((timed_of_sinceReset h).quiet hstopped).2] at hlong
    exact absurd hlong (by simp [LongTimers.has])

/-- In every reachable state the expiry of an outstanding long timer declares its number lost, without
a position, and reports nothing else, as long as no newer number with the same slot of the history has
been received, repaired or declared lost since the last reset. If one has, the expiry reports nothing
exactly while such a number holds the slot. -/
theorem long_expiry_declares (h : Estimator.SinceReset xs (.cross s)) (n : SeqNumber)
    (hlong : s.hasLong n = true) (now : Timestamp) :
    ((∀ x ∈ xs, ∀ m, x.Notes m → m.SharesSlot n → m.newer n = false) →
      emitted (s.onTimeout now (.long n)).actions = [.lost n none]) ∧
    emitted (s.onTimeout now (.long n)).actions =
      if s.ledger.overtaken n then [] else [.lost n none] := by
  have hsound := sound_of_sinceReset h
  have hemitted := emitted_onTimeout_long hsound (running_of_hasLong h hlong) hlong now
  refine ⟨fun huntaken => ?_, hemitted⟩
  have hfree : s.ledger.overtaken n = false := by
    refine Bool.eq_false_iff.mpr fun hover => ?_
    obtain ⟨en, ho, hnewer⟩ := LossLedger.overtaken_eq_true_iff.mp hover
    obtain ⟨x, hx, hnotes⟩ := noted_of_occupant h ho
    have hshared : en.seq.SharesSlot n :=
      (LossLedger.sharesSlot_iff (hsound.placed.history.trans LossLedger.history_initial.symm)).mpr
        (hsound.placed.own ho)
    simp [huntaken x hx en.seq hnotes hshared] at hnewer
  rw [hemitted, hfree]
  rfl

theorem long_expiry_declares_of_skipped :
    ∃ s : CrossPath, Estimator.SinceReset ((Estimator.cross quick).exchanges skipping) (.cross s) ∧
      s.hasLong (.ofNat 8) = true ∧
      (∀ x ∈ (Estimator.cross quick).exchanges skipping, ∀ m, x.Notes m →
        m.SharesSlot (.ofNat 8) → m.newer (.ofNat 8) = false) ∧
      emitted (s.onTimeout (.ofMillis 260) (.long (.ofNat 8))).actions = [.lost (.ofNat 8) none] := by
  obtain ⟨s, hs⟩ := quick.after_state skipping
  have history : Estimator.SinceReset ((Estimator.cross quick).exchanges skipping) (.cross s) :=
    hs ▸ .of_fresh fresh_quick (by decide +kernel)
  have waiting : ((Estimator.cross quick).after skipping).asCross?.map (·.hasLong (.ofNat 8)) =
      some true := by
    decide +kernel
  rw [hs] at waiting
  have noted : ∀ x ∈ (Estimator.cross quick).exchanges skipping, ∀ m ∈ x.noted,
      m.SharesSlot (.ofNat 8) → m.newer (.ofNat 8) = false := by
    decide +kernel
  have untaken : ∀ x ∈ (Estimator.cross quick).exchanges skipping, ∀ m, x.Notes m →
      m.SharesSlot (.ofNat 8) → m.newer (.ofNat 8) = false :=
    fun x hx m hm => noted x hx m hm.mem_noted
  exact ⟨s, history, Option.some.inj waiting, untaken,
    (long_expiry_declares history (.ofNat 8) (Option.some.inj waiting) (.ofMillis 260)).1 untaken⟩

/-- Number 1032 arrives while the long timer of 8 is out and takes its slot. Nothing was received,
repaired or declared of 8, but its expiry reports nothing. -/
theorem long_expiry_silent_after_takeover :
    let calls := skipping ++ [.arrival (.ofMillis 181) (.onFlow (.ofNat 1032) 1 (.ofNat 4))]
    ∃ s : CrossPath, Estimator.SinceReset ((Estimator.cross quick).exchanges calls) (.cross s) ∧
      s.hasLong (.ofNat 8) = true ∧
      (∀ x ∈ (Estimator.cross quick).exchanges calls, ¬ x.Notes (.ofNat 8)) ∧
      emitted (s.onTimeout (.ofMillis 260) (.long (.ofNat 8))).actions = [] := by
  intro calls
  obtain ⟨s, hs⟩ := quick.after_state calls
  have history : Estimator.SinceReset ((Estimator.cross quick).exchanges calls) (.cross s) :=
    hs ▸ .of_fresh fresh_quick (by decide +kernel)
  have silent : ((Estimator.cross quick).after calls).asCross?.map (fun s =>
      (s.hasLong (.ofNat 8), emitted (s.onTimeout (.ofMillis 260) (.long (.ofNat 8))).actions)) =
        some (true, []) := by
    decide +kernel
  rw [hs] at silent
  simp only [Estimator.asCross?, Option.map_some, Option.some.injEq, Prod.mk.injEq] at silent
  have unnoted : ∀ x ∈ (Estimator.cross quick).exchanges calls, SeqNumber.ofNat 8 ∉ x.noted := by
    decide +kernel
  exact ⟨s, history, silent.1, fun x hx hnotes => unnoted x hx hnotes.mem_noted, silent.2⟩

end LossWatch.CrossPath
