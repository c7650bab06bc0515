import LossWatch.Proofs.TimerQueue.Slots

/-!
A timer queue as a map from keys to deadlines. Each operation changes `deadline?` at the keys it is
about and nowhere else, and keeps keys, slots and free list in agreement. This needs no bound on the
number of operations: a popped timer is some live timer even if generations have come round.
-/

namespace LossWatch.TimerQueue

variable {κ : Type} {q q' : TimerQueue κ} {h h' : TimerHandle} {key k : κ} {d : Timestamp}

theorem Indexed.mem_keys_iff (hq : q.Indexed) :
    key ∈ q.keys ↔ ∃ d h, q.liveEntry h = some (key, d) := by
  simp only [keys, List.mem_map, Prod.exists, exists_and_right, exists_eq_right]
  constructor
  · rintro ⟨h, hm⟩
    obtain ⟨d, hd⟩ := hq.held hm
    exact ⟨d, h, hd⟩
  · rintro ⟨d, h, hd⟩
    exact ⟨h, hq.keyed hd⟩

theorem Indexed.live_unique (hq : q.Indexed) {d d' : Timestamp}
    (hl : q.liveEntry h = some (key, d)) (hl' : q.liveEntry h' = some (key, d')) : h = h' :=
  hq.handle_unique (hq.keyed hl) (hq.keyed hl')

theorem Indexed.with_agenda (hq : q.Indexed) (l : List Alarm) : { q with agenda := l }.Indexed :=
  ⟨hq.keys_nodup, hq.held, hq.keyed, hq.free_nodup, hq.mem_free⟩

theorem release_with_keys (q : TimerQueue κ) (l : List (κ × TimerHandle)) (h : TimerHandle) :
    { q with byKey := l }.release h = { q.release h with byKey := l } := by
  simp only [release]
  cases q.slots[h.index]? with
  | none => rfl
  | some slot => dsimp only; split <;> rfl

/-! ### The first due alarm -/

theorem firstDue_some {now : Timestamp} {l rest : List Alarm} {a : Alarm}
    (he : q.firstDue now l = (some (key, a), rest)) :
    (∃ passed, l = passed ++ a :: rest ∧ ∀ b ∈ passed, q.liveEntry b.handle = none) ∧
      a.deadline ≤ now ∧ ∃ d, q.liveEntry a.handle = some (key, d) := by
  induction l with
  | nil => simp [firstDue] at he
  | cons b l ih =>
    unfold firstDue at he
    by_cases hd : now < b.deadline
    · simp [hd] at he
    · rw [if_neg hd] at he
      cases hl : q.liveEntry b.handle with
      | some e =>
        simp only [hl, Prod.mk.injEq, Option.some.injEq] at he
        obtain ⟨⟨hk, rfl⟩, rfl⟩ := he
        exact ⟨⟨[], rfl, by simp⟩, Nat.le_of_not_lt hd, e.2, by rw [hl, ← hk]⟩
      | none =>
        rw [hl] at he
        obtain ⟨⟨passed, rfl, hp⟩, hrest⟩ := ih he
        refine ⟨⟨b :: passed, rfl, ?_⟩, hrest⟩
        intro c hc
        rcases List.mem_cons.mp hc with rfl | hc
        · exact hl
        · exact hp c hc

theorem firstDue_none {now : Timestamp} {l rest : List Alarm}
    (he : q.firstDue now l = (none, rest)) :
    ∃ passed, l = passed ++ rest ∧ (∀ b ∈ passed, q.liveEntry b.handle = none) ∧
      ∀ b ∈ rest.head?, now < b.deadline := by
  induction l with
  | nil => exact ⟨[], by simp_all [firstDue], by simp, by simp_all [firstDue]⟩
  | cons b l ih =>
    unfold firstDue at he
    by_cases hd : now < b.deadline
    · simp only [hd, if_true, Prod.mk.injEq, true_and] at he
      subst he
      exact ⟨[], rfl, by simp, by simpa using hd⟩
    · rw [if_neg hd] at he
      cases hl : q.liveEntry b.handle with
      | some e => simp [hl] at he
      | none =>
        rw [hl] at he
        obtain ⟨passed, rfl, hp, hrest⟩ := ih he
        refine ⟨b :: passed, rfl, ?_, hrest⟩
        intro c hc
        rcases List.mem_cons.mp hc with rfl | hc
        · exact hl
        · exact hp c hc

variable [DecidableEq κ]

/-! ### The view -/

theorem Indexed.handle?_eq_some_iff (hq : q.Indexed) :
    q.handle? key = some h ↔ (key, h) ∈ q.byKey := by
  unfold handle?
  constructor
  · intro he
    obtain ⟨p, hp, rfl⟩ := Option.map_eq_some_iff.mp he
    have hk : p.1 = key := by simpa using List.find?_some hp
    rw [← hk]
    exact List.mem_of_find?_eq_some hp
  · intro hm
    cases hf : q.byKey.find? (·.1 = key) with
    | none => simpa using List.find?_eq_none.mp hf _ hm
    | some p =>
      have hk : p.1 = key := by simpa using List.find?_some hf
      have hp : (key, p.2) ∈ q.byKey := hk ▸ List.mem_of_find?_eq_some hf
      rw [Option.map_some, hq.handle_unique hp hm]

theorem Indexed.deadline?_eq_some_iff (hq : q.Indexed) :
    q.deadline? key = some d ↔ ∃ h, q.liveEntry h = some (key, d) := by
  simp only [deadline?, Option.bind_eq_some_iff, deadlineOf, Option.map_eq_some_iff,
    hq.handle?_eq_some_iff]
  constructor
  · rintro ⟨h, hm, ⟨k, d'⟩, hl, rfl⟩
    obtain ⟨d'', hl'⟩ := hq.held hm
    exact ⟨h, by simp_all⟩
  · rintro ⟨h, hl⟩
    exact ⟨h, hq.keyed hl, _, hl, rfl⟩

theorem Indexed.mem_keys_iff_deadline? (hq : q.Indexed) :
    key ∈ q.keys ↔ (q.deadline? key).isSome := by
  simp only [hq.mem_keys_iff, Option.isSome_iff_exists, hq.deadline?_eq_some_iff]

theorem Indexed.isArmed_eq (hq : q.Indexed) (key : κ) :
    q.isArmed key = (q.deadline? key).isSome := by
  rw [Bool.eq_iff_iff, ← hq.mem_keys_iff_deadline?, isArmed, Option.isSome_iff_exists]
  simp only [hq.handle?_eq_some_iff, keys, List.mem_map, Prod.exists, exists_and_right,
    exists_eq_right]

theorem Indexed.deadline?_release_forget (hq : q.Indexed) (hl : q.liveEntry h = some (key, d))
    (k : κ) :
    ((q.forget key).release h).deadline? k = if k = key then none else q.deadline? k := by
  have hr := hq.release_forget hl
  have hl' : (q.forget key).liveEntry h = some (key, d) := hl
  apply Option.ext
  intro d'
  rw [hr.deadline?_eq_some_iff]
  simp only [liveEntry_release hl']
  by_cases hk : k = key
  · subst hk
    simp only [if_true, reduceCtorEq, iff_false, not_exists]
    intro h' he
    by_cases hh : h' = h
    · simp [hh] at he
    · rw [if_neg hh] at he
      exact hh (hq.live_unique (q := q) he hl)
  · rw [if_neg hk, hq.deadline?_eq_some_iff]
    constructor
    · rintro ⟨h', he⟩
      by_cases hh : h' = h
      · simp [hh] at he
      · exact ⟨h', by rwa [if_neg hh] at he⟩
    · rintro ⟨h', he⟩
      have hh : h' ≠ h := by rintro rfl; simp_all
      exact ⟨h', by rw [if_neg hh]; exact he⟩

/-! ### Cancelling -/

theorem Indexed.cancel_cases (hq : q.Indexed) (key : κ) :
    (q.deadline? key = none ∧ q.cancel key = (false, q)) ∨
      ∃ h d, q.liveEntry h = some (key, d) ∧
        q.cancel key = (true, (q.forget key).release h) := by
  cases hh : q.handle? key with
  | none => exact Or.inl ⟨by simp [deadline?, hh], by simp [cancel, hh]⟩
  | some h =>
    obtain ⟨d, hd⟩ := hq.held (hq.handle?_eq_some_iff.mp hh)
    exact Or.inr ⟨h, d, hd, by simp [cancel, hh]⟩

theorem Indexed.cancel (hq : q.Indexed) (key : κ) : (q.cancel key).2.Indexed := by
  rcases hq.cancel_cases key with ⟨-, he⟩ | ⟨h, d, hl, he⟩
  · rw [he]; exact hq
  · rw [he]; exact hq.release_forget hl

theorem Indexed.deadline?_cancel (hq : q.Indexed) (key k : κ) :
    (q.cancel key).2.deadline? k = if k = key then none else q.deadline? k := by
  rcases hq.cancel_cases key with ⟨hn, he⟩ | ⟨h, d, hl, he⟩
  · rw [he]
    by_cases hk : k = key
    · rw [if_pos hk, hk]; exact hn
    · rw [if_neg hk]
  · rw [he]; exact hq.deadline?_release_forget hl k

/-! ### Arming -/

theorem Indexed.not_mem_keys_cancel (hq : q.Indexed) (key : κ) : key ∉ (q.cancel key).2.keys := by
  rw [(hq.cancel key).mem_keys_iff_deadline?, hq.deadline?_cancel]
  simp

theorem Indexed.arm (hq : q.Indexed) (key : κ) (d : Timestamp) : (q.arm key d).2.Indexed := by
  have hc := (hq.cancel key).claim
  apply hc.place
  rw [keys, byKey_claim]
  exact hq.not_mem_keys_cancel key

theorem Indexed.liveEntry_arm (hq : q.Indexed) (key : κ) (d : Timestamp) (h : TimerHandle) :
    (q.arm key d).2.liveEntry h =
      if h = (q.arm key d).1 then some (key, d) else (q.cancel key).2.liveEntry h := by
  obtain ⟨g, hs⟩ := (hq.cancel key).claim.empty
  rw [TimerQueue.arm, liveEntry_place hs, handle_place hs, liveEntry_claim]

theorem Indexed.deadline?_arm (hq : q.Indexed) (key k : κ) (d : Timestamp) :
    (q.arm key d).2.deadline? k = if k = key then some d else q.deadline? k := by
  have ha := hq.arm key d
  have hc := hq.cancel key
  have hdead : (q.cancel key).2.liveEntry (q.arm key d).1 = none := by
    obtain ⟨g, hs⟩ := hc.claim.empty
    rw [TimerQueue.arm, handle_place hs, ← liveEntry_claim, liveEntry, hs]
    simp
  by_cases hk : k = key
  · subst hk
    rw [if_pos rfl, ha.deadline?_eq_some_iff]
    exact ⟨(q.arm k d).1, by rw [hq.liveEntry_arm, if_pos rfl]⟩
  · have hold : q.deadline? k = (q.cancel key).2.deadline? k := by
      rw [hq.deadline?_cancel, if_neg hk]
    rw [if_neg hk, hold]
    apply Option.ext
    intro d'
    rw [ha.deadline?_eq_some_iff, hc.deadline?_eq_some_iff]
    constructor
    · rintro ⟨h, hl⟩
      rw [hq.liveEntry_arm] at hl
      by_cases hh : h = (q.arm key d).1
      · rw [if_pos hh] at hl
        exact absurd (congrArg Prod.fst (Option.some.inj hl)).symm hk
      · exact ⟨h, by rwa [if_neg hh] at hl⟩
    · rintro ⟨h, hl⟩
      have hh : h ≠ (q.arm key d).1 := by rintro rfl; simp [hdead] at hl
      exact ⟨h, by rw [hq.liveEntry_arm, if_neg hh]; exact hl⟩

/-! ### Popping -/

theorem popDue_some {now due : Timestamp} (he : q.popDue now = (some (key, due), q')) :
    ∃ a rest, q.firstDue now q.agenda = (some (key, a), rest) ∧ a.deadline = due ∧
      q' = ({ q with agenda := rest }.forget key).release a.handle := by
  unfold popDue at he
  split at he <;> rename_i hf
  · simp only [Prod.mk.injEq, Option.some.injEq] at he
    obtain ⟨⟨rfl, hd⟩, hq'⟩ := he
    exact ⟨_, _, hf, hd, hq'.symm⟩
  · simp at he

theorem popDue_none {now : Timestamp} (he : q.popDue now = (none, q')) :
    ∃ rest, q.firstDue now q.agenda = (none, rest) ∧ q' = { q with agenda := rest } := by
  unfold popDue at he
  split at he <;> rename_i hf
  · simp at he
  · exact ⟨_, hf, by simpa using he.symm⟩

theorem Indexed.popDue_some {now due : Timestamp} (hq : q.Indexed)
    (he : q.popDue now = (some (key, due), q')) :
    q'.Indexed ∧ (q.deadline? key).isSome ∧
      ∀ k, q'.deadline? k = if k = key then none else q.deadline? k := by
  obtain ⟨a, rest, hf, -, rfl⟩ := TimerQueue.popDue_some he
  obtain ⟨-, -, d, hl⟩ := firstDue_some hf
  have hr := hq.with_agenda rest
  refine ⟨hr.release_forget hl, ?_, hr.deadline?_release_forget hl⟩
  rw [Option.isSome_iff_exists]
  exact ⟨d, hq.deadline?_eq_some_iff.mpr ⟨_, hl⟩⟩

theorem Indexed.popDue_none {now : Timestamp} (hq : q.Indexed)
    (he : q.popDue now = (none, q')) : q'.Indexed ∧ ∀ k, q'.deadline? k = q.deadline? k := by
  obtain ⟨rest, -, rfl⟩ := TimerQueue.popDue_none he
  exact ⟨hq.with_agenda rest, fun _ => rfl⟩

/-! ### Clearing -/

theorem forget_of_not_mem (hk : key ∉ q.keys) : q.forget key = q := by
  have hf : q.byKey.filter (·.1 ≠ key) = q.byKey := by
    apply List.filter_eq_self.mpr
    intro p hp
    have hne : p.1 ≠ key := fun he => hk (he ▸ List.mem_map_of_mem hp)
    simpa using hne
  rw [forget, hf]

/-- Clearing is one release after another, so what each release keeps is kept. -/
theorem Indexed.clear_induction {P : TimerQueue κ → Prop} (hq : q.Indexed) (hP : P q)
    (step : ∀ {q : TimerQueue κ} {key : κ} {d : Timestamp} {h : TimerHandle}, q.Indexed → P q →
      q.liveEntry h = some (key, d) → P ((q.forget key).release h)) :
    ∃ freed : TimerQueue κ, q.clear = { freed with agenda := [] } ∧ freed.Indexed ∧
      freed.byKey = [] ∧ P freed := by
  -- `clear` empties the key list first, so the keys still to be released are put back one by one.
  suffices hfold : ∀ (l : List (κ × TimerHandle)) (q : TimerQueue κ),
      { q with byKey := l }.Indexed → P { q with byKey := l } → q.byKey = [] →
      let freed := l.foldl (fun q p => q.release p.2) q
      freed.Indexed ∧ freed.byKey = [] ∧ P freed from
    ⟨_, rfl, hfold q.byKey { q with byKey := [] } hq hP rfl⟩
  intro l
  induction l with
  | nil =>
    intro q hi hp hk
    have he : { q with byKey := [] } = q := by rw [← hk]
    rw [he] at hi hp
    exact ⟨hi, hk, hp⟩
  | cons p l ih =>
    obtain ⟨key, h⟩ := p
    intro q hi hp hk
    obtain ⟨d, hl⟩ := hi.held (List.mem_cons_self ..)
    have hnew : key ∉ ({ q with byKey := l } : TimerQueue κ).keys := by
      have hn := hi.keys_nodup
      simp only [keys, List.map_cons] at hn
      exact (List.nodup_cons.mp hn).1
    have hforget : ({ q with byKey := (key, h) :: l } : TimerQueue κ).forget key =
        { q with byKey := l } := by
      have hf := forget_of_not_mem hnew
      simp only [forget, TimerQueue.mk.injEq, true_and, and_true] at hf
      rw [forget, List.filter_cons, if_neg (by simp), hf]
    have hrel := hi.release_forget hl
    have hprel := step hi hp hl
    rw [hforget, release_with_keys] at hrel hprel
    have hk' : (q.release h).byKey = [] := by rw [byKey_release, hk]
    exact ih (q.release h) hrel hprel hk'

theorem Indexed.clear (hq : q.Indexed) : q.clear.Indexed ∧ ∀ k, q.clear.deadline? k = none := by
  obtain ⟨freed, he, hi, hk, -⟩ := hq.clear_induction (P := fun _ => True) trivial
    (fun _ _ _ => trivial)
  rw [he]
  refine ⟨hi.with_agenda [], fun k => ?_⟩
  have hnone : freed.handle? k = none := by simp [handle?, hk]
  simp only [deadline?, handle?, hk, List.find?_nil, Option.map_none, Option.bind_none]

end LossWatch.TimerQueue
