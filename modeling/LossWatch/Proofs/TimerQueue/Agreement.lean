import LossWatch.Proofs.TimerQueue.Refinement

/-!
Queues that hold the same timers, armed in the same order. Their slots and handles may differ, and so
may the alarms of released timers. Both show the same map, so they answer alike: the same timer comes
up first, at whichever instant from its deadline on they are asked for it, and they go on agreeing.
-/

namespace LossWatch

namespace TimerMap

variable {κ : Type} {m m' : TimerMap κ} {key key' : κ} {due due' : Timestamp}

def Numbered (m : TimerMap κ) : Prop :=
  ∀ {k k' d d' n}, m.timer k = some (d, n) → m.timer k' = some (d', n) → k = k'

theorem First.of_timer (h : m.First key due) (ht : m'.timer = m.timer) : m'.First key due := by
  obtain ⟨n, hn, hfirst⟩ := h
  rw [← ht] at hn hfirst
  exact ⟨n, hn, hfirst⟩

theorem First.unique (hm : m.Numbered) (h : m.First key due) (h' : m.First key' due') :
    key = key' ∧ due = due' := by
  obtain ⟨n, hn, hfirst⟩ := h
  obtain ⟨n', hn', hfirst'⟩ := h'
  have hsame : due = due' ∧ n = n' := by
    rcases hfirst hn' with hlt | ⟨hd, hle⟩
    · rcases hfirst' hn with hlt' | ⟨hd', -⟩
      · exact absurd hlt' (Nat.lt_asymm hlt)
      · exact absurd hlt (hd' ▸ Nat.lt_irrefl _)
    · rcases hfirst' hn with hlt' | ⟨-, hle'⟩
      · exact absurd hlt' (hd ▸ Nat.lt_irrefl _)
      · exact ⟨hd, Nat.le_antisymm hle hle'⟩
  obtain ⟨rfl, rfl⟩ := hsame
  exact ⟨hm hn hn', rfl⟩

end TimerMap

namespace TimerQueue

variable {κ : Type} [DecidableEq κ] {q q' q₁ : TimerQueue κ} {m m' : TimerMap κ} {key : κ}
  {now due : Timestamp}

omit [DecidableEq κ] in
theorem Refines.numbered_timers (hr : q.Refines m) : m.Numbered := by
  intro k k' d d' n hk hk'
  obtain ⟨h, hl, hm⟩ := hr.timer.mp hk
  obtain ⟨h', hl', hm'⟩ := hr.timer.mp hk'
  have hsame : h = h' := Option.some.inj ((hr.numbered hm).symm.trans (hr.numbered hm'))
  rw [hsame, hl'] at hl
  exact (congrArg Prod.fst (Option.some.inj hl)).symm

omit [DecidableEq κ] in
theorem Refines.timer_eq (hr : q.Refines m) (hr' : q.Refines m') : m'.timer = m.timer := by
  funext k
  apply Option.ext
  rintro ⟨d, n⟩
  rw [hr.timer, hr'.timer]

theorem Refines.popDue_some (hr : q.Refines m) (few : q.nextOrder < generations)
    (he : q.popDue now = (some (key, due), q₁)) :
    m.First key due ∧ due ≤ now ∧ q₁.Refines (m.erase key) := by
  obtain ⟨m₁, hstep, hr₁⟩ := hr.popDue few now
  rw [he] at hstep hr₁
  cases hstep with
  | pop first hdue => exact ⟨first, hdue, hr₁⟩

theorem Refines.popDue_none (hr : q.Refines m) (few : q.nextOrder < generations)
    (he : q.popDue now = (none, q₁)) :
    (∀ {k d n}, m.timer k = some (d, n) → now < d) ∧ q₁.Refines m := by
  obtain ⟨m₁, hstep, hr₁⟩ := hr.popDue few now
  rw [he] at hstep hr₁
  cases hstep with
  | wait later => exact ⟨later, hr₁⟩

/-- The two show the same map, and have armed as many timers. -/
structure Agrees (q q' : TimerQueue κ) : Prop where
  order : q'.nextOrder = q.nextOrder
  maps : ∃ m m' : TimerMap κ, q.Refines m ∧ q'.Refines m' ∧ m'.timer = m.timer

omit [DecidableEq κ] in
theorem Refines.agrees (hr : q.Refines m) : q.Agrees q :=
  ⟨rfl, m, m, hr, hr, rfl⟩

namespace Agrees

omit [DecidableEq κ] in
theorem trans {q'' : TimerQueue κ} (h : q.Agrees q') (h' : q'.Agrees q'') : q.Agrees q'' := by
  obtain ⟨m, m₁, hr, hr₁, ht⟩ := h.maps
  obtain ⟨m₂, m', hr₂, hr', ht'⟩ := h'.maps
  exact ⟨h'.order.trans h.order, m, m', hr, hr', ht'.trans ((hr₁.timer_eq hr₂).trans ht)⟩

omit [DecidableEq κ] in
theorem indexed (h : q.Agrees q') : q'.Indexed := by
  obtain ⟨_, _, _, hr', _⟩ := h.maps
  exact hr'.indexed

/-! ### Questions -/

theorem deadline? (h : q.Agrees q') (key : κ) : q'.deadline? key = q.deadline? key := by
  obtain ⟨m, m', hr, hr', ht⟩ := h.maps
  rw [hr.deadline?_eq, hr'.deadline?_eq, ht]

theorem nextDeadline (h : q.Agrees q') : q'.nextDeadline = q.nextDeadline := by
  obtain ⟨m, m', hr, hr', ht⟩ := h.maps
  apply Option.ext
  intro d
  rw [hr.answers.nextDeadline, hr'.answers.nextDeadline, ht]

theorem size (h : q.Agrees q') : q'.size = q.size := by
  obtain ⟨m, m', hr, hr', ht⟩ := h.maps
  have hkeys := hr.answers.size hr'.answers.keys_nodup (by rw [← ht]; exact hr'.answers.mem_keys)
  rw [hkeys, TimerQueue.keys, List.length_map, TimerQueue.size]

/-! ### Changes -/

theorem cancel (h : q.Agrees q') (few : q'.nextOrder < generations) (key : κ) :
    (q.cancel key).2.Agrees (q'.cancel key).2 := by
  obtain ⟨m, m', hr, hr', ht⟩ := h.maps
  refine ⟨?_, m.erase key, m'.erase key, (hr.cancel (h.order ▸ few) key).2,
    (hr'.cancel few key).2, ?_⟩
  · rw [nextOrder_cancel, nextOrder_cancel, h.order]
  · rw [TimerMap.erase, TimerMap.erase, ht]

theorem arm (h : q.Agrees q') (few : q'.nextOrder < generations) (key : κ) (d : Timestamp) :
    (q.arm key d).2.Agrees (q'.arm key d).2 := by
  obtain ⟨m, m', hr, hr', ht⟩ := h.maps
  refine ⟨?_, _, _, hr.arm (h.order ▸ few) key d, hr'.arm few key d, ?_⟩
  · rw [nextOrder_arm, nextOrder_arm, h.order]
  · rw [TimerMap.arm, TimerMap.arm, ht, hr.count, hr'.count, h.order]

theorem clear (h : q.Agrees q') (few : q'.nextOrder < generations) : q.clear.Agrees q'.clear := by
  obtain ⟨m, m', hr, hr', ht⟩ := h.maps
  refine ⟨?_, m.clear, m'.clear, hr.clear (h.order ▸ few), hr'.clear few, rfl⟩
  rw [nextOrder_clear hr.indexed, nextOrder_clear hr'.indexed, h.order]

theorem popDue_some (h : q.Agrees q') (few : q'.nextOrder < generations)
    (he : q.popDue now = (some (key, due), q₁)) :
    q'.nextDeadline = some due ∧ ∀ now', due ≤ now' →
      ∃ q₁', q'.popDue now' = (some (key, due), q₁') ∧ q₁.Agrees q₁' := by
  obtain ⟨m, m', hr, hr', ht⟩ := h.maps
  obtain ⟨hfirst, -, hr₁⟩ := hr.popDue_some (h.order ▸ few) he
  have hfirst' := hfirst.of_timer ht
  obtain ⟨n, hn, hleast⟩ := hfirst'
  refine ⟨?_, ?_⟩
  · refine (hr'.answers.nextDeadline due).mpr ⟨⟨key, n, hn⟩, fun hk => ?_⟩
    rcases hleast hk with hlt | ⟨rfl, -⟩
    · exact Nat.le_of_lt hlt
    · exact Nat.le_refl _
  · intro now' hdue
    cases he' : q'.popDue now' with
    | mk timer q₁' =>
      cases timer with
      | none =>
        have hlate := (hr'.popDue_none few he').1 hn
        exact absurd hlate (Nat.not_lt_of_le hdue)
      | some timer =>
        obtain ⟨hfirst'', -, hr₁'⟩ := hr'.popDue_some few he'
        obtain ⟨hkey, hd⟩ := hfirst''.unique hr'.numbered_timers (hfirst.of_timer ht)
        refine ⟨q₁', by rw [← hkey, ← hd], ?_, _, _, hr₁, hkey ▸ hr₁', ?_⟩
        · rw [nextOrder_of_popDue he, nextOrder_of_popDue he', h.order]
        · rw [TimerMap.erase, TimerMap.erase, ht]

theorem popDue_same (h : q.Agrees q') (few : q'.nextOrder < generations)
    (he : q.popDue now = (some (key, due), q₁)) :
    ∃ q₁', q'.popDue now = (some (key, due), q₁') ∧ q₁.Agrees q₁' :=
  (h.popDue_some few he).2 now (load_popDue 0 he).1

theorem popDue_none (h : q.Agrees q') (few : q'.nextOrder < generations)
    (he : q.popDue now = (none, q₁)) :
    q₁.Agrees q' ∧ ∃ q₁', q'.popDue now = (none, q₁') ∧ q₁.Agrees q₁' := by
  obtain ⟨m, m', hr, hr', ht⟩ := h.maps
  obtain ⟨hlate, hr₁⟩ := hr.popDue_none (h.order ▸ few) he
  have horder := nextOrder_of_popDue he
  refine ⟨⟨h.order.trans horder.symm, m, m', hr₁, hr', ht⟩, ?_⟩
  cases he' : q'.popDue now with
  | mk timer q₁' =>
    cases timer with
    | none =>
      refine ⟨q₁', rfl, ?_, m, m', hr₁, (hr'.popDue_none few he').2, ht⟩
      rw [horder, nextOrder_of_popDue he', h.order]
    | some timer =>
      obtain ⟨⟨n, hn, -⟩, hdue, -⟩ := hr'.popDue_some few he'
      rw [ht] at hn
      exact absurd (hlate hn) (Nat.not_lt_of_le hdue)

end Agrees

/-- The next `n` timers to come up if nothing else happens, each with its deadline. -/
def upcoming (q : TimerQueue κ) : Nat → List (κ × Timestamp)
  | 0 => []
  | n + 1 =>
    match q.popDue .last with
    | (none, _) => []
    | (some timer, q) => timer :: q.upcoming n

theorem Agrees.upcoming (h : q.Agrees q') (few : q'.nextOrder < generations) (n : Nat) :
    q'.upcoming n = q.upcoming n := by
  induction n generalizing q q' with
  | zero => rfl
  | succ n ih =>
    cases he : q.popDue .last with
    | mk timer q₁ =>
      cases timer with
      | none =>
        obtain ⟨-, q₁', he', -⟩ := h.popDue_none few he
        simp only [TimerQueue.upcoming, he, he']
      | some timer =>
        obtain ⟨q₁', he', h₁⟩ := h.popDue_same few he
        have few₁ : q₁'.nextOrder < generations := nextOrder_of_popDue he' ▸ few
        simp only [TimerQueue.upcoming, he, he', ih h₁ few₁]

end TimerQueue
end LossWatch
