import LossWatch.Proofs.TimerQueue.Handles

/-!
How the parts of a timer queue stand to each other. With fewer armings than a slot has generations, keys
and occupied slots belong to each other one to one, the free list names the other slots, and the agenda
holds one alarm for each timer and otherwise only such as are of no use. An arming clears those away once
they are many, so that then the agenda is no longer than a multiple of the timers.
-/

namespace LossWatch.TimerQueue

variable {κ : Type} {q : TimerQueue κ} {h : TimerHandle} {key : κ} {d : Timestamp}

/-! ### The length of the agenda -/

theorem compact_cases (q : TimerQueue κ) :
    q.compact.agenda.length ≤ 64 + 4 * q.compact.size ∨
      ∀ a ∈ q.compact.agenda, q.compact.isLive a.handle = true := by
  by_cases hshort : q.agenda.length ≤ 64 + 4 * q.byKey.length
  · rw [compact, if_pos hshort]
    exact Or.inl hshort
  · refine Or.inr fun a ha => ?_
    rw [isLive, liveEntry_compact]
    rw [compact, if_neg hshort] at ha
    exact (List.mem_filter.mp ha).2

theorem Scheduled.length_agenda_le (hs : q.Scheduled) (hq : q.Indexed)
    (hlive : ∀ a ∈ q.agenda, q.isLive a.handle = true) : q.agenda.length ≤ q.size := by
  have hsubset : q.agenda.map (·.handle) ⊆ q.byKey.map (·.2) := by
    intro h hh
    obtain ⟨a, ha, rfl⟩ := List.mem_map.mp hh
    obtain ⟨⟨key, d⟩, hl⟩ := Option.isSome_iff_exists.mp (hlive a ha)
    exact List.mem_map.mpr ⟨(key, a.handle), hq.keyed hl, rfl⟩
  have hlength := List.Nodup.length_le_of_subset hs.handles_nodup hsubset
  rwa [List.length_map, List.length_map] at hlength

theorem Scheduled.length_agenda_arm_le [DecidableEq κ] (hs : q.Scheduled) (hq : q.Indexed)
    (few : q.nextOrder < generations) (key : κ) (d : Timestamp) :
    (q.arm key d).2.agenda.length ≤ 64 + 4 * (q.arm key d).2.size := by
  have harmed := hs.arm hq few key d
  have hindexed := hq.arm key d
  rcases compact_cases _ with hshort | hlive
  · exact hshort
  · have hle := harmed.length_agenda_le hindexed hlive
    omega

/-! ### The parts -/

theorem filter_handle_eq {l : List Alarm} {a : Alarm} (hnodup : (l.map (·.handle)).Nodup)
    (ha : a ∈ l) : l.filter (·.handle = a.handle) = [a] := by
  obtain ⟨before, after, rfl⟩ := List.append_of_mem ha
  rw [List.map_append, List.map_cons, List.nodup_append, List.nodup_cons] at hnodup
  obtain ⟨-, ⟨hafter, -⟩, hbefore⟩ := hnodup
  have hnone : before.filter (·.handle = a.handle) = [] := by
    refine List.filter_eq_nil_iff.mpr fun b hb => ?_
    simpa using hbefore b.handle (List.mem_map_of_mem hb) a.handle List.mem_cons_self
  have hnone' : after.filter (·.handle = a.handle) = [] := by
    refine List.filter_eq_nil_iff.mpr fun b hb => ?_
    have hne : b.handle ≠ a.handle := fun he => hafter (he ▸ List.mem_map_of_mem hb)
    simpa using hne
  rw [List.filter_append, hnone, List.filter_cons, hnone']
  simp

variable [DecidableEq κ]

/-- The parts of the queue agree. -/
structure Consistent (q : TimerQueue κ) : Prop where
  keys_nodup : q.keys.Nodup
  held : ∀ {key h}, q.handle? key = some h →
    (∃ d, q.slots[h.index]? = some ⟨h.generation, some (key, d)⟩) ∧
      ∀ {i g d}, q.slots[i]? = some ⟨g, some (key, d)⟩ → i = h.index
  /-- One key leads to an occupied slot. -/
  keyed : ∀ {i g key d}, q.slots[i]? = some ⟨g, some (key, d)⟩ →
    q.handle? key = some ⟨i, g⟩ ∧ ∀ {k h}, q.handle? k = some h → h.index = i → k = key
  free_once : ∀ {i}, q.EmptyAt i → q.free.count i = 1
  free_empty : ∀ {i}, i ∈ q.free → q.EmptyAt i
  /-- An armed timer has one alarm, at the deadline that its slot holds. -/
  alarmed : ∀ {key h}, q.handle? key = some h →
    ∃ d n, q.slots[h.index]? = some ⟨h.generation, some (key, d)⟩ ∧
      q.agenda.filter (·.handle = h) = [⟨d, n, h⟩]
  idle : ∀ {a}, a ∈ q.agenda → (∀ key, q.handle? key ≠ some a.handle) → q.isLive a.handle = false

theorem Indexed.handle?_iff_slot (hq : q.Indexed) :
    q.handle? key = some h ↔ ∃ d, q.slots[h.index]? = some ⟨h.generation, some (key, d)⟩ := by
  simp only [hq.handle?_eq_some_iff, ← liveEntry_eq_some_iff]
  refine ⟨hq.held, ?_⟩
  rintro ⟨d, hl⟩
  exact hq.keyed hl

theorem Scheduled.consistent (hs : q.Scheduled) (hq : q.Indexed) : q.Consistent where
  keys_nodup := hq.keys_nodup
  held hh := by
    refine ⟨hq.handle?_iff_slot.mp hh, fun {i g d} hslot => ?_⟩
    have hsame : q.handle? _ = some ⟨i, g⟩ := hq.handle?_iff_slot.mpr ⟨d, hslot⟩
    rw [hh] at hsame
    exact (congrArg TimerHandle.index (Option.some.inj hsame)).symm
  keyed {i g key d} hslot := by
    refine ⟨hq.handle?_iff_slot.mpr ⟨d, hslot⟩, fun {k h} hh hi => ?_⟩
    obtain ⟨d', hslot'⟩ := hq.handle?_iff_slot.mp hh
    rw [hi, hslot] at hslot'
    have hentry := (TimerSlot.mk.inj (Option.some.inj hslot')).2
    exact (congrArg Prod.fst (Option.some.inj hentry)).symm
  free_once hempty := List.count_eq_one_of_mem hq.free_nodup (hq.mem_free.mpr hempty)
  free_empty := hq.mem_free.mp
  alarmed hh := by
    obtain ⟨d, hslot⟩ := hq.handle?_iff_slot.mp hh
    obtain ⟨n, hn⟩ := hs.alarmed (liveEntry_eq_some_iff.mpr hslot)
    exact ⟨d, n, hslot, filter_handle_eq hs.handles_nodup hn⟩
  idle {a} _ hnone := by
    rw [← Bool.not_eq_true, isLive, Option.isSome_iff_exists]
    rintro ⟨⟨key, d⟩, hl⟩
    exact hnone key (hq.handle?_eq_some_iff.mpr (hq.keyed hl))

/-- With fewer armings than a slot has generations, the parts of the queue agree whatever it was asked,
and after each arming there are at most 64 alarms more than four for each timer. -/
theorem parts_agree (ops : List (TimerOp κ)) (few : armings ops < generations) :
    (empty.after ops).Consistent ∧
    ∀ before key d later, ops = before ++ .arm key d :: later →
      let q := ((empty.after before).arm key d).2
      q.agenda.length ≤ 64 + 4 * q.size := by
  have few₀ : (empty : TimerQueue κ).nextOrder + armings ops < generations := by
    rw [TimerQueue.empty, Nat.zero_add]
    exact few
  constructor
  · obtain ⟨m, hr, -⟩ := Refines.empty.after .nil ops few₀
    exact hr.scheduled.consistent hr.indexed
  · rintro before key d later rfl
    rw [armings_append] at few₀
    obtain ⟨m, hr, -, -, horder⟩ := Refines.empty.after .nil before (by omega)
    rw [armings_cons, armings] at few₀
    exact hr.scheduled.length_agenda_arm_le hr.indexed (by omega) key d

theorem parts_agree_of_rearming :
    let again : List (TimerOp Nat) := List.replicate 99 (.arm 2 (.ofMillis 7))
    let before := .arm 1 (.ofMillis 9) :: again
    let ops := before ++ .arm 2 (.ofMillis 7) :: [.popDue (.ofMillis 8)]
    let q := ((empty.after before).arm 2 (.ofMillis 7)).2
    armings ops < generations ∧ (empty.after ops).Consistent ∧ q.agenda.length ≤ 64 + 4 * q.size := by
  intro again before ops q
  have few : armings ops < generations := by decide
  obtain ⟨hconsistent, hlength⟩ := parts_agree ops few
  exact ⟨few, hconsistent, hlength before 2 (.ofMillis 7) _ rfl⟩

end LossWatch.TimerQueue
