import LossWatch.Proofs.TimerQueue.Agenda

/-!
A cleared queue is a new one with other names. It hands its old slots out first, the last freed
first, each with the generation it has come to, and makes new slots after them. So its handles are
those of a new queue renamed, slot by slot and with generations that run ahead by a fixed amount,
and since both come round after equally many steps, the two never differ in what they answer.
-/

namespace LossWatch

structure TimerHandle.Within (h : TimerHandle) (n : Nat) : Prop where
  index : h.index < n
  generation : h.generation < TimerQueue.generations

theorem TimerHandle.Within.mono {h : TimerHandle} {n m : Nat} (hn : h.Within n) (hm : n ≤ m) :
    h.Within m :=
  ⟨Nat.lt_of_lt_of_le hn.index hm, hn.generation⟩

namespace TimerQueue

/-! ### Handles in range -/

variable {κ : Type} {q q' : TimerQueue κ} {h : TimerHandle} {key : κ} {d : Timestamp} {i : Nat}

structure InRange (q : TimerQueue κ) : Prop where
  slots : ∀ {j : Nat} {s : TimerSlot κ}, q.slots[j]? = some s → s.generation < generations
  free : ∀ i ∈ q.free, i < q.slots.size
  keyed : ∀ p ∈ q.byKey, p.2.Within q.slots.size
  listed : ∀ a ∈ q.agenda, a.handle.Within q.slots.size

/-! ### Renaming -/

/-- How the names of a new queue become those of a used one. -/
structure Renaming where
  /-- The empty slots of the used queue, in the order in which it hands them out. -/
  spare : List Nat
  first : Nat
  /-- By how much the generations of a slot run ahead. -/
  ahead : Nat → Nat
  armed : Nat
  nodup : spare.Nodup
  below : ∀ i ∈ spare, i < first
  ahead_new : ∀ j, spare.length ≤ j → ahead j = 0

namespace Renaming

variable (ρ : Renaming)

def index (j : Nat) : Nat := ρ.spare[j]?.getD (ρ.first + (j - ρ.spare.length))

def generation (j g : Nat) : Nat := (g + ρ.ahead j) % generations

def slot (j : Nat) (s : TimerSlot κ) : TimerSlot κ := ⟨ρ.generation j s.generation, s.entry⟩

def handle (h : TimerHandle) : TimerHandle := ⟨ρ.index h.index, ρ.generation h.index h.generation⟩

def alarm (a : Alarm) : Alarm := ⟨a.deadline, a.order + ρ.armed, ρ.handle a.handle⟩

theorem index_of_lt {j : Nat} (h : j < ρ.spare.length) : ρ.index j = ρ.spare[j] := by
  simp [index, h]

theorem index_of_le {j : Nat} (h : ρ.spare.length ≤ j) :
    ρ.index j = ρ.first + (j - ρ.spare.length) := by
  simp [index, h]

theorem index_lt_iff (j : Nat) : ρ.index j < ρ.first ↔ j < ρ.spare.length := by
  by_cases hj : j < ρ.spare.length
  · rw [ρ.index_of_lt hj]
    exact ⟨fun _ => hj, fun _ => ρ.below _ (List.getElem_mem hj)⟩
  · rw [ρ.index_of_le (by omega)]
    omega

theorem index_inj {j k : Nat} : ρ.index j = ρ.index k ↔ j = k := by
  refine ⟨fun h => ?_, congrArg ρ.index⟩
  have hsides : j < ρ.spare.length ↔ k < ρ.spare.length := by
    rw [← ρ.index_lt_iff, ← ρ.index_lt_iff, h]
  by_cases hj : j < ρ.spare.length
  · rw [ρ.index_of_lt hj, ρ.index_of_lt (hsides.mp hj)] at h
    exact (ρ.nodup.getElem_inj_iff).mp h
  · have hk : ¬ k < ρ.spare.length := fun hk => hj (hsides.mpr hk)
    rw [ρ.index_of_le (by omega), ρ.index_of_le (by omega)] at h
    omega

theorem generation_inj {j g g' : Nat} (h : g < generations) (h' : g' < generations) :
    ρ.generation j g = ρ.generation j g' ↔ g = g' := by
  unfold generation generations at *
  omega

theorem generation_next (j g : Nat) :
    ρ.generation j ((g + 1) % generations) = (ρ.generation j g + 1) % generations := by
  unfold generation generations
  omega

theorem generation_new {j : Nat} (h : ρ.spare.length ≤ j) : ρ.generation j 0 = 0 := by
  simp [generation, ρ.ahead_new j h]

end Renaming

def Renaming.slotAt (ρ : Renaming) (slots : Array (TimerSlot κ)) (j : Nat) :
    Option (TimerSlot κ) :=
  slots[j]?.or (if j < ρ.spare.length then some ⟨0, none⟩ else none)

variable {ρ : Renaming}

theorem Renaming.slotAt_of_some {slots : Array (TimerSlot κ)} {j : Nat} {s : TimerSlot κ}
    (hs : slots[j]? = some s) : ρ.slotAt slots j = some s := by
  rw [slotAt, hs]
  rfl

def Renaming.Corresponds (ρ : Renaming) (slots slots' : Array (TimerSlot κ)) : Prop :=
  ∀ j, slots'[ρ.index j]? = (ρ.slotAt slots j).map (ρ.slot j)

theorem Renaming.Corresponds.set {slots slots' : Array (TimerSlot κ)}
    (h : ρ.Corresponds slots slots') (hi : i < slots.size) (s : TimerSlot κ) :
    ρ.Corresponds (slots.setIfInBounds i s)
      (slots'.setIfInBounds (ρ.index i) (ρ.slot i s)) := by
  intro j
  by_cases hj : j = i
  · subst hj
    have hold := h j
    rw [slotAt_of_some (Array.getElem?_eq_getElem hi), Option.map_some] at hold
    have hi' := (Array.getElem?_eq_some_iff.mp hold).1
    have hnew : (slots.setIfInBounds j s)[j]? = some s :=
      Array.getElem?_setIfInBounds_self_of_lt hi
    rw [slotAt_of_some hnew, Array.getElem?_setIfInBounds_self_of_lt hi']
    rfl
  · have hne : ρ.index i ≠ ρ.index j := fun he => hj (ρ.index_inj.mp he).symm
    have hsame : ρ.slotAt (slots.setIfInBounds i s) j = ρ.slotAt slots j := by
      rw [slotAt, slotAt, Array.getElem?_setIfInBounds_ne (Ne.symm hj)]
    rw [Array.getElem?_setIfInBounds_ne hne, hsame]
    exact h j

theorem Renaming.Corresponds.push_spare {slots slots' : Array (TimerSlot κ)}
    (h : ρ.Corresponds slots slots') (hspare : slots.size < ρ.spare.length) :
    ρ.Corresponds (slots.push ⟨0, none⟩) slots' := by
  intro j
  rw [h j]
  congr 1
  rw [slotAt, slotAt, Array.getElem?_push]
  by_cases hj : j = slots.size
  · subst hj
    simp [hspare]
  · rw [if_neg hj]

theorem Renaming.Corresponds.push_new {slots slots' : Array (TimerSlot κ)}
    (h : ρ.Corresponds slots slots') (hindex : slots'.size = ρ.index slots.size)
    (hnew : ρ.spare.length ≤ slots.size) :
    ρ.Corresponds (slots.push ⟨0, none⟩) (slots'.push ⟨0, none⟩) := by
  intro j
  rw [slotAt, Array.getElem?_push, Array.getElem?_push, hindex]
  by_cases hj : j = slots.size
  · subst hj
    simp [slot, ρ.generation_new hnew]
  · rw [if_neg hj, if_neg fun he => hj (ρ.index_inj.mp he), h j, slotAt]

/-- The second queue is the first with other names. -/
structure Renames (ρ : Renaming) (q q' : TimerQueue κ) : Prop where
  inRange : q.InRange
  slots : ρ.Corresponds q.slots q'.slots
  size : q'.slots.size = ρ.first + (q.slots.size - ρ.spare.length)
  free : q'.free = q.free.map ρ.index ++ ρ.spare.drop q.slots.size
  byKey : q'.byKey = q.byKey.map fun p => (p.1, ρ.handle p.2)
  agenda : q'.agenda = q.agenda.map ρ.alarm
  nextOrder : q'.nextOrder = q.nextOrder + ρ.armed

namespace Renames

theorem slot_of_some (hr : Renames ρ q q') {j : Nat} {s : TimerSlot κ}
    (hs : q.slots[j]? = some s) : q'.slots[ρ.index j]? = some (ρ.slot j s) := by
  rw [hr.slots, Renaming.slotAt_of_some hs]
  rfl

/-! ### Questions -/

theorem liveEntry (hr : Renames ρ q q') (hg : h.generation < generations) :
    q'.liveEntry (ρ.handle h) = q.liveEntry h := by
  unfold TimerQueue.liveEntry
  rw [show (ρ.handle h).index = ρ.index h.index from rfl, hr.slots, Renaming.slotAt]
  cases hs : q.slots[h.index]? with
  | none =>
    -- A slot that was not handed out yet holds nothing.
    by_cases hspare : h.index < ρ.spare.length <;> simp [hspare, Renaming.slot]
  | some s =>
    have hsame : (ρ.slot h.index s).generation = (ρ.handle h).generation ↔
        s.generation = h.generation := ρ.generation_inj (hr.inRange.slots hs) hg
    simp only [Option.some_or, Option.map_some, hsame]
    rfl

theorem deadlineOf (hr : Renames ρ q q') (hg : h.generation < generations) :
    q'.deadlineOf (ρ.handle h) = q.deadlineOf h := by
  rw [TimerQueue.deadlineOf, hr.liveEntry hg, TimerQueue.deadlineOf]

theorem nextDeadline (hr : Renames ρ q q') : q'.nextDeadline = q.nextDeadline := by
  unfold TimerQueue.nextDeadline
  rw [hr.byKey, List.foldl_map]
  have hfold : ∀ (l : List (κ × TimerHandle)) (first : Option Timestamp), (∀ p ∈ l, p.2.Within q.slots.size) →
      l.foldl (fun earliest p => earliest.merge min (q'.deadlineOf (ρ.handle p.2))) first =
        l.foldl (fun earliest p => earliest.merge min (q.deadlineOf p.2)) first := by
    intro l
    induction l with
    | nil => exact fun _ _ => rfl
    | cons p l ih =>
      intro first hl
      rw [List.foldl_cons, List.foldl_cons, hr.deadlineOf (hl p List.mem_cons_self).generation]
      exact ih _ fun p hp => hl p (List.mem_cons_of_mem _ hp)
  exact hfold q.byKey none hr.inRange.keyed

theorem size_eq (hr : Renames ρ q q') : q'.size = q.size := by
  rw [TimerQueue.size, TimerQueue.size, hr.byKey, List.length_map]

/-! ### Releasing -/

end Renames

theorem release_of_some {s : TimerSlot κ} (hs : q.slots[h.index]? = some s) : q.release h =
    if s.generation = h.generation then
      { q with
        slots := q.slots.setIfInBounds h.index ⟨(s.generation + 1) % generations, none⟩
        free := h.index :: q.free }
    else q := by
  rw [release, hs]

theorem size_release (q : TimerQueue κ) (h : TimerHandle) :
    (q.release h).slots.size = q.slots.size := by
  unfold release
  split
  · split
    · exact Array.size_setIfInBounds
    · rfl
  · rfl

theorem generations_pos : 0 < generations := by decide

theorem generation_lt_set {slots : Array (TimerSlot κ)}
    (hslots : ∀ {j : Nat} {s : TimerSlot κ}, slots[j]? = some s → s.generation < generations)
    {t : TimerSlot κ} (ht : t.generation < generations) {j : Nat} {s : TimerSlot κ}
    (hs : (slots.setIfInBounds i t)[j]? = some s) : s.generation < generations := by
  rw [Array.getElem?_setIfInBounds] at hs
  split at hs
  · split at hs
    · exact Option.some.inj hs ▸ ht
    · simp at hs
  · exact hslots hs

theorem InRange.release (hq : q.InRange) (hn : h.Within q.slots.size) : (q.release h).InRange := by
  obtain ⟨s, hs⟩ : ∃ s, q.slots[h.index]? = some s := ⟨_, Array.getElem?_eq_getElem hn.index⟩
  constructor
  case slots =>
    intro j t ht
    rw [release_of_some hs] at ht
    split at ht
    · exact generation_lt_set hq.slots (Nat.mod_lt _ generations_pos) ht
    · exact hq.slots ht
  case free =>
    intro i hi
    rw [q.size_release h]
    rw [release_of_some hs] at hi
    split at hi
    · rcases List.mem_cons.mp hi with rfl | hi
      · exact hn.index
      · exact hq.free i hi
    · exact hq.free i hi
  case keyed =>
    intro p hp
    rw [byKey_release] at hp
    rw [q.size_release h]
    exact hq.keyed p hp
  case listed =>
    intro a ha
    rw [agenda_release] at ha
    rw [q.size_release h]
    exact hq.listed a ha

theorem Renames.release (hr : Renames ρ q q') (hn : h.Within q.slots.size) :
    Renames ρ (q.release h) (q'.release (ρ.handle h)) := by
  have hin := hr.inRange.release hn
  obtain ⟨s, hs⟩ : ∃ s, q.slots[h.index]? = some s := ⟨_, Array.getElem?_eq_getElem hn.index⟩
  have hs' : q'.slots[(ρ.handle h).index]? = some (ρ.slot h.index s) := hr.slot_of_some hs
  have hsame : (ρ.slot h.index s).generation = (ρ.handle h).generation ↔
      s.generation = h.generation := ρ.generation_inj (hr.inRange.slots hs) hn.generation
  rw [release_of_some hs] at hin ⊢
  rw [release_of_some hs']
  by_cases hg : s.generation = h.generation
  · rw [if_pos hg] at hin ⊢
    rw [if_pos (hsame.mpr hg)]
    refine ⟨hin, ?_, ?_, ?_, hr.byKey, hr.agenda, hr.nextOrder⟩
    · have hset := hr.slots.set hn.index ⟨(s.generation + 1) % generations, none⟩
      rw [Renaming.slot, ρ.generation_next] at hset
      exact hset
    · simp only [Array.size_setIfInBounds, hr.size]
    · simp only [Array.size_setIfInBounds, hr.free]
      rfl
  · rw [if_neg hg]
    rw [if_neg fun hg' => hg (hsame.mp hg')]
    exact hr

/-! ### Placing a timer -/

theorem InRange.claim (hq : q.InRange) :
    q.claim.1 < q.claim.2.slots.size ∧ q.claim.2.InRange := by
  cases hf : q.free with
  | cons i rest =>
    rw [claim_of_free hf]
    have hfree : ∀ j ∈ i :: rest, j < q.slots.size := hf ▸ hq.free
    exact ⟨hfree i List.mem_cons_self, hq.slots,
      fun j hj => hfree j (List.mem_cons_of_mem _ hj), hq.keyed, hq.listed⟩
  | nil =>
    rw [claim_of_full hf]
    have hsize : q.slots.size ≤ (q.slots.push ⟨0, none⟩).size := by simp
    refine ⟨by simp, ?_, ?_, fun p hp => (hq.keyed p hp).mono hsize,
      fun a ha => (hq.listed a ha).mono hsize⟩
    · intro j t ht
      rw [Array.getElem?_push] at ht
      split at ht
      · obtain rfl := Option.some.inj ht
        exact generations_pos
      · exact hq.slots ht
    · exact fun j hj => absurd hj (by simp [hf])

/-- Both hand out the next slot: an old one of the one queue may be a new one of the other. -/
theorem Renames.claim (hr : Renames ρ q q') :
    q'.claim.1 = ρ.index q.claim.1 ∧ Renames ρ q.claim.2 q'.claim.2 := by
  have hin := hr.inRange.claim.2
  cases hf : q.free with
  | cons i rest =>
    have hf' : q'.free = ρ.index i :: (rest.map ρ.index ++ ρ.spare.drop q.slots.size) := by
      rw [hr.free, hf]
      rfl
    rw [claim_of_free hf] at hin ⊢
    rw [claim_of_free hf']
    exact ⟨rfl, hin, hr.slots, hr.size, rfl, hr.byKey, hr.agenda, hr.nextOrder⟩
  | nil =>
    rw [claim_of_full hf] at hin ⊢
    by_cases hspare : q.slots.size < ρ.spare.length
    · have hf' : q'.free = ρ.index q.slots.size :: ρ.spare.drop (q.slots.size + 1) := by
        rw [hr.free, hf, List.map_nil, List.nil_append, ρ.index_of_lt hspare,
          List.drop_eq_getElem_cons hspare]
      rw [claim_of_free hf']
      refine ⟨rfl, hin, hr.slots.push_spare hspare, ?_, ?_, hr.byKey, hr.agenda, hr.nextOrder⟩
      · have := hr.size
        simp only [Array.size_push]
        omega
      · simp [hf]
    · have hf' : q'.free = [] := by
        rw [hr.free, hf, List.drop_eq_nil_of_le (by omega)]
        rfl
      have hindex : q'.slots.size = ρ.index q.slots.size := by
        rw [hr.size, ρ.index_of_le (by omega)]
      rw [claim_of_full hf']
      refine ⟨hindex, hin, hr.slots.push_new hindex (by omega), ?_, ?_, hr.byKey, hr.agenda,
        hr.nextOrder⟩
      · have := hr.size
        simp only [Array.size_push]
        omega
      · simp [hf, hf', List.drop_eq_nil_of_le (show ρ.spare.length ≤ q.slots.size + 1 by omega)]

theorem InRange.compact (hq : q.InRange) : q.compact.InRange := by
  unfold TimerQueue.compact
  split
  · exact hq
  · exact ⟨hq.slots, hq.free, hq.keyed, fun a ha => hq.listed a (List.mem_of_mem_filter ha)⟩

theorem Renames.compact (hr : Renames ρ q q') : Renames ρ q.compact q'.compact := by
  have hin := hr.inRange.compact
  have hmany : q'.agenda.length ≤ 64 + 4 * q'.byKey.length ↔
      q.agenda.length ≤ 64 + 4 * q.byKey.length := by
    rw [hr.agenda, hr.byKey, List.length_map, List.length_map]
  unfold TimerQueue.compact at hin ⊢
  by_cases h : q.agenda.length ≤ 64 + 4 * q.byKey.length
  · rw [if_pos h, if_pos (hmany.mpr h)]
    exact hr
  · rw [if_neg h] at hin ⊢
    rw [if_neg fun h' => h (hmany.mp h')]
    refine ⟨hin, hr.slots, hr.size, hr.free, hr.byKey, ?_, hr.nextOrder⟩
    show q'.agenda.filter _ = (q.agenda.filter _).map ρ.alarm
    rw [hr.agenda, List.filter_map]
    congr 1
    apply List.filter_congr
    intro a ha
    show (q'.liveEntry (ρ.handle a.handle)).isSome = (q.liveEntry a.handle).isSome
    rw [hr.liveEntry (hr.inRange.listed a ha).generation]

theorem enlist_map (ρ : Renaming) (a : Alarm) (l : List Alarm) :
    enlist (ρ.alarm a) (l.map ρ.alarm) = (enlist a l).map ρ.alarm := by
  induction l with
  | nil => rfl
  | cons b l ih =>
    rw [List.map_cons, enlist, enlist]
    by_cases h : b.deadline ≤ a.deadline
    · rw [if_pos h, if_pos (show (ρ.alarm b).deadline ≤ (ρ.alarm a).deadline from h), ih]
      rfl
    · rw [if_neg h, if_neg (show ¬ (ρ.alarm b).deadline ≤ (ρ.alarm a).deadline from h)]
      rfl

theorem Renames.place (hr : Renames ρ q q') (hi : i < q.slots.size) (key : κ) (d : Timestamp) :
    Renames ρ (q.place i key d).2 (q'.place (ρ.index i) key d).2 := by
  obtain ⟨s, hs⟩ : ∃ s, q.slots[i]? = some s := ⟨_, Array.getElem?_eq_getElem hi⟩
  rw [place_eq_compact hs, place_eq_compact (hr.slot_of_some hs)]
  apply Renames.compact
  have hsize : (q.slots.setIfInBounds i ⟨s.generation, some (key, d)⟩).size = q.slots.size :=
    Array.size_setIfInBounds
  have hwithin : TimerHandle.Within ⟨i, s.generation⟩ q.slots.size := ⟨hi, hr.inRange.slots hs⟩
  refine ⟨⟨?_, ?_, ?_, ?_⟩, hr.slots.set hi _, ?_, ?_, ?_, ?_, ?_⟩
  · exact generation_lt_set hr.inRange.slots (t := ⟨s.generation, some (key, d)⟩) hwithin.generation
  · rw [hsize]
    exact hr.inRange.free
  · rw [hsize]
    intro p hp
    rcases List.mem_cons.mp hp with rfl | hp
    · exact hwithin
    · exact hr.inRange.keyed p hp
  · rw [hsize]
    intro a ha
    rcases List.mem_cons.mp ((enlist_perm _ _).mem_iff.mp ha) with rfl | ha
    · exact hwithin
    · exact hr.inRange.listed a ha
  · rw [hsize, Array.size_setIfInBounds, hr.size]
  · rw [hsize, hr.free]
  · rw [hr.byKey]
    rfl
  · rw [hr.agenda, hr.nextOrder]
    exact enlist_map ρ ⟨d, q.nextOrder, ⟨i, s.generation⟩⟩ q.agenda
  · rw [hr.nextOrder]
    exact Nat.add_right_comm ..

/-! ### By key -/

section

variable [DecidableEq κ]

theorem Renames.handle? (hr : Renames ρ q q') (key : κ) :
    q'.handle? key = (q.handle? key).map ρ.handle := by
  rw [TimerQueue.handle?, hr.byKey, List.find?_map, TimerQueue.handle?]
  rw [Option.map_map, Option.map_map]
  rfl

theorem within_of_handle? (hq : q.InRange) (hh : q.handle? key = some h) :
    h.Within q.slots.size := by
  obtain ⟨p, hp, rfl⟩ := Option.map_eq_some_iff.mp hh
  exact hq.keyed p (List.mem_of_find?_eq_some hp)

theorem Renames.deadline? (hr : Renames ρ q q') (key : κ) :
    q'.deadline? key = q.deadline? key := by
  rw [TimerQueue.deadline?, hr.handle?, TimerQueue.deadline?]
  cases hh : q.handle? key with
  | none => rfl
  | some h => exact hr.deadlineOf (within_of_handle? hr.inRange hh).generation

theorem InRange.forget (hq : q.InRange) (key : κ) : (q.forget key).InRange :=
  ⟨hq.slots, hq.free, fun p hp => hq.keyed p (List.mem_of_mem_filter hp), hq.listed⟩

theorem Renames.forget (hr : Renames ρ q q') (key : κ) :
    Renames ρ (q.forget key) (q'.forget key) := by
  refine ⟨hr.inRange.forget key, hr.slots, hr.size, hr.free, ?_, hr.agenda, hr.nextOrder⟩
  rw [TimerQueue.forget, hr.byKey, List.filter_map]
  rfl

theorem Renames.cancel (hr : Renames ρ q q') (key : κ) :
    Renames ρ (q.cancel key).2 (q'.cancel key).2 := by
  unfold TimerQueue.cancel
  rw [hr.handle?]
  cases hh : q.handle? key with
  | none => exact hr
  | some h => exact (hr.forget key).release (q := q.forget key) (within_of_handle? (q := q) hr.inRange hh)

theorem Renames.arm (hr : Renames ρ q q') (key : κ) (d : Timestamp) :
    Renames ρ (q.arm key d).2 (q'.arm key d).2 := by
  have hcancelled := hr.cancel key
  obtain ⟨hindex, hclaimed⟩ := hcancelled.claim
  rw [TimerQueue.arm, TimerQueue.arm, hindex]
  exact hclaimed.place hcancelled.inRange.claim.1 key d

/-! ### Taking the first due timer -/

omit [DecidableEq κ] in
theorem Renames.firstDue (hr : Renames ρ q q') (now : Timestamp) {l : List Alarm}
    (hl : ∀ a ∈ l, a.handle.Within q.slots.size) : q'.firstDue now (l.map ρ.alarm) =
      ((q.firstDue now l).1.map fun p => (p.1, ρ.alarm p.2), (q.firstDue now l).2.map ρ.alarm) := by
  induction l with
  | nil => rfl
  | cons a l ih =>
    have hdue : (ρ.alarm a).deadline = a.deadline := rfl
    have hlive : q'.liveEntry (ρ.alarm a).handle = q.liveEntry a.handle :=
      hr.liveEntry (hl a List.mem_cons_self).generation
    rw [List.map_cons, TimerQueue.firstDue, TimerQueue.firstDue, hdue, hlive]
    split
    · rfl
    · cases q.liveEntry a.handle with
      | some e => rfl
      | none => exact ih fun b hb => hl b (List.mem_cons_of_mem _ hb)

omit [DecidableEq κ] in
theorem firstDue_mem {now : Timestamp} {l rest : List Alarm} {timer : Option (κ × Alarm)}
    (h : q.firstDue now l = (timer, rest)) : (∀ p ∈ timer, p.2 ∈ l) ∧ ∀ a ∈ rest, a ∈ l := by
  cases timer with
  | none =>
    obtain ⟨passed, rfl, -⟩ := firstDue_none h
    exact ⟨by simp, fun a ha => List.mem_append_right _ ha⟩
  | some p =>
    obtain ⟨⟨passed, rfl, -⟩, -⟩ := firstDue_some h
    refine ⟨by simp, fun a ha => ?_⟩
    exact List.mem_append_right _ (List.mem_cons_of_mem _ ha)

theorem Renames.popDue (hr : Renames ρ q q') (now : Timestamp) :
    (q'.popDue now).1 = (q.popDue now).1 ∧ Renames ρ (q.popDue now).2 (q'.popDue now).2 := by
  have hdue := hr.firstDue now hr.inRange.listed
  rw [← hr.agenda] at hdue
  have hlisted := hr.inRange.listed
  cases hf : q.firstDue now q.agenda with
  | mk timer rest =>
    obtain ⟨htimer, hrest⟩ := firstDue_mem hf
    have hleft : Renames ρ { q with agenda := rest } { q' with agenda := rest.map ρ.alarm } :=
      ⟨⟨hr.inRange.slots, hr.inRange.free, hr.inRange.keyed, fun a ha => hlisted a (hrest a ha)⟩,
        hr.slots, hr.size, hr.free, hr.byKey, rfl, hr.nextOrder⟩
    rw [hf] at hdue
    cases timer with
    | none =>
      simp only [TimerQueue.popDue, hf, hdue, Option.map_none]
      exact ⟨trivial, hleft⟩
    | some p =>
      simp only [TimerQueue.popDue, hf, hdue, Option.map_some]
      exact ⟨rfl, (hleft.forget p.1).release (hlisted _ (htimer p rfl))⟩

end

/-! ### Clearing -/

theorem Renames.foldl_release {l : List (κ × TimerHandle)} (hr : Renames ρ q q')
    (hl : ∀ p ∈ l, p.2.Within q.slots.size) :
    Renames ρ (l.foldl (fun q p => q.release p.2) q)
      ((l.map fun p => (p.1, ρ.handle p.2)).foldl (fun q p => q.release p.2) q') := by
  induction l generalizing q q' with
  | nil => exact hr
  | cons p l ih =>
    refine ih (hr.release (hl p List.mem_cons_self)) fun p' hp' => ?_
    rw [q.size_release p.2]
    exact hl p' (List.mem_cons_of_mem _ hp')

theorem Renames.clear (hr : Renames ρ q q') : Renames ρ q.clear q'.clear := by
  have hunbound : Renames ρ { q with byKey := [] } { q' with byKey := [] } :=
    ⟨⟨hr.inRange.slots, hr.inRange.free, by simp, hr.inRange.listed⟩, hr.slots, hr.size, hr.free,
      rfl, hr.agenda, hr.nextOrder⟩
  have hfreed := hunbound.foldl_release (l := q.byKey) hr.inRange.keyed
  rw [← hr.byKey] at hfreed
  exact ⟨⟨hfreed.inRange.slots, hfreed.inRange.free, hfreed.inRange.keyed, by simp [TimerQueue.clear]⟩,
    hfreed.slots, hfreed.size, hfreed.free, hfreed.byKey, rfl, hfreed.nextOrder⟩

/-! ### The start -/

def Renaming.same : Renaming where
  spare := []
  first := 0
  ahead _ := 0
  armed := 0
  nodup := .nil
  below := by simp
  ahead_new _ _ := rfl

theorem InRange.empty : (empty : TimerQueue κ).InRange := by
  constructor <;> simp [TimerQueue.empty]

theorem renames_same : Renames .same (empty : TimerQueue κ) empty := by
  refine ⟨.empty, fun j => ?_, rfl, rfl, rfl, rfl, rfl⟩
  simp [TimerQueue.empty, Renaming.slotAt, Renaming.same]

def Renaming.ofCleared (q : TimerQueue κ) (hq : q.Indexed) : Renaming where
  spare := q.free
  first := q.slots.size
  ahead j := (q.free[j]?.bind fun i => q.slots[i]?).elim 0 (·.generation)
  armed := q.nextOrder
  nodup := hq.free_nodup
  below i hi := by
    obtain ⟨g, hg⟩ := hq.mem_free.mp hi
    exact (Array.getElem?_eq_some_iff.mp hg).1
  ahead_new j hj := by simp [hj]

theorem renames_cleared (hq : q.Indexed) (hrange : q.InRange) (hkeys : q.byKey = [])
    (hagenda : q.agenda = []) : Renames (.ofCleared q hq) empty q := by
  have hspare : (Renaming.ofCleared q hq).spare = q.free := rfl
  refine ⟨.empty, fun j => ?_, ?_, rfl, hkeys, hagenda, (Nat.zero_add _).symm⟩
  · by_cases hj : j < q.free.length
    · obtain ⟨g, hg⟩ := hq.mem_free.mp (List.getElem_mem hj)
      have hahead : (Renaming.ofCleared q hq).ahead j = g := by simp [Renaming.ofCleared, hj, hg]
      have hg' : g % generations = g := Nat.mod_eq_of_lt (hrange.slots hg)
      have hslot : (Renaming.ofCleared q hq).slotAt (empty : TimerQueue κ).slots j =
          some ⟨0, none⟩ := by simp [Renaming.slotAt, empty, hspare, hj]
      rw [Renaming.index_of_lt _ hj, hslot, Option.map_some, Renaming.slot, Renaming.generation,
        hahead, Nat.zero_add, hg']
      exact hg
    · have hslot : (Renaming.ofCleared q hq).slotAt (empty : TimerQueue κ).slots j = none := by
        simp [Renaming.slotAt, empty, hspare, hj]
      rw [Renaming.index_of_le _ (Nat.le_of_not_lt hj), hslot, Option.map_none]
      exact Array.getElem?_eq_none (Nat.le_add_right ..)
  · simp [Renaming.ofCleared, empty]

theorem Renames.cleared [DecidableEq κ] (hr : Renames ρ q q') (hq : q.Indexed) :
    ∃ ρ' : Renaming, Renames ρ' empty q.clear := by
  obtain ⟨freed, hfreed, -, hkeys, -⟩ :=
    hq.clear_induction (P := fun _ => True) trivial fun _ _ _ => trivial
  have hempty : q.clear.byKey = [] := by rw [hfreed, hkeys]
  exact ⟨_, renames_cleared hq.clear.1 hr.clear.inRange hempty rfl⟩

end TimerQueue
end LossWatch
