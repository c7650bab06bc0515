import LossWatch.TimerQueue.Load
import Mathlib.Data.List.Nodup

/-!
Slots, free list and keys of a timer queue agree with each other: each key is bound to the one
handle under which a slot holds it, and the free list names each empty slot once. Every operation
keeps this, for any number of operations and whatever the generations do. Through the view
`deadline?` the queue is then a map from keys to deadlines.
-/

namespace LossWatch.TimerQueue

variable {κ : Type} {q : TimerQueue κ} {h h' : TimerHandle} {key : κ} {d : Timestamp}

theorem liveEntry_eq_some_iff {e : κ × Timestamp} :
    q.liveEntry h = some e ↔ q.slots[h.index]? = some ⟨h.generation, some e⟩ := by
  unfold liveEntry
  cases hs : q.slots[h.index]? with
  | none => simp
  | some slot =>
    obtain ⟨generation, entry⟩ := slot
    by_cases hg : generation = h.generation <;> simp [hg]

def EmptyAt (q : TimerQueue κ) (i : Nat) : Prop := ∃ g, q.slots[i]? = some ⟨g, none⟩

/-- Keys, slots and free list agree. -/
structure Indexed (q : TimerQueue κ) : Prop where
  keys_nodup : q.keys.Nodup
  held : ∀ {key h}, (key, h) ∈ q.byKey → ∃ d, q.liveEntry h = some (key, d)
  keyed : ∀ {key d h}, q.liveEntry h = some (key, d) → (key, h) ∈ q.byKey
  free_nodup : q.free.Nodup
  mem_free : ∀ {i}, i ∈ q.free ↔ q.EmptyAt i

theorem Indexed.empty : (empty : TimerQueue κ).Indexed := by
  constructor <;> simp [TimerQueue.empty, keys, liveEntry, EmptyAt]

theorem Indexed.handle_unique (hq : q.Indexed) (hm : (key, h) ∈ q.byKey)
    (hm' : (key, h') ∈ q.byKey) : h = h' := by
  have he := List.inj_on_of_nodup_map hq.keys_nodup hm hm' rfl
  exact (Prod.mk.inj he).2

/-! ### Releasing a live timer -/

theorem release_of_live {e : κ × Timestamp} (hl : q.liveEntry h = some e) :
    q.release h = { q with
      slots := q.slots.setIfInBounds h.index ⟨(h.generation + 1) % generations, none⟩
      free := h.index :: q.free } := by
  have hs := liveEntry_eq_some_iff.mp hl
  simp [release, hs]

theorem slots_release {e : κ × Timestamp} (hl : q.liveEntry h = some e) (i : Nat) :
    (q.release h).slots[i]? =
      if i = h.index then some ⟨(h.generation + 1) % generations, none⟩ else q.slots[i]? := by
  have hs := liveEntry_eq_some_iff.mp hl
  have hlt : h.index < q.slots.size := (Array.getElem?_eq_some_iff.mp hs).1
  rw [release_of_live hl, Array.getElem?_setIfInBounds]
  by_cases hi : i = h.index
  · subst hi; simp [hlt]
  · simp [hi, Ne.symm hi]

theorem liveEntry_release {e : κ × Timestamp} (hl : q.liveEntry h = some e) (h' : TimerHandle) :
    (q.release h).liveEntry h' = if h' = h then none else q.liveEntry h' := by
  have hs := liveEntry_eq_some_iff.mp hl
  have hr := slots_release hl h'.index
  by_cases hi : h'.index = h.index
  · have hgone : (q.release h).liveEntry h' = none := by
      rw [if_pos hi] at hr; simp [liveEntry, hr]
    rw [hgone]
    by_cases he : h' = h
    · rw [if_pos he]
    · have hg : h.generation ≠ h'.generation := by
        intro hg; cases h; cases h'; exact he (by simp_all)
      rw [if_neg he, liveEntry, hi, hs]
      simp [hg]
  · have he : h' ≠ h := fun he => hi (by rw [he])
    rw [if_neg hi] at hr
    rw [if_neg he, liveEntry, liveEntry, hr]

@[simp] theorem byKey_release (q : TimerQueue κ) (h : TimerHandle) :
    (q.release h).byKey = q.byKey := by
  unfold release; split <;> (try split) <;> rfl

@[simp] theorem nextOrder_release (q : TimerQueue κ) (h : TimerHandle) :
    (q.release h).nextOrder = q.nextOrder := by
  unfold release; split <;> (try split) <;> rfl

theorem Indexed.release_forget [DecidableEq κ] (hq : q.Indexed)
    (hl : q.liveEntry h = some (key, d)) : ((q.forget key).release h).Indexed := by
  have hl' : (q.forget key).liveEntry h = some (key, d) := hl
  have hmem := hq.keyed hl
  have hother : ∀ {k' h'}, (k', h') ∈ q.byKey → (k' = key ↔ h' = h) := by
    intro k' h' hm
    constructor
    · rintro rfl; exact hq.handle_unique hm hmem
    · rintro rfl
      obtain ⟨d', hd'⟩ := hq.held hm
      simp_all
  constructor
  case keys_nodup =>
    have hk : ((q.forget key).release h).keys = q.keys.filter (· ≠ key) := by
      simp [keys, forget, List.filter_map, Function.comp_def]
    rw [hk]
    exact hq.keys_nodup.filter _
  case held =>
    intro k' h' hm
    simp only [byKey_release, forget, List.mem_filter, decide_eq_true_eq] at hm
    obtain ⟨d', hd'⟩ := hq.held hm.1
    have hne : h' ≠ h := fun he => hm.2 ((hother hm.1).mpr he)
    exact ⟨d', by rw [liveEntry_release hl', if_neg hne]; exact hd'⟩
  case keyed =>
    intro k' d' h' hd'
    rw [liveEntry_release hl'] at hd'
    by_cases he : h' = h
    · simp [he] at hd'
    · rw [if_neg he] at hd'
      have hm := hq.keyed (q := q) hd'
      simp only [byKey_release, forget, List.mem_filter, decide_eq_true_eq]
      exact ⟨hm, fun hk => he ((hother hm).mp hk)⟩
  case free_nodup =>
    rw [release_of_live hl']
    refine List.nodup_cons.mpr ⟨?_, hq.free_nodup⟩
    intro hfree
    obtain ⟨g, hg⟩ := hq.mem_free.mp hfree
    rw [liveEntry_eq_some_iff.mp hl] at hg
    simp at hg
  case mem_free =>
    intro i
    have hf : ((q.forget key).release h).free = h.index :: q.free := by
      rw [release_of_live hl']; rfl
    simp only [hf, List.mem_cons, EmptyAt, slots_release hl']
    by_cases hi : i = h.index
    · simp [hi]
    · simp only [hi, false_or, if_false]
      exact hq.mem_free

/-! ### Placing a timer into an empty slot -/

structure Claimed (q : TimerQueue κ) (i : Nat) : Prop where
  keys_nodup : q.keys.Nodup
  held : ∀ {key h}, (key, h) ∈ q.byKey → ∃ d, q.liveEntry h = some (key, d)
  keyed : ∀ {key d h}, q.liveEntry h = some (key, d) → (key, h) ∈ q.byKey
  free_nodup : q.free.Nodup
  mem_free : ∀ {j}, j ∈ q.free ↔ j ≠ i ∧ q.EmptyAt j
  empty : q.EmptyAt i

theorem claim_of_free {i : Nat} {rest : List Nat} (hf : q.free = i :: rest) :
    q.claim = (i, { q with free := rest }) := by
  unfold claim; simp [hf]

theorem claim_of_full (hf : q.free = []) :
    q.claim = (q.slots.size, { q with slots := q.slots.push ⟨0, none⟩ }) := by
  unfold claim; simp [hf]

@[simp] theorem byKey_claim (q : TimerQueue κ) : q.claim.2.byKey = q.byKey := by
  unfold claim; split <;> rfl

@[simp] theorem nextOrder_claim (q : TimerQueue κ) : q.claim.2.nextOrder = q.nextOrder := by
  unfold claim; split <;> rfl

theorem slots_claim (q : TimerQueue κ) (i : Nat) :
    q.claim.2.slots[i]? = q.slots[i]? ∨
      i = q.slots.size ∧ q.claim.2.slots[i]? = some ⟨0, none⟩ := by
  cases hf : q.free with
  | cons j rest => rw [claim_of_free hf]; exact Or.inl rfl
  | nil =>
    rw [claim_of_full hf, Array.getElem?_push]
    by_cases hi : i = q.slots.size <;> simp [hi]

theorem slots_claim_of_mem {i : Nat} {s : TimerSlot κ} (hs : q.slots[i]? = some s) :
    q.claim.2.slots[i]? = some s := by
  have hlt : i < q.slots.size := (Array.getElem?_eq_some_iff.mp hs).1
  rcases q.slots_claim i with he | ⟨hi, -⟩
  · rw [he, hs]
  · omega

@[simp] theorem liveEntry_claim (q : TimerQueue κ) (h : TimerHandle) :
    q.claim.2.liveEntry h = q.liveEntry h := by
  rcases q.slots_claim h.index with he | ⟨hi, he⟩
  · rw [liveEntry, liveEntry, he]
  · have hout : q.slots[h.index]? = none := by simp [hi]
    rw [liveEntry, liveEntry, he, hout]
    simp

theorem Indexed.claim (hq : q.Indexed) : q.claim.2.Claimed q.claim.1 := by
  have hnodup := hq.free_nodup
  have hmem := @hq.mem_free
  have hkeys : q.claim.2.keys.Nodup := by rw [keys, byKey_claim]; exact hq.keys_nodup
  have hheld : ∀ {key h}, (key, h) ∈ q.claim.2.byKey → ∃ d, q.claim.2.liveEntry h = some (key, d) := by
    simpa using @hq.held
  have hkeyed : ∀ {key d h}, q.claim.2.liveEntry h = some (key, d) → (key, h) ∈ q.claim.2.byKey := by
    simpa using @hq.keyed
  -- Either a new slot, which no list names yet, or the head of the free list.
  cases hf : q.free with
  | nil =>
    rw [claim_of_full hf] at *
    refine ⟨hkeys, hheld, hkeyed, hnodup, ?_, ⟨0, by simp⟩⟩
    intro j
    rw [hmem, EmptyAt, EmptyAt, Array.getElem?_push]
    by_cases he : j = q.slots.size <;> simp [he]
  | cons i rest =>
    rw [claim_of_free hf] at *
    rw [hf] at hnodup hmem
    obtain ⟨hi, hrest⟩ := List.nodup_cons.mp hnodup
    refine ⟨hkeys, hheld, hkeyed, hrest, ?_, hmem.mp (List.mem_cons_self ..)⟩
    intro j
    have hj := hmem (i := j)
    rw [List.mem_cons] at hj
    by_cases he : j = i
    · subst he; simp [hi]
    · simpa [he, EmptyAt] using hj

@[simp] theorem slots_compact (q : TimerQueue κ) : q.compact.slots = q.slots := by
  unfold compact; split <;> rfl

@[simp] theorem byKey_compact (q : TimerQueue κ) : q.compact.byKey = q.byKey := by
  unfold compact; split <;> rfl

@[simp] theorem free_compact (q : TimerQueue κ) : q.compact.free = q.free := by
  unfold compact; split <;> rfl

@[simp] theorem nextOrder_compact (q : TimerQueue κ) : q.compact.nextOrder = q.nextOrder := by
  unfold compact; split <;> rfl

@[simp] theorem liveEntry_compact (q : TimerQueue κ) (h : TimerHandle) :
    q.compact.liveEntry h = q.liveEntry h := by
  simp [liveEntry]

theorem handle_place {i g : Nat} (hs : q.slots[i]? = some ⟨g, none⟩) :
    (q.place i key d).1 = ⟨i, g⟩ := by
  simp [place, hs]

theorem slots_place {i g : Nat} (hs : q.slots[i]? = some ⟨g, none⟩) (j : Nat) :
    (q.place i key d).2.slots[j]? = if j = i then some ⟨g, some (key, d)⟩ else q.slots[j]? := by
  have hlt : i < q.slots.size := (Array.getElem?_eq_some_iff.mp hs).1
  simp only [place, slots_compact, hs, Option.map_some, Option.getD_some,
    Array.getElem?_setIfInBounds]
  by_cases hj : j = i
  · subst hj; simp [hlt]
  · simp [hj, Ne.symm hj]

theorem byKey_place {i g : Nat} (hs : q.slots[i]? = some ⟨g, none⟩) :
    (q.place i key d).2.byKey = (key, ⟨i, g⟩) :: q.byKey := by
  simp [place, hs]

theorem liveEntry_place {i g : Nat} (hs : q.slots[i]? = some ⟨g, none⟩) (h : TimerHandle) :
    (q.place i key d).2.liveEntry h = if h = ⟨i, g⟩ then some (key, d) else q.liveEntry h := by
  obtain ⟨j, g'⟩ := h
  rw [liveEntry, liveEntry, slots_place hs]
  by_cases hj : j = i
  · subst hj
    by_cases hg : g = g'
    · simp [hg]
    · simp [hg, Ne.symm hg, hs]
  · simp [hj]

theorem Claimed.place {i : Nat} (hq : q.Claimed i) (hnew : key ∉ q.keys) :
    (q.place i key d).2.Indexed := by
  obtain ⟨g, hs⟩ := hq.empty
  have hdead : q.liveEntry ⟨i, g⟩ = none := by simp [liveEntry, hs]
  constructor
  case keys_nodup =>
    rw [keys, byKey_place hs]
    exact List.nodup_cons.mpr ⟨hnew, hq.keys_nodup⟩
  case held =>
    intro k' h' hm
    rw [byKey_place hs, List.mem_cons] at hm
    rw [liveEntry_place hs]
    by_cases he : h' = ⟨i, g⟩
    · rcases hm with hm | hm
      · simp_all
      · obtain ⟨d', hd'⟩ := hq.held hm
        simp_all
    · rcases hm with hm | hm
      · simp_all
      · rw [if_neg he]; exact hq.held hm
  case keyed =>
    intro k' d' h' hl
    rw [liveEntry_place hs] at hl
    rw [byKey_place hs, List.mem_cons]
    by_cases he : h' = ⟨i, g⟩
    · simp_all
    · rw [if_neg he] at hl
      exact Or.inr (hq.keyed hl)
  case free_nodup => simpa [TimerQueue.place] using hq.free_nodup
  case mem_free =>
    intro j
    have hf : (q.place i key d).2.free = q.free := by simp [TimerQueue.place]
    rw [hf, hq.mem_free, EmptyAt, EmptyAt, slots_place hs]
    by_cases hj : j = i <;> simp [hj]

end LossWatch.TimerQueue
