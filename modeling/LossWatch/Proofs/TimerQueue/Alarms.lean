import LossWatch.Proofs.TimerQueue.Deadlines

/-!
What the agenda of a timer queue tells however many timers were armed. It lists its alarms by
deadline, and every live timer has one at its own deadline. Once the generations of a slot have come
round, a timer may come up with the alarm of another one long released, so early at worst: what comes
up is due no later than any live timer, and if nothing comes up nothing is due.
-/

namespace LossWatch

namespace Timestamp

theorem le_iff {a b : Timestamp} : a ≤ b ↔ a.micros ≤ b.micros := Iff.rfl

theorem eq_iff {a b : Timestamp} : a = b ↔ a.micros = b.micros :=
  ⟨fun h => h ▸ rfl, ext_micros⟩

end Timestamp

namespace TimerQueue

variable {κ : Type} {q q' : TimerQueue κ} {h : TimerHandle} {key : κ} {d now due : Timestamp}

theorem enlist_perm (a : Alarm) (l : List Alarm) : (enlist a l).Perm (a :: l) := by
  induction l with
  | nil => rfl
  | cons b l ih =>
    unfold enlist
    by_cases hb : b.deadline ≤ a.deadline
    · rw [if_pos hb]
      exact (ih.cons b).trans (.swap a b l)
    · rw [if_neg hb]

theorem mem_enlist {a b : Alarm} {l : List Alarm} : b ∈ enlist a l ↔ b = a ∨ b ∈ l := by
  rw [(enlist_perm a l).mem_iff, List.mem_cons]

theorem place_eq_compact {i g : Nat} {entry : Option (κ × Timestamp)}
    (hs : q.slots[i]? = some ⟨g, entry⟩) :
    (q.place i key d).2 = compact { q with
      slots := q.slots.setIfInBounds i ⟨g, some (key, d)⟩
      byKey := (key, ⟨i, g⟩) :: q.byKey
      agenda := enlist ⟨d, q.nextOrder, ⟨i, g⟩⟩ q.agenda
      nextOrder := q.nextOrder + 1 } := by
  simp [place, hs]

/-! ### Every live timer has its alarm -/

def Alarmed (q : TimerQueue κ) : Prop :=
  ∀ ⦃h key d⦄, q.liveEntry h = some (key, d) → ∃ n, ⟨d, n, h⟩ ∈ q.agenda

namespace Alarmed

theorem empty : (empty : TimerQueue κ).Alarmed := by
  intro h key d hl
  simp [TimerQueue.empty, liveEntry] at hl

theorem with_agenda (hq : q.Alarmed) {l : List Alarm}
    (hdead : ∀ a ∈ q.agenda, a ∉ l → q.liveEntry a.handle = none) :
    { q with agenda := l }.Alarmed := by
  intro h key d hl
  have hl' : q.liveEntry h = some (key, d) := hl
  obtain ⟨n, hn⟩ := hq hl'
  by_cases hin : (⟨d, n, h⟩ : Alarm) ∈ l
  · exact ⟨n, hin⟩
  · simp [hdead _ hn hin] at hl'

theorem release_forget [DecidableEq κ] (hq : q.Alarmed) (hl : q.liveEntry h = some (key, d))
    {l : List Alarm}
    (hdead : ∀ a ∈ q.agenda, a ∉ l → a.handle = h ∨ q.liveEntry a.handle = none) :
    (({ q with agenda := l }.forget key).release h).Alarmed := by
  have hl' : ({ q with agenda := l }.forget key).liveEntry h = some (key, d) := hl
  intro h' k d' hlive
  rw [liveEntry_release hl'] at hlive
  rw [agenda_release]
  by_cases hh : h' = h
  · simp [hh] at hlive
  · rw [if_neg hh] at hlive
    have hlive' : q.liveEntry h' = some (k, d') := hlive
    obtain ⟨n, hn⟩ := hq hlive'
    by_cases hin : (⟨d', n, h'⟩ : Alarm) ∈ l
    · exact ⟨n, hin⟩
    · rcases hdead _ hn hin with he | he
      · exact absurd he hh
      · simp [he] at hlive'

theorem claim (hq : q.Alarmed) : q.claim.2.Alarmed := by
  intro h key d hl
  rw [liveEntry_claim] at hl
  rw [agenda_claim]
  exact hq hl

theorem compact (hq : q.Alarmed) : q.compact.Alarmed := by
  unfold TimerQueue.compact
  split
  · exact hq
  · apply hq.with_agenda
    intro a ha hout
    simpa [ha] using hout

theorem fill {i g : Nat} (hq : q.Alarmed) (hs : q.slots[i]? = some ⟨g, none⟩) :
    { q with
      slots := q.slots.setIfInBounds i ⟨g, some (key, d)⟩
      byKey := (key, ⟨i, g⟩) :: q.byKey
      agenda := enlist ⟨d, q.nextOrder, ⟨i, g⟩⟩ q.agenda
      nextOrder := q.nextOrder + 1 }.Alarmed := by
  have hlive : ∀ h, (q.place i key d).2.liveEntry h =
      if h = ⟨i, g⟩ then some (key, d) else q.liveEntry h := liveEntry_place hs
  rw [place_eq_compact hs] at hlive
  intro h k d' hl
  rw [← liveEntry_compact, hlive] at hl
  by_cases hh : h = ⟨i, g⟩
  · rw [if_pos hh] at hl
    have hd : d = d' := congrArg Prod.snd (Option.some.inj hl)
    exact ⟨q.nextOrder, mem_enlist.mpr (Or.inl (by rw [hd, hh]))⟩
  · rw [if_neg hh] at hl
    obtain ⟨n, hn⟩ := hq hl
    exact ⟨n, mem_enlist.mpr (Or.inr hn)⟩

theorem place {i g : Nat} (hq : q.Alarmed) (hs : q.slots[i]? = some ⟨g, none⟩) :
    (q.place i key d).2.Alarmed := by
  rw [place_eq_compact hs]
  exact (hq.fill hs).compact

end Alarmed

/-! ### The agenda lists alarms by deadline -/

theorem chronological_enlist {a : Alarm} {l : List Alarm}
    (hl : l.Pairwise (·.deadline ≤ ·.deadline)) :
    (enlist a l).Pairwise (·.deadline ≤ ·.deadline) := by
  induction l with
  | nil => simp [enlist]
  | cons b l ih =>
    obtain ⟨hb, hl⟩ := List.pairwise_cons.mp hl
    rw [enlist]
    by_cases hd : b.deadline ≤ a.deadline
    · rw [if_pos hd]
      refine List.pairwise_cons.mpr ⟨fun c hc => ?_, ih hl⟩
      rcases mem_enlist.mp hc with rfl | hc
      · exact hd
      · exact hb c hc
    · rw [if_neg hd]
      have hab : a.deadline ≤ b.deadline := Nat.le_of_lt (Nat.lt_of_not_le hd)
      refine List.pairwise_cons.mpr ⟨fun c hc => ?_, List.pairwise_cons.mpr ⟨hb, hl⟩⟩
      rcases List.mem_cons.mp hc with rfl | hc
      · exact hab
      · exact Nat.le_trans hab (hb c hc)

/-- The agenda shows when the live timers are due, whatever the generations do. -/
structure Orderly (q : TimerQueue κ) : Prop where
  indexed : q.Indexed
  alarmed : q.Alarmed
  chronological : q.agenda.Pairwise (·.deadline ≤ ·.deadline)

def NoneBefore [DecidableEq κ] (q : TimerQueue κ) (t : Timestamp) : Prop :=
  ∀ ⦃key d⦄, q.deadline? key = some d → t ≤ d

def AllAfter [DecidableEq κ] (q : TimerQueue κ) (t : Timestamp) : Prop :=
  ∀ ⦃key d⦄, q.deadline? key = some d → t < d

namespace Orderly

theorem empty : (empty : TimerQueue κ).Orderly :=
  ⟨.empty, .empty, .nil⟩

variable [DecidableEq κ]

theorem cancel (hq : q.Orderly) (key : κ) : (q.cancel key).2.Orderly := by
  refine ⟨hq.indexed.cancel key, ?_, by rw [agenda_cancel]; exact hq.chronological⟩
  rcases hq.indexed.cancel_cases key with ⟨-, he⟩ | ⟨h, d, hl, he⟩
  · rw [he]
    exact hq.alarmed
  · rw [he]
    exact hq.alarmed.release_forget hl fun a ha hout => absurd ha hout

theorem arm (hq : q.Orderly) (key : κ) (d : Timestamp) : (q.arm key d).2.Orderly := by
  obtain ⟨g, hg⟩ := (hq.indexed.cancel key).claim.empty
  refine ⟨hq.indexed.arm key d, (hq.cancel key).alarmed.claim.place hg, ?_⟩
  have hclaimed : (q.cancel key).2.claim.2.agenda.Pairwise (·.deadline ≤ ·.deadline) := by
    rw [agenda_claim, agenda_cancel]
    exact hq.chronological
  rw [TimerQueue.arm, place_eq_compact hg, TimerQueue.compact]
  split
  · exact chronological_enlist hclaimed
  · exact (chronological_enlist hclaimed).filter _

theorem popDue_some (hq : q.Orderly) (he : q.popDue now = (some (key, due), q')) :
    q'.Orderly ∧ (∃ d, q.deadline? key = some d ∧ due ≤ d) ∧ q'.NoneBefore due := by
  obtain ⟨hindexed, -, hdeadline⟩ := hq.indexed.popDue_some he
  obtain ⟨a, rest, hfirst, rfl, rfl⟩ := TimerQueue.popDue_some he
  obtain ⟨⟨passed, hagenda, hpassed⟩, -, d, hlive⟩ := firstDue_some hfirst
  have hsorted := hq.chronological
  rw [hagenda] at hsorted
  have hrest := (List.pairwise_append.mp hsorted).2.1
  have hleast : ∀ {h k d'}, q.liveEntry h = some (k, d') → a.deadline ≤ d' := by
    intro h k d' hl
    obtain ⟨n, hn⟩ := hq.alarmed hl
    rw [hagenda] at hn
    rcases List.mem_append.mp hn with hdead | hin
    · simp [hpassed _ hdead] at hl
    · rcases List.mem_cons.mp hin with rfl | hin
      · exact Nat.le_refl _
      · exact (List.pairwise_cons.mp hrest).1 _ hin
  refine ⟨⟨hindexed, hq.alarmed.release_forget hlive ?_, ?_⟩, ⟨d, ?_, hleast hlive⟩, ?_⟩
  · intro b hb hout
    rw [hagenda] at hb
    rcases List.mem_append.mp hb with hb | hb
    · exact Or.inr (hpassed b hb)
    · rcases List.mem_cons.mp hb with rfl | hb
      · exact Or.inl rfl
      · exact absurd hb hout
  · rw [agenda_release]
    exact (List.pairwise_cons.mp hrest).2
  · exact hq.indexed.deadline?_eq_some_iff.mpr ⟨_, hlive⟩
  · intro k d' hk
    rw [hdeadline] at hk
    by_cases hsame : k = key
    · simp [hsame] at hk
    · rw [if_neg hsame] at hk
      obtain ⟨h, hl⟩ := hq.indexed.deadline?_eq_some_iff.mp hk
      exact hleast hl

theorem popDue_none (hq : q.Orderly) (he : q.popDue now = (none, q')) :
    q'.Orderly ∧ q'.AllAfter now := by
  obtain ⟨hindexed, hdeadline⟩ := hq.indexed.popDue_none he
  obtain ⟨rest, hfirst, rfl⟩ := TimerQueue.popDue_none he
  obtain ⟨passed, hagenda, hpassed, hhead⟩ := firstDue_none hfirst
  have hsorted := hq.chronological
  rw [hagenda] at hsorted
  have hrest := (List.pairwise_append.mp hsorted).2.1
  refine ⟨⟨hindexed, hq.alarmed.with_agenda ?_, hrest⟩, ?_⟩
  · intro a ha hout
    rw [hagenda] at ha
    exact hpassed a ((List.mem_append.mp ha).resolve_right hout)
  · intro k d hk
    rw [hdeadline] at hk
    obtain ⟨h, hl⟩ := hq.indexed.deadline?_eq_some_iff.mp hk
    obtain ⟨n, hn⟩ := hq.alarmed hl
    rw [hagenda] at hn
    have hin : (⟨d, n, h⟩ : Alarm) ∈ rest := by
      rcases List.mem_append.mp hn with hdead | hin
      · simp [hpassed _ hdead] at hl
      · exact hin
    -- The first alarm that is left is not due yet, and all others are due no earlier.
    cases rest with
    | nil => simp at hin
    | cons b rest =>
      have hb : now < b.deadline := hhead b (by simp)
      rcases List.mem_cons.mp hin with rfl | hin
      · exact hb
      · exact Nat.lt_of_lt_of_le hb ((List.pairwise_cons.mp hrest).1 _ hin)

theorem clear (hq : q.Orderly) : q.clear.Orderly := by
  obtain ⟨hindexed, hnone⟩ := hq.indexed.clear
  refine ⟨hindexed, ?_, .nil⟩
  intro h key d hl
  have hlive := hindexed.deadline?_eq_some_iff.mpr ⟨h, hl⟩
  simp [hnone key] at hlive

end Orderly

/-! ### No live timer is due before an instant -/

namespace NoneBefore

variable [DecidableEq κ] {t t' : Timestamp}

theorem mono (h : q.NoneBefore t') (hle : t ≤ t') : q.NoneBefore t :=
  fun _ _ hd => Nat.le_trans hle (h hd)

theorem of_allAfter (h : q.AllAfter t) : q.NoneBefore t :=
  fun _ _ hd => Nat.le_of_lt (h hd)

theorem cancel (hq : q.Indexed) (h : q.NoneBefore t) (key : κ) :
    (q.cancel key).2.NoneBefore t := by
  intro k d hd
  rw [hq.deadline?_cancel] at hd
  by_cases hk : k = key
  · simp [hk] at hd
  · exact h (by rwa [if_neg hk] at hd)

theorem arm (hq : q.Indexed) (h : q.NoneBefore t) (hdue : t ≤ due) (key : κ) :
    (q.arm key due).2.NoneBefore t := by
  intro k d hd
  rw [hq.deadline?_arm] at hd
  by_cases hk : k = key
  · rw [if_pos hk] at hd
    exact Option.some.inj hd ▸ hdue
  · exact h (by rwa [if_neg hk] at hd)

theorem clear (hq : q.Indexed) : q.clear.NoneBefore t := by
  intro k d hd
  simp [hq.clear.2 k] at hd

end NoneBefore

end TimerQueue
end LossWatch
