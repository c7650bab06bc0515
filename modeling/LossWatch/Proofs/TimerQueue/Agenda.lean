import LossWatch.Proofs.TimerQueue.Alarms

/-!
The agenda of a timer queue, as long as fewer timers were armed than a slot has generations. It is
in strict order of deadline and arming; no two alarms share a handle, every live timer has an alarm
at its own deadline, and the handles of all other alarms are spent for good. So the first live alarm
is the timer that is due first, and its deadline is the one the slot holds.
-/

namespace LossWatch

/-- Due earlier, or due at the same time and armed earlier. -/
def Alarm.Before (a b : Alarm) : Prop :=
  a.deadline < b.deadline ∨ a.deadline = b.deadline ∧ a.order < b.order

theorem Alarm.Before.deadline_le {a b : Alarm} (h : a.Before b) : a.deadline ≤ b.deadline := by
  rcases h with h | ⟨h, -⟩
  · exact Nat.le_of_lt h
  · exact Nat.le_of_eq (Timestamp.eq_iff.mp h)

/-- The timers a slot has held, the present one included. -/
def TimerSlot.uses {κ : Type} (s : TimerSlot κ) : Nat :=
  s.generation + if s.entry.isSome then 1 else 0

namespace TimerQueue

variable {κ : Type} {q q' : TimerQueue κ} {h h' : TimerHandle} {key : κ} {d : Timestamp}

def Issued (q : TimerQueue κ) (h : TimerHandle) : Prop :=
  ∃ s, q.slots[h.index]? = some s ∧ h.generation < s.uses

/-- The agenda tells when each live timer is due. -/
structure Scheduled (q : TimerQueue κ) : Prop where
  sorted : q.agenda.Pairwise Alarm.Before
  order_lt : ∀ {a}, a ∈ q.agenda → a.order < q.nextOrder
  handles_nodup : (q.agenda.map (·.handle)).Nodup
  issued : ∀ {a}, a ∈ q.agenda → q.Issued a.handle
  alarmed : q.Alarmed
  uses_le : ∀ {i : Nat} {s : TimerSlot κ}, q.slots[i]? = some s → s.uses ≤ q.nextOrder

theorem Scheduled.empty : (empty : TimerQueue κ).Scheduled := by
  refine ⟨.nil, ?_, .nil, ?_, .empty, ?_⟩ <;> simp [TimerQueue.empty]

theorem issued_of_live {e : κ × Timestamp} (hl : q.liveEntry h = some e) : q.Issued h :=
  ⟨_, liveEntry_eq_some_iff.mp hl, by simp [TimerSlot.uses]⟩

theorem not_issued_of_empty {i g : Nat} (hs : q.slots[i]? = some ⟨g, none⟩) :
    ¬ q.Issued ⟨i, g⟩ := by
  rintro ⟨s, he, hlt⟩
  have hsame : s = ⟨g, none⟩ := Option.some.inj (he.symm.trans hs)
  rw [hsame] at hlt
  exact Nat.lt_irrefl _ hlt

theorem Scheduled.alarm_unique (hs : q.Scheduled) {a b : Alarm} (ha : a ∈ q.agenda)
    (hb : b ∈ q.agenda) (hh : a.handle = b.handle) : a = b :=
  List.inj_on_of_nodup_map hs.handles_nodup ha hb hh

theorem Scheduled.deadline_of_live (hs : q.Scheduled) {a : Alarm} (ha : a ∈ q.agenda)
    (hl : q.liveEntry a.handle = some (key, d)) : a.deadline = d := by
  obtain ⟨n, hn⟩ := hs.alarmed hl
  rw [hs.alarm_unique ha hn rfl]

theorem Scheduled.with_agenda (hs : q.Scheduled) {l : List Alarm} (hsub : l.Sublist q.agenda)
    (hdead : ∀ a ∈ q.agenda, a ∉ l → q.liveEntry a.handle = none) :
    { q with agenda := l }.Scheduled := by
  exact ⟨hs.sorted.sublist hsub, fun ha => hs.order_lt (hsub.subset ha),
    hs.handles_nodup.sublist (hsub.map _), fun ha => hs.issued (hsub.subset ha),
    hs.alarmed.with_agenda hdead, hs.uses_le⟩

/-! ### Releasing -/

theorem slots_release_of_lt (hs : q.Scheduled) (few : q.nextOrder < generations)
    (hl : q.liveEntry h = some (key, d)) (i : Nat) :
    (q.release h).slots[i]? =
      if i = h.index then some ⟨h.generation + 1, none⟩ else q.slots[i]? := by
  have hu := hs.uses_le (liveEntry_eq_some_iff.mp hl)
  simp only [TimerSlot.uses, Option.isSome_some, if_true] at hu
  rw [slots_release hl, Nat.mod_eq_of_lt (by omega)]

theorem Issued.release (hi : q.Issued h') (hs : q.Scheduled) (few : q.nextOrder < generations)
    (hl : q.liveEntry h = some (key, d)) : (q.release h).Issued h' := by
  obtain ⟨s, he, hlt⟩ := hi
  have hr := slots_release_of_lt hs few hl h'.index
  by_cases hx : h'.index = h.index
  · rw [if_pos hx] at hr
    have hsame := liveEntry_eq_some_iff.mp hl
    rw [← hx, he] at hsame
    rw [Option.some.inj hsame] at hlt
    exact ⟨_, hr, by simpa [TimerSlot.uses] using hlt⟩
  · rw [if_neg hx] at hr
    exact ⟨s, hr.trans he, hlt⟩

theorem Scheduled.release_forget [DecidableEq κ] (hs : q.Scheduled)
    (few : q.nextOrder < generations) (hl : q.liveEntry h = some (key, d)) {l : List Alarm}
    (hsub : l.Sublist q.agenda)
    (hdead : ∀ a ∈ q.agenda, a ∉ l → a.handle = h ∨ q.liveEntry a.handle = none) :
    (({ q with agenda := l }.forget key).release h).Scheduled := by
  have hl' : ({ q with agenda := l }.forget key).liveEntry h = some (key, d) := hl
  have hagenda : (({ q with agenda := l }.forget key).release h).agenda = l := by
    rw [agenda_release]; rfl
  have hslots : (({ q with agenda := l }.forget key).release h).slots = (q.release h).slots := by
    rw [release_of_live hl', release_of_live hl]; rfl
  have hissued : ∀ {h'}, q.Issued h' →
      (({ q with agenda := l }.forget key).release h).Issued h' := by
    intro h' hi
    obtain ⟨s, he, hlt⟩ := hi.release hs few hl
    exact ⟨s, by rw [hslots]; exact he, hlt⟩
  constructor
  case sorted => rw [hagenda]; exact hs.sorted.sublist hsub
  case order_lt =>
    intro a ha
    rw [hagenda] at ha
    rw [nextOrder_release]
    exact hs.order_lt (hsub.subset ha)
  case handles_nodup => rw [hagenda]; exact hs.handles_nodup.sublist (hsub.map _)
  case issued =>
    intro a ha
    rw [hagenda] at ha
    exact hissued (hs.issued (hsub.subset ha))
  case alarmed => exact hs.alarmed.release_forget hl hdead
  case uses_le =>
    intro i s hi
    rw [hslots, slots_release_of_lt hs few hl] at hi
    rw [nextOrder_release]
    by_cases hx : i = h.index
    · have hu := hs.uses_le (liveEntry_eq_some_iff.mp hl)
      rw [if_pos hx] at hi
      rw [← Option.some.inj hi]
      simpa [TimerSlot.uses, forget] using hu
    · rw [if_neg hx] at hi
      exact hs.uses_le hi

/-! ### Arming -/

theorem sorted_enlist {a : Alarm} {l : List Alarm} (hl : l.Pairwise Alarm.Before)
    (hlast : ∀ b ∈ l, b.order < a.order) : (enlist a l).Pairwise Alarm.Before := by
  induction l with
  | nil => simp [enlist]
  | cons b l ih =>
    obtain ⟨hb, hl⟩ := List.pairwise_cons.mp hl
    have hlast' : ∀ c ∈ l, c.order < a.order := fun c hc => hlast c (List.mem_cons_of_mem _ hc)
    have hab : b.order < a.order := hlast b (List.mem_cons_self ..)
    unfold enlist
    by_cases hd : b.deadline ≤ a.deadline
    · rw [if_pos hd]
      refine List.pairwise_cons.mpr ⟨?_, ih hl hlast'⟩
      intro c hc
      rcases mem_enlist.mp hc with rfl | hc
      · rcases Nat.lt_or_eq_of_le hd with hlt | heq
        · exact Or.inl hlt
        · exact Or.inr ⟨Timestamp.ext_micros heq, hab⟩
      · exact hb c hc
    · rw [if_neg hd]
      have hlt : a.deadline < b.deadline := Nat.lt_of_not_le hd
      refine List.pairwise_cons.mpr ⟨?_, List.pairwise_cons.mpr ⟨hb, hl⟩⟩
      intro c hc
      rcases List.mem_cons.mp hc with rfl | hc
      · exact Or.inl hlt
      · exact Or.inl (Nat.lt_of_lt_of_le hlt (hb c hc).deadline_le)

theorem Issued.claim (hi : q.Issued h) : q.claim.2.Issued h := by
  obtain ⟨s, he, hlt⟩ := hi
  exact ⟨s, slots_claim_of_mem he, hlt⟩

theorem Scheduled.claim (hs : q.Scheduled) : q.claim.2.Scheduled := by
  constructor
  case sorted => rw [agenda_claim]; exact hs.sorted
  case order_lt => rw [agenda_claim, nextOrder_claim]; exact hs.order_lt
  case handles_nodup => rw [agenda_claim]; exact hs.handles_nodup
  case issued => rw [agenda_claim]; exact fun ha => (hs.issued ha).claim
  case alarmed => exact hs.alarmed.claim
  case uses_le =>
    intro i s hi
    rw [nextOrder_claim]
    rcases q.slots_claim i with he | ⟨-, he⟩
    · exact hs.uses_le (he ▸ hi)
    · rw [← Option.some.inj (he.symm.trans hi)]
      exact Nat.zero_le _

theorem Scheduled.compact (hs : q.Scheduled) : q.compact.Scheduled := by
  unfold TimerQueue.compact
  split
  · exact hs
  · apply hs.with_agenda List.filter_sublist
    intro a ha hout
    simpa [ha] using hout

theorem Issued.place {i g : Nat} (hs : q.slots[i]? = some ⟨g, none⟩) (hi : q.Issued h) :
    (q.place i key d).2.Issued h := by
  obtain ⟨s, he, hlt⟩ := hi
  have hp : (q.place i key d).2.slots[h.index]? =
      if h.index = i then some ⟨g, some (key, d)⟩ else q.slots[h.index]? := slots_place hs h.index
  by_cases hx : h.index = i
  · rw [if_pos hx] at hp
    rw [hx] at he
    rw [← Option.some.inj (hs.symm.trans he)] at hlt
    exact ⟨_, hp, Nat.lt_of_lt_of_le hlt (by simp [TimerSlot.uses])⟩
  · rw [if_neg hx] at hp
    exact ⟨s, hp.trans he, hlt⟩

theorem Scheduled.place {i g : Nat} (hq : q.Scheduled) (hs : q.slots[i]? = some ⟨g, none⟩) :
    (q.place i key d).2.Scheduled := by
  have hslots : ∀ j : Nat, (q.place i key d).2.slots[j]? =
      if j = i then some ⟨g, some (key, d)⟩ else q.slots[j]? := slots_place hs
  have hlive : ∀ h, (q.place i key d).2.liveEntry h =
      if h = ⟨i, g⟩ then some (key, d) else q.liveEntry h := liveEntry_place hs
  have hissued : ∀ {h}, q.Issued h → (q.place i key d).2.Issued h := Issued.place hs
  -- Compacting comes last and keeps a schedule, so the invariant is shown of the full agenda.
  rw [place_eq_compact hs] at *
  simp only [slots_compact, liveEntry_compact] at hslots hlive
  have hnew : ∀ b ∈ q.agenda, b.handle ≠ ⟨i, g⟩ := fun b hb he =>
    not_issued_of_empty hs (he ▸ hq.issued hb)
  apply Scheduled.compact
  constructor
  case sorted => exact sorted_enlist hq.sorted fun b hb => hq.order_lt hb
  case order_lt =>
    intro b hb
    rcases mem_enlist.mp hb with rfl | hb
    · exact Nat.lt_succ_self _
    · exact Nat.lt_succ_of_lt (hq.order_lt hb)
  case handles_nodup =>
    rw [((enlist_perm _ q.agenda).map _).nodup_iff, List.map_cons, List.nodup_cons]
    refine ⟨?_, hq.handles_nodup⟩
    intro hm
    obtain ⟨b, hb, he⟩ := List.mem_map.mp hm
    exact hnew b hb he
  case issued =>
    intro b hb
    rcases mem_enlist.mp hb with rfl | hb
    · exact issued_of_live (e := (key, d)) (by rw [hlive]; simp)
    · obtain ⟨s, he, hlt⟩ := hissued (hq.issued hb)
      exact ⟨s, by rwa [slots_compact] at he, hlt⟩
  case alarmed => exact hq.alarmed.fill hs
  case uses_le =>
    intro j s hj
    rw [hslots] at hj
    by_cases hx : j = i
    · rw [if_pos hx] at hj
      rw [← Option.some.inj hj]
      simpa [TimerSlot.uses] using hq.uses_le hs
    · rw [if_neg hx] at hj
      exact Nat.le_succ_of_le (hq.uses_le hj)

/-! ### The operations -/

variable [DecidableEq κ]

theorem Scheduled.cancel (hs : q.Scheduled) (hq : q.Indexed) (few : q.nextOrder < generations)
    (key : κ) : (q.cancel key).2.Scheduled := by
  rcases hq.cancel_cases key with ⟨-, he⟩ | ⟨h, d, hl, he⟩
  · rw [he]; exact hs
  · rw [he]
    exact hs.release_forget few hl (.refl _) fun a ha hout => absurd ha hout

theorem Scheduled.arm (hs : q.Scheduled) (hq : q.Indexed) (few : q.nextOrder < generations)
    (key : κ) (d : Timestamp) : (q.arm key d).2.Scheduled := by
  obtain ⟨g, hg⟩ := (hq.cancel key).claim.empty
  exact (hs.cancel hq few key).claim.place hg

theorem nextOrder_cancel (q : TimerQueue κ) (key : κ) :
    (q.cancel key).2.nextOrder = q.nextOrder := by
  unfold TimerQueue.cancel
  split
  · rw [nextOrder_release]; rfl
  · rfl

theorem nextOrder_arm (q : TimerQueue κ) (key : κ) (d : Timestamp) :
    (q.arm key d).2.nextOrder = q.nextOrder + 1 := by
  rw [TimerQueue.arm, place, nextOrder_compact, nextOrder_claim, nextOrder_cancel]

theorem nextOrder_popDue (q : TimerQueue κ) (now : Timestamp) :
    (q.popDue now).2.nextOrder = q.nextOrder := by
  unfold TimerQueue.popDue
  split
  · rw [nextOrder_release]; rfl
  · rfl

theorem nextOrder_of_popDue {now : Timestamp} {timer : Option (κ × Timestamp)}
    (he : q.popDue now = (timer, q')) : q'.nextOrder = q.nextOrder :=
  (congrArg (·.2.nextOrder) he).symm.trans (nextOrder_popDue q now)

/-- The popped timer is the live one that is due first, at the deadline its slot held. -/
theorem Scheduled.popDue_some {now due : Timestamp} (hs : q.Scheduled)
    (he : q.popDue now = (some (key, due), q')) :
    ∃ n h rest, q' = ({ q with agenda := rest }.forget key).release h ∧ due ≤ now ∧
      q.liveEntry h = some (key, due) ∧ ⟨due, n, h⟩ ∈ q.agenda ∧ rest.Sublist q.agenda ∧
      (∀ a ∈ q.agenda, a ∉ rest → a.handle = h ∨ q.liveEntry a.handle = none) ∧
      ∀ a ∈ rest, Alarm.Before ⟨due, n, h⟩ a := by
  obtain ⟨a, rest, hf, rfl, rfl⟩ := TimerQueue.popDue_some he
  obtain ⟨⟨passed, hag, hpassed⟩, hdue, d, hl⟩ := firstDue_some hf
  have ha : a ∈ q.agenda := by rw [hag]; simp
  have hd : a.deadline = d := hs.deadline_of_live ha hl
  refine ⟨a.order, a.handle, rest, rfl, hdue, hd ▸ hl, ha, ?_, ?_, ?_⟩
  · rw [hag]
    exact (List.sublist_cons_self a rest).trans (List.sublist_append_right ..)
  · intro b hb hout
    rw [hag] at hb
    rcases List.mem_append.mp hb with hb | hb
    · exact Or.inr (hpassed b hb)
    · rcases List.mem_cons.mp hb with rfl | hb
      · exact Or.inl rfl
      · exact absurd hb hout
  · have hsorted := hs.sorted
    rw [hag] at hsorted
    exact (List.pairwise_cons.mp (List.pairwise_append.mp hsorted).2.1).1

theorem Scheduled.popDue_none {now : Timestamp} (hs : q.Scheduled)
    (he : q.popDue now = (none, q')) :
    ∃ rest, q' = { q with agenda := rest } ∧ rest.Sublist q.agenda ∧
      (∀ a ∈ q.agenda, a ∉ rest → q.liveEntry a.handle = none) ∧
      ∀ {h key d}, q.liveEntry h = some (key, d) → now < d := by
  obtain ⟨rest, hf, rfl⟩ := TimerQueue.popDue_none he
  obtain ⟨passed, hag, hpassed, hhead⟩ := firstDue_none hf
  have hsub : rest.Sublist q.agenda := by rw [hag]; exact List.sublist_append_right ..
  have hout : ∀ a ∈ q.agenda, a ∉ rest → q.liveEntry a.handle = none := by
    intro a ha hout
    rw [hag] at ha
    rcases List.mem_append.mp ha with ha | ha
    · exact hpassed a ha
    · exact absurd ha hout
  refine ⟨rest, rfl, hsub, hout, ?_⟩
  intro h key d hl
  obtain ⟨n, hn⟩ := hs.alarmed hl
  have hin : ⟨d, n, h⟩ ∈ rest := by
    apply Classical.byContradiction
    intro hgone
    simp [hout _ hn hgone] at hl
  -- The first alarm that is left is not due yet, and all others are due no earlier.
  have hsorted := hs.sorted.sublist hsub
  cases rest with
  | nil => simp at hin
  | cons b rest =>
    have hb : now < b.deadline := hhead b (by simp)
    rcases List.mem_cons.mp hin with he | hin
    · rw [← he] at hb; exact hb
    · exact Nat.lt_of_lt_of_le hb ((List.pairwise_cons.mp hsorted).1 _ hin).deadline_le

theorem nextOrder_clear (hq : q.Indexed) : q.clear.nextOrder = q.nextOrder := by
  obtain ⟨freed, he, -, -, horder⟩ := hq.clear_induction
    (P := fun p => p.nextOrder = q.nextOrder) rfl (by
      intro p key d h _ hp _
      rw [nextOrder_release]
      exact hp)
  rw [he]
  exact horder

theorem Scheduled.clear (hs : q.Scheduled) (hq : q.Indexed) (few : q.nextOrder < generations) :
    q.clear.Scheduled ∧ q.clear.nextOrder = q.nextOrder ∧
      (∀ h, q.Issued h → q.clear.Issued h) ∧ q.clear.byKey = [] ∧ q.clear.agenda = [] := by
  obtain ⟨freed, he, hi, hk, hsched, horder, hissued⟩ := hq.clear_induction
    (P := fun p => p.Scheduled ∧ p.nextOrder = q.nextOrder ∧ ∀ h, q.Issued h → p.Issued h)
    ⟨hs, rfl, fun _ hi => hi⟩ (by
      rintro p key d h - ⟨hp, hn, hi⟩ hl
      have few' : p.nextOrder < generations := hn ▸ few
      refine ⟨hp.release_forget few' hl (.refl _) fun a ha hout => absurd ha hout, ?_, ?_⟩
      · rw [nextOrder_release]; exact hn
      · intro h' hh'
        obtain ⟨s, hs, hlt⟩ := (hi h' hh').release hp few' hl
        have hl' : (p.forget key).liveEntry h = some (key, d) := hl
        refine ⟨s, ?_, hlt⟩
        rw [← hs, release_of_live hl', release_of_live hl]; rfl)
  have hdead : ∀ h, freed.liveEntry h = none := by
    intro h
    cases hl : freed.liveEntry h with
    | none => rfl
    | some e =>
      obtain ⟨key, d⟩ := e
      have hm := hi.keyed hl
      simp [hk] at hm
  rw [he]
  refine ⟨hsched.with_agenda (List.nil_sublist _) fun a _ _ => hdead _, horder, hissued, hk, rfl⟩

end TimerQueue
end LossWatch
