import LossWatch.TimerQueue

/-!
The work that is due before an instant. Every alarm due before the limit weighs the more the earlier
it is due, so that an alarm outweighs any two later ones: `load` goes down whenever a due timer is
popped and at most two later ones are armed for it. Alarms of released timers only add to the load.
-/

namespace LossWatch.TimerQueue

variable {κ : Type}

/-- Three times the weight of an alarm due one microsecond later; nothing from the limit on. -/
def weight (limit deadline : Nat) : Nat :=
  if deadline < limit then Nat.pow 3 (limit - deadline) else 0

def totalWeight (limit : Nat) : List Timestamp → Nat
  | [] => 0
  | d :: ds => weight limit d.micros + totalWeight limit ds

def agendaLoad (limit : Nat) (agenda : List Alarm) : Nat :=
  totalWeight limit (agenda.map (·.deadline))

def load (q : TimerQueue κ) (limit : Nat) : Nat := agendaLoad limit q.agenda

theorem weight_two_later {limit d d₁ d₂ : Nat} (h : d < limit) (h₁ : d < d₁) (h₂ : d < d₂) :
    weight limit d₁ + weight limit d₂ < weight limit d := by
  have pow (k : Nat) (hk : d < k) : 3 * weight limit k ≤ weight limit d := by
    unfold weight
    rw [if_pos h]
    split
    · exact Nat.le_trans (Nat.le_of_eq Nat.pow_succ'.symm)
        (Nat.pow_le_pow_right (by decide) (by omega : limit - k + 1 ≤ limit - d))
    · exact Nat.zero_le _
  have pos : 0 < weight limit d := by unfold weight; rw [if_pos h]; exact Nat.pow_pos (by decide)
  have := pow d₁ h₁
  have := pow d₂ h₂
  omega

@[simp] theorem agendaLoad_cons (limit : Nat) (a : Alarm) (l : List Alarm) :
    agendaLoad limit (a :: l) = weight limit a.deadline.micros + agendaLoad limit l := rfl

theorem agendaLoad_filter_le (limit : Nat) (p : Alarm → Bool) (l : List Alarm) :
    agendaLoad limit (l.filter p) ≤ agendaLoad limit l := by
  induction l with
  | nil => exact Nat.le_refl _
  | cons a l ih => rw [List.filter_cons]; split <;> simp only [agendaLoad_cons] <;> omega

theorem agendaLoad_enlist (limit : Nat) (a : Alarm) (l : List Alarm) :
    agendaLoad limit (enlist a l) = agendaLoad limit l + weight limit a.deadline.micros := by
  induction l with
  | nil => exact Nat.add_comm ..
  | cons b l ih => rw [enlist]; split <;> simp only [agendaLoad_cons] <;> omega

@[simp] theorem agenda_release (q : TimerQueue κ) (h : TimerHandle) :
    (q.release h).agenda = q.agenda := by
  unfold release; split <;> (try split) <;> rfl

theorem load_compact_le (q : TimerQueue κ) (limit : Nat) : q.compact.load limit ≤ q.load limit := by
  unfold compact
  split
  · exact Nat.le_refl _
  · exact agendaLoad_filter_le ..

theorem firstDue_load (q : TimerQueue κ) (now : Timestamp) (limit : Nat) (l : List Alarm) :
    match q.firstDue now l with
    | (some (_, a), rest) => a.deadline ≤ now ∧
        agendaLoad limit rest + weight limit a.deadline.micros ≤ agendaLoad limit l
    | (none, rest) => agendaLoad limit rest ≤ agendaLoad limit l := by
  induction l with
  | nil => exact Nat.le_refl _
  | cons a l ih =>
    unfold firstDue
    by_cases hd : now < a.deadline
    · simp only [if_pos hd, Nat.le_refl]
    · rw [if_neg hd]
      cases hl : q.liveEntry a.handle with
      | some e =>
        exact ⟨Nat.le_of_not_lt hd, Nat.le_of_eq (Nat.add_comm ..)⟩
      | none =>
        dsimp only
        generalize q.firstDue now l = r at ih
        obtain ⟨_ | ⟨key, b⟩, rest⟩ := r <;> simp only [agendaLoad_cons] at ih ⊢
        · omega
        · exact ⟨ih.1, by omega⟩

@[simp] theorem agenda_claim (q : TimerQueue κ) : q.claim.2.agenda = q.agenda := by
  unfold claim; split <;> rfl

theorem load_place_le (q : TimerQueue κ) (index : Nat) (key : κ) (deadline : Timestamp)
    (limit : Nat) :
    (q.place index key deadline).2.load limit ≤ q.load limit + weight limit deadline.micros :=
  Nat.le_trans (load_compact_le ..) (Nat.le_of_eq (agendaLoad_enlist ..))

variable [DecidableEq κ]

@[simp] theorem agenda_cancel (q : TimerQueue κ) (key : κ) :
    (q.cancel key).2.agenda = q.agenda := by
  unfold cancel; split
  · rw [agenda_release]; rfl
  · rfl

@[simp] theorem load_cancel (q : TimerQueue κ) (key : κ) (limit : Nat) :
    (q.cancel key).2.load limit = q.load limit := by
  simp [load]

theorem load_arm_le (q : TimerQueue κ) (key : κ) (deadline : Timestamp) (limit : Nat) :
    (q.arm key deadline).2.load limit ≤ q.load limit + weight limit deadline.micros := by
  refine Nat.le_trans (load_place_le ..) ?_
  rw [load, agenda_claim, agenda_cancel]
  exact Nat.le_refl _

theorem load_popDue {q q' : TimerQueue κ} {now deadline : Timestamp} {key : κ} (limit : Nat)
    (h : q.popDue now = (some (key, deadline), q')) :
    deadline ≤ now ∧ q'.load limit + weight limit deadline.micros ≤ q.load limit := by
  have hf := q.firstDue_load now limit q.agenda
  unfold popDue at h
  split at h <;> rename_i heq
  · rw [heq] at hf
    simp only [Prod.mk.injEq, Option.some.injEq] at h
    obtain ⟨⟨-, hd⟩, hq⟩ := h
    subst hq
    simpa [load, forget, ← hd] using hf
  · simp at h

end LossWatch.TimerQueue
