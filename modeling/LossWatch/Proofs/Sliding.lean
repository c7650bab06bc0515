import Mathlib.Data.List.Basic

/-!
Lists that keep the last items they are given. What such a list holds is the end of all it was given,
so two of them hold the same as soon as they were given the same for as long as they reach back.
-/

namespace LossWatch

variable {α : Type} {l l' seen seen' recent : List α} {n : Nat}

def slide (n : Nat) (l : List α) (x : α) : List α := (if l.length = n then l.drop 1 else l) ++ [x]

/-- The list holds the last items of all that were seen, `n` of them if there are as many. -/
structure KeepsLast (n : Nat) (l seen : List α) : Prop where
  suffix : l <:+ seen
  length : l.length = min seen.length n

namespace KeepsLast

theorem nil : KeepsLast n ([] : List α) [] :=
  ⟨List.suffix_refl _, (Nat.zero_min n).symm⟩

theorem slide (h : KeepsLast n l seen) (hn : 0 < n) (x : α) :
    KeepsLast n (LossWatch.slide n l x) (seen ++ [x]) where
  suffix := by
    have hkept : (if l.length = n then l.drop 1 else l) <:+ seen := by
      split
      · exact (List.drop_suffix 1 l).trans h.suffix
      · exact h.suffix
    obtain ⟨old, hold⟩ := hkept
    exact ⟨old, by rw [LossWatch.slide, ← hold, List.append_assoc]⟩
  length := by
    have hlength := h.length
    rw [LossWatch.slide]
    by_cases hfull : l.length = n
    · rw [if_pos hfull, List.length_append, List.length_append, List.length_drop,
        List.length_singleton]
      omega
    · rw [if_neg hfull, List.length_append, List.length_append, List.length_singleton]
      omega

theorem suffix_recent (h : KeepsLast n l seen) (hrecent : recent <:+ seen)
    (hn : n ≤ recent.length) : l <:+ recent :=
  List.suffix_of_suffix_length_le h.suffix hrecent
    (h.length ▸ Nat.le_trans (Nat.min_le_right ..) hn)

theorem length_eq (h : KeepsLast n l seen) (hrecent : recent <:+ seen) (hn : n ≤ recent.length) :
    l.length = n := by
  rw [h.length, Nat.min_eq_right (Nat.le_trans hn hrecent.length_le)]

theorem eq_of_suffix (h : KeepsLast n l seen) (h' : KeepsLast n l' seen')
    (hrecent : recent <:+ seen) (hrecent' : recent <:+ seen') (hn : n ≤ recent.length) : l = l' := by
  have hlength := h.length_eq hrecent hn
  have hlength' := h'.length_eq hrecent' hn
  have hsuffix : l <:+ l' := List.suffix_of_suffix_length_le (h.suffix_recent hrecent hn)
    (h'.suffix_recent hrecent' hn) (Nat.le_of_eq (hlength.trans hlength'.symm))
  exact hsuffix.eq_of_length (hlength.trans hlength'.symm)

end KeepsLast
end LossWatch
