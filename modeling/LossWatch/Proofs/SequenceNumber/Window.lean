import LossWatch.SequenceNumber

/-!
The order of sequence numbers within half of their space. Newer is no order on all numbers: three of
them can follow each other in a circle. Among the 32768 numbers from a base on it is the order of the
way from the base, and the numbers between two of them are among them too.
-/

namespace LossWatch.SeqNumber

variable {base a b c : SeqNumber}

/-- `a` is one of the 32768 numbers from `base` on. -/
def InWindow (a base : SeqNumber) : Prop := a.ahead base < 32768

instance (a base : SeqNumber) : Decidable (a.InWindow base) :=
  inferInstanceAs (Decidable (a.ahead base < 32768))

theorem ahead_inj (h : a.ahead base = b.ahead base) : a = b := by
  have ha := a.raw_lt
  have hb := b.raw_lt
  have hbase := base.raw_lt
  apply ext_raw
  unfold ahead at h
  omega

theorem ahead_self (a : SeqNumber) : a.ahead a = 0 := by
  have ha := a.raw_lt
  unfold ahead
  omega

theorem ahead_lt (a b : SeqNumber) : a.ahead b < 65536 := Nat.mod_lt _ (by decide)

/-- The way from one number to another, read off their ways from any base. -/
theorem ahead_eq_mod (a b base : SeqNumber) :
    a.ahead b = (a.ahead base + 65536 - b.ahead base) % 65536 := by
  have ha := a.raw_lt
  have hb := b.raw_lt
  have hbase := base.raw_lt
  simp only [ahead]
  omega

theorem distance_eq_ite (a b : SeqNumber) :
    a.distance b = if b.ahead a < 32768 then (b.ahead a : Int) else b.ahead a - 65536 := by
  have ha := a.raw_lt
  have hb := b.raw_lt
  rw [distance, ahead, Int.bmod_def]
  split <;> split <;> omega

theorem newer_eq_true_iff : a.newer b = true ↔ 0 < a.ahead b ∧ a.ahead b < 32768 := by
  rw [newer, Bool.and_eq_true, decide_eq_true_eq, decide_eq_true_eq]

theorem newer_iff (ha : a.InWindow base) (hb : b.InWindow base) :
    a.newer b = true ↔ b.ahead base < a.ahead base := by
  rw [InWindow] at ha hb
  rw [newer_eq_true_iff, ahead_eq_mod a b base]
  omega

theorem match_newest (m : Option SeqNumber) (a : SeqNumber) :
    (match m with
      | none => some a
      | some b => some (if a.newer b then a else b)) = some (m.elim a (·.newest a)) := by
  cases m with
  | none => rfl
  | some b => rw [Option.elim_some, newest]

theorem newer_trans (ha : a.InWindow base) (hb : b.InWindow base) (hc : c.InWindow base)
    (hab : a.newer b = true) (hbc : b.newer c = true) : a.newer c = true := by
  rw [newer_iff ha hb] at hab
  rw [newer_iff hb hc] at hbc
  rw [newer_iff ha hc]
  omega

theorem newer_of_not_newer (ha : a.InWindow base) (hb : b.InWindow base) (hne : a ≠ b)
    (h : ¬ a.newer b = true) : b.newer a = true := by
  rw [newer_iff ha hb] at h
  rw [newer_iff hb ha]
  have hahead : a.ahead base ≠ b.ahead base := fun he => hne (ahead_inj he)
  omega

theorem not_newer_self (a : SeqNumber) : a.newer a = false := by
  rw [← Bool.not_eq_true, newer_eq_true_iff, ahead_self]
  omega

theorem newerOrEqual_iff (ha : a.InWindow base) (hb : b.InWindow base) :
    a.newerOrEqual b = true ↔ b.ahead base ≤ a.ahead base := by
  rw [newerOrEqual, Bool.or_eq_true, beq_iff_eq, newer_iff ha hb]
  constructor
  · rintro (rfl | h)
    · exact Nat.le_refl _
    · exact Nat.le_of_lt h
  · intro h
    rcases Nat.eq_or_lt_of_le h with he | h
    · exact Or.inl (ahead_inj he.symm)
    · exact Or.inr h

theorem ahead_newest (ha : a.InWindow base) (hb : b.InWindow base) :
    (a.newest b).InWindow base ∧ a.ahead base ≤ (a.newest b).ahead base ∧
      b.ahead base ≤ (a.newest b).ahead base := by
  rw [newest]
  by_cases h : b.newer a = true
  · rw [if_pos h]
    rw [newer_iff hb ha] at h
    exact ⟨hb, Nat.le_of_lt h, Nat.le_refl _⟩
  · rw [if_neg h]
    rw [newer_iff hb ha] at h
    exact ⟨ha, Nat.le_refl _, Nat.le_of_not_lt h⟩

theorem ahead_next (h : a.ahead base < 65535) : a.next.ahead base = a.ahead base + 1 := by
  have ha := a.raw_lt
  have hbase := base.raw_lt
  unfold ahead at h
  simp only [next, add, ofNat, ahead]
  omega

theorem ahead_next_of_inWindow (h : a.InWindow base) :
    a.next.ahead base = a.ahead base + 1 := by
  rw [InWindow] at h
  exact ahead_next (by omega)

theorem ahead_lt_of_newerOrEqual (h : a.newerOrEqual b = true) : a.ahead b < 32768 := by
  rw [newerOrEqual, Bool.or_eq_true, beq_iff_eq, newer_eq_true_iff] at h
  rcases h with rfl | h
  · rw [ahead_self]
    omega
  · exact h.2

theorem next_add (a : SeqNumber) (k : Nat) : a.next.add k = a.add (k + 1) := by
  have ha := a.raw_lt
  apply ext_raw
  simp only [next, add, ofNat]
  omega

theorem ahead_add_right {k : Nat} (h : k ≤ 65536) :
    a.ahead (b.add k) = (a.ahead b + (65536 - k)) % 65536 := by
  have ha := a.raw_lt
  have hb := b.raw_lt
  simp only [add, ofNat, ahead]
  omega

theorem ahead_next_of_newerOrEqual (h : a.newerOrEqual b = true) : 32768 ≤ b.ahead a.next := by
  have ha := a.raw_lt
  have hb := b.raw_lt
  have hcase := ahead_lt_of_newerOrEqual h
  simp only [ahead, next, add, ofNat] at hcase ⊢
  omega

theorem prev_next (a : SeqNumber) : a.next.prev = a := by
  have ha := a.raw_lt
  apply ext_raw
  simp only [next, prev, add, sub, ofNat]
  omega

theorem next_prev (a : SeqNumber) : a.prev.next = a := by
  have ha := a.raw_lt
  apply ext_raw
  simp only [next, prev, add, sub, ofNat]
  omega

theorem ahead_of_prev (h : a.prev.InWindow base) : a.ahead base = a.prev.ahead base + 1 := by
  have hnext := ahead_next_of_inWindow h
  rwa [next_prev] at hnext

theorem prev_ahead_of_newerOrEqual (ha : a.InWindow base) (hb : b.prev.InWindow base)
    (h : a.newerOrEqual b = true) : b.prev.ahead base < a.ahead base := by
  have hahead := ahead_lt_of_newerOrEqual h
  rw [ahead_eq_mod a b base, ahead_of_prev hb] at hahead
  rw [InWindow] at ha hb
  omega

theorem ahead_prev_of_ahead_lt (hab : a.prev.ahead base ≤ b.prev.ahead base)
    (hb : b.prev.InWindow base) (h : c.ahead a < b.ahead a) :
    a.prev.ahead base < c.ahead base ∧ c.ahead base ≤ b.prev.ahead base := by
  have ha : a.prev.InWindow base := Nat.lt_of_le_of_lt hab hb
  have hc := c.ahead_lt base
  rw [ahead_eq_mod c a base, ahead_eq_mod b a base, ahead_of_prev ha, ahead_of_prev hb] at h
  rw [InWindow] at hb
  omega

theorem ahead_prev_of_lt (h : b.ahead base < a.ahead base) :
    a.prev.ahead base + 1 = a.ahead base := by
  have ha := a.raw_lt
  have hbase := base.raw_lt
  simp only [ahead] at h
  simp only [prev, sub, ofNat, ahead]
  omega

theorem prev_ne_self (a : SeqNumber) : a.prev ≠ a := by
  have ha := a.raw_lt
  intro h
  have hraw := congrArg raw h
  simp only [prev, sub, ofNat] at hraw
  omega

theorem ahead_add_ahead (h : b.ahead base ≤ a.ahead base) :
    b.ahead base + a.ahead b = a.ahead base := by
  have hlt := a.ahead_lt base
  rw [ahead_eq_mod a b base]
  omega

theorem inWindow_of_newer (h : b.newer a = true) : b.InWindow a := (newer_eq_true_iff.mp h).2

theorem inWindow_self (a : SeqNumber) : a.InWindow a := by
  rw [InWindow, ahead_self]
  omega

theorem distance_of_newer (h : a.newer b = true) : b.distance a = a.ahead b := by
  rw [distance_eq_ite]
  exact if_pos (inWindow_of_newer h)

theorem ahead_of_newer (h : a.newer b = true) : 32768 < b.ahead a := by
  rw [newer_eq_true_iff] at h
  rw [ahead_eq_mod b a b, ahead_self]
  omega

theorem not_newer_of_newer (h : a.newer b = true) : b.newer a = false := by
  have hbehind := ahead_of_newer h
  rw [← Bool.not_eq_true, newer_eq_true_iff]
  omega

theorem newer_add_add {i j : Nat} (h : i < j) (hj : j < i + 32768) :
    (a.add j).newer (a.add i) = true := by
  have ha := a.raw_lt
  have hahead : (a.add j).ahead (a.add i) = j - i := by
    simp only [add, ofNat, ahead]
    omega
  rw [newer_eq_true_iff, hahead]
  omega

theorem distance_lt (a b : SeqNumber) : a.distance b < 32768 := by
  have hlt := b.ahead_lt a
  rw [distance_eq_ite]
  split <;> omega

theorem length_between_lt (a b : SeqNumber) : (a.between b).length < 32767 := by
  have hdistance := a.distance_lt b
  rw [between, List.length_map, List.length_range']
  omega

theorem distance_of_inWindow (ha : a.InWindow base) (hb : b.InWindow base) :
    a.distance b = (b.ahead base : Int) - a.ahead base := by
  rw [InWindow] at ha hb
  rw [distance_eq_ite, ahead_eq_mod b a base]
  split <;> omega

theorem pairwise_between (a b : SeqNumber) : (a.between b).Pairwise fun m n => n.newer m = true := by
  rw [between, List.pairwise_map]
  refine (List.pairwise_lt_range' 1).imp_of_mem fun {i j} hi hj hlt => ?_
  have hdistance := a.distance_lt b
  rw [List.mem_range'_1] at hi hj
  exact newer_add_add hlt (by omega)

theorem ahead_add {k : Nat} (h : a.ahead base + k < 65536) :
    (a.add k).ahead base = a.ahead base + k := by
  have ha := a.raw_lt
  have hbase := base.raw_lt
  simp only [ahead] at h
  simp only [add, ofNat, ahead]
  omega

theorem ahead_add_self {k : Nat} (h : k < 65536) : (a.add k).ahead a = k := by
  rw [ahead_add (by rw [ahead_self]; omega), ahead_self, Nat.zero_add]

theorem add_ahead (a c : SeqNumber) : a.add (c.ahead a) = c :=
  ahead_inj (ahead_add_self (c.ahead_lt a))

theorem next_of_add (a : SeqNumber) (k : Nat) : (a.add k).next = a.add (k + 1) := by
  apply ext_raw
  simp only [next, add, ofNat]
  omega

theorem add_sub_add (a : SeqNumber) (n k : Nat) : ((a.add (n + 1)).sub n).add k = a.add (k + 1) := by
  apply ext_raw
  simp only [add, sub, ofNat]
  omega

/-! ### The numbers in between -/

theorem mem_between : c ∈ a.between b ↔ ∃ i : Nat, 0 < i ∧ (i : Int) < a.distance b ∧ c = a.add i := by
  rw [between, List.mem_map]
  simp only [List.mem_range'_1]
  constructor
  · rintro ⟨i, hi, rfl⟩
    exact ⟨i, by omega, by omega, rfl⟩
  · rintro ⟨i, hpos, hi, rfl⟩
    exact ⟨i, by omega, rfl⟩

theorem ahead_of_mem_between (ha : a.InWindow base) (hb : b.InWindow base)
    (hc : c ∈ a.between b) : a.ahead base < c.ahead base ∧ c.ahead base < b.ahead base := by
  obtain ⟨i, hpos, hi, rfl⟩ := mem_between.mp hc
  rw [distance_of_inWindow ha hb] at hi
  have hlt := b.ahead_lt base
  rw [ahead_add (by omega)]
  omega

theorem mem_between_of_ahead (ha : a.InWindow base) (hb : b.InWindow base)
    (hac : a.ahead base < c.ahead base) (hcb : c.ahead base < b.ahead base) : c ∈ a.between b := by
  have hway := ahead_add_ahead (Nat.le_of_lt hac)
  have hdistance := distance_of_inWindow ha hb
  exact mem_between.mpr ⟨c.ahead a, by omega, by omega, (a.add_ahead c).symm⟩

theorem between_of_newer (h : b.newer a = true) :
    a.between b = (List.range' 1 (b.ahead a - 1)).map a.add := by
  have hpos := (newer_eq_true_iff.mp h).1
  rw [between, distance_of_newer h]
  congr 2
  omega

theorem newer_of_mem_between (hc : c ∈ a.between b) : b.newer c = true := by
  obtain ⟨i, hpos, hi, rfl⟩ := mem_between.mp hc
  have hlt := b.ahead_lt a
  have hdistance := a.distance_lt b
  have hnear : i < 65536 := by omega
  rw [newer_eq_true_iff, ahead_eq_mod b (a.add i) a, ahead_add_self hnear]
  rw [distance_eq_ite] at hi
  split at hi <;> omega

theorem ne_of_mem_between (hc : c ∈ a.between b) : c ≠ b := by
  rintro rfl
  have hnewer := newer_of_mem_between hc
  rw [not_newer_self] at hnewer
  cases hnewer

theorem inWindow_of_mem_between (ha : a.InWindow base) (hb : b.InWindow base)
    (hc : c ∈ a.between b) : c.InWindow base :=
  Nat.lt_trans (ahead_of_mem_between ha hb hc).2 hb

theorem mem_between_iff (h : b.newer a = true) :
    c ∈ a.between b ↔ 0 < c.ahead a ∧ c.ahead a < b.ahead a := by
  have hb := inWindow_of_newer h
  constructor
  · intro hc
    have hcb := ahead_of_mem_between a.inWindow_self hb hc
    rwa [ahead_self] at hcb
  · rintro ⟨hac, hcb⟩
    refine mem_between_of_ahead a.inWindow_self hb ?_ hcb
    rwa [ahead_self]

theorem between_eq_append (h : b.newer a = true) (hc : c ∈ a.between b) :
    ∃ rest, a.between b = a.between c ++ c :: rest := by
  obtain ⟨hac, hcb⟩ := (mem_between_iff h).mp hc
  have hb : b.ahead a < 32768 := inWindow_of_newer h
  have hnewer : c.newer a = true := newer_eq_true_iff.mpr ⟨hac, Nat.lt_trans hcb hb⟩
  have hsplit : List.range' 1 (b.ahead a - 1) = List.range' 1 (c.ahead a - 1) ++
      c.ahead a :: List.range' (c.ahead a + 1) (b.ahead a - 1 - c.ahead a) := by
    rw [← List.range'_succ, show c.ahead a = 1 + (c.ahead a - 1) by omega,
      Nat.add_sub_cancel_left, List.range'_append_1]
    congr 1
    omega
  refine ⟨(List.range' (c.ahead a + 1) (b.ahead a - 1 - c.ahead a)).map a.add, ?_⟩
  rw [between_of_newer h, between_of_newer hnewer, hsplit, List.map_append, List.map_cons,
    add_ahead]

theorem pairwise_ahead_between (h : b.newer a = true) :
    (a.between b).Pairwise fun m n => m.ahead a < n.ahead a := by
  have hin : ∀ {m : SeqNumber}, m ∈ a.between b → m.InWindow a :=
    inWindow_of_mem_between a.inWindow_self (inWindow_of_newer h)
  exact (pairwise_between a b).imp_of_mem fun hm hn hmn => (newer_iff (hin hn) (hin hm)).mp hmn

end LossWatch.SeqNumber
