import LossWatch.Proofs.SequenceNumber.Window
import Mathlib.Data.Int.Range
import Mathlib.Order.Defs.Unbundled

/-!
Sequence numbers as the low halves of counters. The way from one number to another is the difference of
their counters up to whole spaces, and newer, newest and the numbers in between are read off that way.
So as long as counters lie less than half the space apart, their numbers are compared as they are, and
among 32768 counters in a row newer is an order.
-/

namespace LossWatch.SeqNumber

variable {a b : SeqNumber} {m n : Int}

def ofInt (z : Int) : SeqNumber := ⟨(z % 65536).toNat, by omega⟩

theorem ofInt_natCast (n : Nat) : ofInt n = ofNat n := by
  apply ext_raw
  simp only [ofInt, ofNat]
  omega

theorem add_ofInt (z : Int) (k : Nat) : (ofInt z).add k = ofInt (z + k) := by
  apply ext_raw
  simp only [add, ofNat, ofInt]
  omega

theorem distance_ofInt (m n : Int) : (ofInt m).distance (ofInt n) = (n - m).bmod 65536 := by
  have hraw (z : Int) : ((ofInt z).raw : Int) = z % (65536 : Nat) :=
    Int.toNat_of_nonneg (Int.emod_nonneg z (by decide))
  rw [distance, hraw, hraw, Int.emod_sub_bmod, Int.sub_emod_bmod]

theorem distance_ofInt_of_near (h : (n - m).natAbs ≤ 32767) :
    (ofInt m).distance (ofInt n) = n - m := by
  rw [distance_ofInt]
  exact Int.bmod_eq_of_le_mul_two (by omega) (by omega)

theorem distance_ofInt_of_opposite (h : (n - m) % 65536 = 32768) :
    (ofInt m).distance (ofInt n) = -32768 := by
  rw [distance_ofInt, Int.bmod_def]
  omega

/-! ### What is read off the way -/

theorem newer_iff_distance_pos : a.newer b = true ↔ 0 < b.distance a := by
  have hlt := a.ahead_lt b
  rw [newer_eq_true_iff, distance_eq_ite]
  split <;> omega

theorem newer_ofInt_iff (h : (n - m).natAbs ≤ 32767) :
    (ofInt n).newer (ofInt m) = true ↔ m < n := by
  rw [newer_iff_distance_pos, distance_ofInt_of_near h]
  omega

theorem newest_ofInt (h : (n - m).natAbs ≤ 32767) :
    (ofInt m).newest (ofInt n) = ofInt (max m n) := by
  rw [newest]
  by_cases hlt : m < n
  · rw [if_pos ((newer_ofInt_iff h).mpr hlt), Int.max_eq_right (Int.le_of_lt hlt)]
  · rw [if_neg (mt (newer_ofInt_iff h).mp hlt), Int.max_eq_left (by omega)]

theorem between_ofInt (h : (n - m).natAbs ≤ 32767) :
    (ofInt m).between (ofInt n) = (Int.range (m + 1) n).map ofInt := by
  have hcount : (max (n - m) 1 - 1).toNat = (n - (m + 1)).toNat := by omega
  rw [between, distance_ofInt_of_near h, hcount, List.range'_eq_map_range, Int.range, List.map_map,
    List.map_map]
  refine List.map_congr_left fun i _ => ?_
  rw [Function.comp_apply, Function.comp_apply, add_ofInt, Int.natCast_add, Int.add_assoc]
  rfl

/-! ### Counters from zero on -/

section

variable {m n : Nat}

theorem newer_ofNat (h : n ≤ m + 32767 ∧ m ≤ n + 32767) :
    (ofNat n).newer (ofNat m) = decide (m < n) := by
  rw [Bool.eq_iff_iff, decide_eq_true_eq, ← ofInt_natCast, ← ofInt_natCast,
    newer_ofInt_iff (by omega), Int.ofNat_lt]

theorem newest_ofNat (h : n ≤ m + 32767 ∧ m ≤ n + 32767) :
    (ofNat m).newest (ofNat n) = ofNat (max m n) := by
  have hmax : ((max m n : Nat) : Int) = max (m : Int) n := by omega
  rw [← ofInt_natCast m, ← ofInt_natCast n, newest_ofInt (by omega), ← hmax, ofInt_natCast]

theorem ahead_ofNat (hle : m ≤ n) (h : n ≤ m + 32767) : (ofNat n).ahead (ofNat m) = n - m := by
  simp only [ofNat, ahead]
  omega

end

theorem between_eq_nil (h : a.distance b ≤ 1) : a.between b = [] := by
  rw [between, Int.max_eq_right h]
  rfl

/-- Less than half the space apart, the numbers of two counters are compared as the counters are, and
the numbers between them are those of the counters between. Exactly half the space apart, neither is
newer. So newer orders the numbers of any 32768 counters in a row. -/
theorem compares_as_counters :
    (∀ m n : Int, (n - m).natAbs ≤ 32767 →
      ((ofInt n).newer (ofInt m) = true ↔ m < n) ∧
      (ofInt m).distance (ofInt n) = n - m ∧
      (ofInt m).newest (ofInt n) = ofInt (max m n) ∧
      (ofInt m).between (ofInt n) = (Int.range (m + 1) n).map ofInt) ∧
    (∀ m n : Int, (n - m) % 65536 = 32768 →
      (ofInt n).newer (ofInt m) = false ∧ (ofInt m).newer (ofInt n) = false ∧
      (ofInt m).distance (ofInt n) = -32768 ∧ (ofInt n).distance (ofInt m) = -32768 ∧
      (ofInt m).between (ofInt n) = [] ∧ (ofInt n).between (ofInt m) = []) ∧
    ∀ base : Int, IsStrictTotalOrder {x : Int // base ≤ x ∧ x < base + 32768} fun x y =>
      (ofInt x).newer (ofInt y) = true := by
  refine ⟨fun m n near => ?_, fun m n opposite => ?_, fun base => ?_⟩
  · exact ⟨newer_ofInt_iff near, distance_ofInt_of_near near, newest_ofInt near, between_ofInt near⟩
  · have hforth := distance_ofInt_of_opposite opposite
    have hback : (ofInt n).distance (ofInt m) = -32768 := distance_ofInt_of_opposite (by omega)
    refine ⟨?_, ?_, hforth, hback, between_eq_nil (by omega), between_eq_nil (by omega)⟩
    · rw [← Bool.not_eq_true, newer_iff_distance_pos, hforth]
      decide
    · rw [← Bool.not_eq_true, newer_iff_distance_pos, hback]
      decide
  · have hiff (x y : {x : Int // base ≤ x ∧ x < base + 32768}) :
        (ofInt x).newer (ofInt y) = true ↔ (y : Int) < x := newer_ofInt_iff (by omega)
    simp only [hiff]
    exact {
      irrefl := fun x => Int.lt_irrefl x
      trans := fun x y z hxy hyz => Int.lt_trans hyz hxy
      trichotomous := fun x y hxy hyx => Subtype.ext (by omega) }

theorem compares_as_counters_of_wrap :
    let gap : List SeqNumber := [.ofNat 65535, .ofNat 0, .ofNat 1]
    (65538 - 65534 : Int).natAbs ≤ 32767 ∧ (ofInt 65538).newer (ofInt 65534) = true ∧
      (ofInt 65534).distance (ofInt 65538) = 4 ∧
      (ofInt 65534).newest (ofInt 65538) = .ofNat 2 ∧
      (ofInt 65534).between (ofInt 65538) = gap ∧ (ofInt 65538).between (ofInt 65534) = [] ∧
      (32765 - (-3) : Int) % 65536 = 32768 ∧ (ofInt 32765).newer (ofInt (-3)) = false ∧
      (ofInt (-3)).newer (ofInt 32765) = false := by
  intro gap
  obtain ⟨near, opposite, -⟩ := compares_as_counters
  obtain ⟨hnewer, hdistance, hnewest, hbetween⟩ := near 65534 65538 (by decide)
  have hback := (near 65538 65534 (by decide)).2.2.2
  have hhalf : (32765 - (-3) : Int) % 65536 = 32768 := by decide
  obtain ⟨hforth, hbehind, -⟩ := opposite (-3) 32765 hhalf
  refine ⟨by decide, hnewer.mpr (by decide), hdistance, hnewest.trans (by decide),
    hbetween.trans (by decide), hback.trans (by decide), hhalf, hforth, hbehind⟩

end LossWatch.SeqNumber
