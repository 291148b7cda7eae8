import LineCalc.Binary64.Rounding
import LineCalc.Proofs.Grid

/-!
# Rounding keeps what can be represented

The grid that a magnitude is rounded on is chosen by its binary logarithm, and a finite number has
its significand on the grid of its own magnitude.  So rounding gives the number back whose
magnitude is rounded:

    |r| = x.magnitude → round negative r = ± x        (round_of_magnitude)
    n ≤ 2 ^ 53 → n is the magnitude of a number       (exists_magnitude_eq)
    and so is n * 2 ^ s                               (exists_magnitude_eq_mul_pow)
-/

namespace LineCalc.Binary64

/-! ## The binade -/

/-- The binade of a fraction is its binary logarithm. -/
theorem binade_eq_log {r : Rat} (hr : r ≠ 0) : binade r.num.natAbs r.den = Int.log 2 |r| := by
  rw [← fractionLog_eq (by decide) hr, binade, fractionLog, Nat.log2_eq_log_two,
    Nat.log2_eq_log_two]

/-! ## The grid of a number -/

namespace Finite

theorem magnitude_eq (x : Finite) : x.magnitude = x.significand * (2 : Rat) ^ x.exponent :=
  Grid.point_eq _ _

theorem magnitude_nonneg (x : Finite) : 0 ≤ x.magnitude := Grid.point_nonneg Nat.two_pos _

theorem magnitude_eq_zero {x : Finite} : x.magnitude = 0 ↔ x.significand = 0 := by
  have hunit : (2 : Rat) ^ x.exponent ≠ 0 := zpow_ne_zero _ (by decide)
  rw [magnitude_eq, mul_eq_zero, Nat.cast_eq_zero]
  exact or_iff_left hunit

theorem magnitude_pos {x : Finite} (h : x.significand ≠ 0) : 0 < x.magnitude :=
  lt_of_le_of_ne x.magnitude_nonneg fun hzero => h (magnitude_eq_zero.mp hzero.symm)

theorem abs_toRat (x : Finite) : |x.toRat| = x.magnitude := by
  unfold toRat
  split
  · rw [abs_neg, abs_of_nonneg x.magnitude_nonneg]
  · exact abs_of_nonneg x.magnitude_nonneg

end Finite

/-- A magnitude is rounded on the grid of the number that it is the magnitude of. -/
theorem unitExponent_of_magnitude {r : Rat} {x : Finite} (h : |r| = x.magnitude) :
    unitExponent r = x.exponent := by
  obtain ⟨hm, hq, -, hnorm⟩ := x.canonical
  have hunit : (0 : Rat) < 2 ^ x.exponent := zpow_pos (by decide) _
  unfold unitExponent
  by_cases hr : r = 0
  · have hzero : x.significand = 0 := by rw [← Finite.magnitude_eq_zero, ← h, hr, abs_zero]
    rw [if_pos (by rw [hr]; rfl)]
    omega
  · have hpos : 0 < |r| := abs_pos.mpr hr
    have hlt : |r| < (2 : Nat) ^ (53 + x.exponent) := by
      rw [h, x.magnitude_eq, Nat.cast_two, zpow_add₀ (by decide)]
      exact mul_lt_mul_of_pos_right (by exact_mod_cast hm) hunit
    have hhigh := (Int.lt_zpow_iff_log_lt (by decide) hpos).mp hlt
    rw [if_neg (Rat.num_ne_zero.mpr hr), binade_eq_log hr]
    -- with all fifty-three digits the exponent is that of the binade, else it is the least one
    rcases hnorm with hnorm | hnorm
    · have hle : (2 : Nat) ^ (52 + x.exponent) ≤ |r| := by
        rw [h, x.magnitude_eq, Nat.cast_two, zpow_add₀ (by decide)]
        exact mul_le_mul_of_nonneg_right (by exact_mod_cast hnorm) hunit.le
      have hlow := (Int.zpow_le_iff_le_log (by decide) hpos).mp hle
      omega
    · omega

/-- Rounding the magnitude of a number gives that number, with the sign that is asked for. -/
theorem round_of_magnitude {r : Rat} {x : Finite} (h : |r| = x.magnitude) (negative : Bool) :
    round negative r = .finite { x with negative } := by
  have hnearest : Grid.nearest ⟨2, x.exponent⟩ r = x.significand := Grid.nearest_eq Nat.two_pos h
  rw [round, unitExponent_of_magnitude h, hnearest, assemble, dif_pos x.canonical]

theorem round_zero (negative : Bool) : round negative 0 = zero negative :=
  round_of_magnitude (x := ⟨false, 0, -1074, by decide⟩)
    (by rw [abs_zero, Finite.magnitude_eq_zero.mpr rfl]) negative

/-! ## Integers -/

/-- A positive natural below `2 ^ 53` is shifted to the left until it has all fifty-three digits. -/
theorem canonical_shifted {n s : Nat} (hpos : 0 < n) (h : n < 2 ^ 53) (hs : s ≤ 970) :
    Canonical (n * 2 ^ (52 - n.log2)) (s - (52 - n.log2 : Nat)) := by
  have hlog : n.log2 ≤ 52 := Nat.lt_succ_iff.mp ((Nat.log2_lt hpos.ne').mpr h)
  have hsplit : 2 ^ n.log2 * 2 ^ (52 - n.log2) = 2 ^ 52 := by
    rw [← Nat.pow_add, Nat.add_sub_cancel' hlog]
  have hlow := Nat.mul_le_mul_right (2 ^ (52 - n.log2)) (Nat.log2_self_le hpos.ne')
  have hhigh := Nat.mul_lt_mul_of_pos_right (Nat.lt_log2_self (n := n))
    (Nat.two_pow_pos (52 - n.log2))
  rw [Nat.pow_succ, Nat.mul_right_comm] at hhigh
  unfold Canonical
  omega

/-- The naturals up to `2 ^ 53` are magnitudes of numbers, however often they are doubled within
the range. -/
theorem exists_magnitude_eq_mul_pow {n s : Nat} (h : n ≤ 2 ^ 53) (hs : s ≤ 970) :
    ∃ x : Finite, x.magnitude = n * 2 ^ s := by
  rcases Nat.eq_zero_or_pos n with rfl | hpos
  · refine ⟨⟨false, 0, -1074, by decide⟩, ?_⟩
    rw [Finite.magnitude_eq_zero.mpr rfl, Nat.cast_zero, zero_mul]
  · rcases Nat.lt_or_eq_of_le h with hlt | rfl
    · refine ⟨⟨false, _, _, canonical_shifted hpos hlt hs⟩, ?_⟩
      rw [Finite.magnitude_eq, zpow_sub₀ (by decide), zpow_natCast, zpow_natCast, Nat.cast_mul,
        Nat.cast_pow, Nat.cast_two]
      field_simp
    · refine ⟨⟨false, 2 ^ 52, s + 1, ?_⟩, ?_⟩
      · unfold Canonical
        omega
      · rw [Finite.magnitude_eq, zpow_add_one₀ (by decide), zpow_natCast]
        push_cast
        ring

theorem exists_magnitude_eq {n : Nat} (h : n ≤ 2 ^ 53) : ∃ x : Finite, x.magnitude = n := by
  obtain ⟨x, hx⟩ := exists_magnitude_eq_mul_pow h (Nat.zero_le 970)
  exact ⟨x, by rw [hx, pow_zero, mul_one]⟩

end LineCalc.Binary64
