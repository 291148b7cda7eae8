import Mathlib.Algebra.Field.Rat
import Mathlib.Algebra.Group.Nat.Even
import Mathlib.Algebra.Order.Field.Power
import Mathlib.Algebra.Order.Ring.Rat
import Mathlib.Data.Int.Log
import Mathlib.Data.Rat.Floor
import Mathlib.Tactic.FieldSimp
import Mathlib.Tactic.Linarith
import Mathlib.Tactic.Positivity
import LineCalc.Grid

/-!
# Points of a grid

The point number `m` of a grid is `m` times its unit, and the number of a magnitude in units of the
grid is a fraction with the magnitude's own value.  So what is called the last point is the last one
not beyond the magnitude, and no point is closer to it than the nearest one:

    g.point m = m * base ^ exponent                                 (point_eq)
    m ≤ g.floor r ↔ g.point m ≤ |r|                                 (le_floor_iff)
    ||r| - g.point (g.nearest r)| ≤ ||r| - g.point k|               (abs_sub_nearest_le)
    with equality only if g.nearest r is even and k is odd, or k = g.nearest r
                                                                    (even_nearest_of_tie)
    |r| = g.point m → g.nearest r = m                               (nearest_eq)

The size of a magnitude is found in whole numbers as well, as the logarithm of a fraction
(`fractionLog_eq`).
-/

namespace LineCalc

/-- Rounding moves a fraction by a half at most, and by just a half only to an even number. -/
theorem roundDiv_spec (num : Nat) {den : Nat} (hd : 0 < den) :
    2 * num ≤ (2 * roundDiv num den + 1) * den ∧ 2 * roundDiv num den * den ≤ 2 * num + den ∧
      (2 * num = (2 * roundDiv num den + 1) * den ∨ 2 * roundDiv num den * den = 2 * num + den →
        Even (roundDiv num den)) := by
  have hdiv := Nat.div_add_mod num den
  have hmod := Nat.mod_lt num hd
  unfold roundDiv
  generalize num / den = k at *
  generalize num % den = t at *
  subst hdiv
  split
  · refine ⟨by linarith, by linarith, ?_⟩
    rintro (h | h)
    · linarith
    · linarith
  · split
    · refine ⟨by linarith, by linarith, ?_⟩
      rintro (h | h)
      · linarith
      · linarith
    · obtain rfl : den = 2 * t := by omega
      refine ⟨?_, ?_, fun _ => Nat.even_iff.mpr (by omega)⟩
      · rcases Nat.mod_two_eq_zero_or_one k with h | h
        · rw [h]
          linarith
        · rw [h]
          linarith
      · rcases Nat.mod_two_eq_zero_or_one k with h | h
        · rw [h]
          linarith
        · rw [h]
          linarith

theorem abs_sub_roundDiv_le (num : Nat) {den : Nat} (hd : 0 < den) :
    |(num / den : Rat) - roundDiv num den| ≤ 1 / 2 := by
  obtain ⟨hle, hge, -⟩ := roundDiv_spec num hd
  have hpos : (0 : Rat) < den := Nat.cast_pos.mpr hd
  have hle' : (2 * num : Rat) ≤ (2 * roundDiv num den + 1) * den := by exact_mod_cast hle
  have hge' : (2 * roundDiv num den * den : Rat) ≤ 2 * num + den := by exact_mod_cast hge
  have hupper : (num / den : Rat) ≤ roundDiv num den + 1 / 2 := by
    rw [div_le_iff₀ hpos]
    linarith
  have hlower : (roundDiv num den - 1 / 2 : Rat) ≤ num / den := by
    rw [le_div_iff₀ hpos]
    linarith
  exact abs_le.mpr ⟨by linarith, by linarith⟩

theorem even_roundDiv {num den : Nat} (hd : 0 < den)
    (h : |(num / den : Rat) - roundDiv num den| = 1 / 2) : Even (roundDiv num den) := by
  refine (roundDiv_spec num hd).2.2 ?_
  have hne : (den : Rat) ≠ 0 := Nat.cast_ne_zero.mpr hd.ne'
  rcases (abs_eq (by norm_num)).mp h with h | h
  · have hnum := (div_eq_iff hne).mp (sub_eq_iff_eq_add.mp h)
    have htwice : (2 * num : Rat) = (2 * roundDiv num den + 1) * den := by linarith
    exact .inl (by exact_mod_cast htwice)
  · have hnum := (div_eq_iff hne).mp (sub_eq_iff_eq_add.mp h)
    have htwice : (2 * roundDiv num den * den : Rat) = 2 * num + den := by linarith
    exact .inr (by exact_mod_cast htwice)

theorem abs_eq_natAbs_div (r : Rat) : |r| = r.num.natAbs / r.den := by
  rw [Rat.abs_def, Rat.divInt_eq_div, Int.cast_natCast, Int.cast_natCast]

/-! ## Logarithms of fractions -/

/-- The logarithm of a positive fraction, by that of a whole quotient of at least one. -/
def fractionLog (b num den : Nat) : Int :=
  if den ≤ num then (Nat.log b (num / den) : Int)
  else -((Nat.log b ((den - 1) / num) + 1 : Nat) : Int)

section
variable {b num den : Nat} (hb : 1 < b) (hn : 0 < num) (hd : 0 < den)
include hb hn hd

theorem zpow_fractionLog_le : (b : Rat) ^ fractionLog b num den ≤ num / den := by
  rw [le_div_iff₀ (Nat.cast_pos.mpr hd)]
  unfold fractionLog
  split
  · rename_i h
    have hlog := Nat.pow_log_le_self b (Nat.div_pos h hd).ne'
    have hmul := (Nat.le_div_iff_mul_le hd).mp hlog
    rw [zpow_natCast]
    exact_mod_cast hmul
  · have hlog : (den - 1) / num < b ^ (Nat.log b ((den - 1) / num) + 1) :=
      Nat.lt_pow_succ_log_self hb _
    have hmul := (Nat.div_lt_iff_lt_mul hn).mp hlog
    have hle : den ≤ b ^ (Nat.log b ((den - 1) / num) + 1) * num := by omega
    have hbase : (0 : Rat) < b := by exact_mod_cast hb.le
    rw [zpow_neg, zpow_natCast, inv_mul_le_iff₀ (pow_pos hbase _)]
    exact_mod_cast hle

theorem lt_zpow_fractionLog : (num / den : Rat) < b ^ (fractionLog b num den + 1) := by
  rw [div_lt_iff₀ (Nat.cast_pos.mpr hd)]
  unfold fractionLog
  split
  · have hlog : num / den < b ^ (Nat.log b (num / den) + 1) := Nat.lt_pow_succ_log_self hb _
    have hmul := (Nat.div_lt_iff_lt_mul hd).mp hlog
    rw [← Nat.cast_add_one, zpow_natCast]
    exact_mod_cast hmul
  · rename_i h
    have hpos : 0 < (den - 1) / num := Nat.div_pos (by omega) hn
    have hmul := (Nat.le_div_iff_mul_le hn).mp (Nat.pow_log_le_self b hpos.ne')
    have hlt : b ^ Nat.log b ((den - 1) / num) * num < den := by omega
    have hexponent : -((Nat.log b ((den - 1) / num) + 1 : Nat) : Int) + 1 =
        -(Nat.log b ((den - 1) / num) : Nat) := by omega
    have hbase : (0 : Rat) < b := by exact_mod_cast hb.le
    rw [hexponent, zpow_neg, zpow_natCast, lt_inv_mul_iff₀ (pow_pos hbase _)]
    exact_mod_cast hlt

end

theorem fractionLog_eq {b : Nat} (hb : 1 < b) {r : Rat} (hr : r ≠ 0) :
    fractionLog b r.num.natAbs r.den = Int.log b |r| := by
  have hn : 0 < r.num.natAbs := Int.natAbs_pos.mpr (Rat.num_ne_zero.mpr hr)
  have hpos : 0 < |r| := abs_pos.mpr hr
  have hle := zpow_fractionLog_le hb hn r.den_pos
  have hlt := lt_zpow_fractionLog hb hn r.den_pos
  rw [← abs_eq_natAbs_div] at hle hlt
  have hlow := (Int.zpow_le_iff_le_log hb hpos).mp hle
  have hhigh := (Int.lt_zpow_iff_log_lt hb hpos).mp hlt
  omega

namespace Grid

variable {g : Grid} {r : Rat} {m : Nat}

/-- The distance of two neighbours. -/
def unit (g : Grid) : Rat := (g.base : Rat) ^ g.exponent

theorem unit_pos (hb : 0 < g.base) : 0 < g.unit := zpow_pos (Nat.cast_pos.mpr hb) _

/-- A unit of one or more. -/
theorem unit_of_nonneg (h : 0 ≤ g.exponent) :
    g.unit = (Nat.pow g.base g.exponent.toNat : Nat) := by
  obtain ⟨k, hk⟩ := Int.eq_ofNat_of_zero_le h
  simp [unit, hk]

/-- A unit below one. -/
theorem unit_of_neg (h : ¬0 ≤ g.exponent) :
    g.unit = ((Nat.pow g.base (-g.exponent).toNat : Nat) : Rat)⁻¹ := by
  obtain ⟨k, hk⟩ := Int.eq_ofNat_of_zero_le (by omega : 0 ≤ -g.exponent)
  rw [unit, show g.exponent = -(k : Int) by omega]
  simp

theorem point_eq (g : Grid) (m : Nat) : g.point m = m * g.unit := by
  unfold point
  split
  · rename_i h
    rw [unit_of_nonneg h, Rat.mkRat_eq_div]
    simp
  · rename_i h
    rw [unit_of_neg h, Rat.mkRat_eq_div, div_eq_mul_inv, Int.cast_natCast]

theorem point_nonneg (hb : 0 < g.base) (m : Nat) : 0 ≤ g.point m := by
  rw [point_eq]
  exact mul_nonneg (Nat.cast_nonneg m) (unit_pos hb).le

theorem point_lt_point (hb : 0 < g.base) {k : Nat} (h : m < k) : g.point m < g.point k := by
  rw [point_eq, point_eq]
  exact mul_lt_mul_of_pos_right (Nat.cast_lt.mpr h) (unit_pos hb)

theorem point_le_point (hb : 0 < g.base) {k : Nat} (h : m ≤ k) : g.point m ≤ g.point k := by
  rw [point_eq, point_eq]
  exact mul_le_mul_of_nonneg_right (Nat.cast_le.mpr h) (unit_pos hb).le

theorem quotient_snd_pos (hb : 0 < g.base) (r : Rat) : 0 < (g.quotient r).2 := by
  unfold quotient
  split
  · exact Nat.mul_pos r.den_pos (Nat.pow_pos hb)
  · exact r.den_pos

/-- The quotient is the magnitude in units of the grid. -/
theorem quotient_fst (hb : 0 < g.base) (r : Rat) :
    ((g.quotient r).1 : Rat) * g.unit = |r| * (g.quotient r).2 := by
  have hden : (r.den : Rat) ≠ 0 := Nat.cast_ne_zero.mpr r.den_nz
  unfold quotient
  split
  · rename_i h
    rw [abs_eq_natAbs_div, unit_of_nonneg h]
    push_cast
    field_simp
  · rename_i h
    have hpow : ((Nat.pow g.base (-g.exponent).toNat : Nat) : Rat) ≠ 0 :=
      Nat.cast_ne_zero.mpr (Nat.pow_pos hb).ne'
    rw [abs_eq_natAbs_div, unit_of_neg h]
    push_cast
    field_simp

/-! ## The last point not beyond -/

theorem le_floor_iff (hb : 0 < g.base) : m ≤ g.floor r ↔ g.point m ≤ |r| := by
  have hpos : (0 : Rat) < (g.quotient r).2 := Nat.cast_pos.mpr (quotient_snd_pos hb r)
  rw [floor, Nat.le_div_iff_mul_le (quotient_snd_pos hb r), point_eq,
    ← mul_le_mul_iff_left₀ hpos, ← quotient_fst hb r, mul_right_comm,
    mul_le_mul_iff_left₀ (unit_pos hb)]
  exact_mod_cast Iff.rfl

theorem floor_eq (hb : 0 < g.base) (h : |r| = g.point m) : g.floor r = m := by
  have hle : m ≤ g.floor r := (le_floor_iff hb).mpr h.ge
  by_contra hne
  have hpoint := (le_floor_iff hb).mp (show m + 1 ≤ g.floor r by omega)
  exact absurd hpoint (h ▸ point_lt_point hb (Nat.lt_succ_self m)).not_ge

/-! ## The nearest point -/

/-- How far the magnitude is from a point, in units of the grid. -/
theorem abs_sub_point (hb : 0 < g.base) (r : Rat) (m : Nat) :
    |(|r| - g.point m)| = |((g.quotient r).1 / (g.quotient r).2 : Rat) - m| * g.unit := by
  have hden : ((g.quotient r).2 : Rat) ≠ 0 := Nat.cast_ne_zero.mpr (quotient_snd_pos hb r).ne'
  have habs : |r| = (g.quotient r).1 / (g.quotient r).2 * g.unit := by
    rw [div_mul_eq_mul_div, quotient_fst hb r, mul_div_cancel_right₀ _ hden]
  rw [point_eq, habs, ← sub_mul, abs_mul, abs_of_pos (unit_pos hb)]

theorem two_mul_abs_sub_nearest_le (hb : 0 < g.base) (r : Rat) :
    2 * |(|r| - g.point (g.nearest r))| ≤ g.unit := by
  have hhalf := abs_sub_roundDiv_le (g.quotient r).1 (quotient_snd_pos hb r)
  have hscaled := mul_le_mul_of_nonneg_right hhalf (unit_pos hb).le
  rw [abs_sub_point hb, nearest]
  linarith

/-- Half way between two points the even one is chosen. -/
theorem even_nearest (hb : 0 < g.base) (h : 2 * |(|r| - g.point (g.nearest r))| = g.unit) :
    Even (g.nearest r) := by
  have hunit := unit_pos hb
  refine even_roundDiv (quotient_snd_pos hb r) (mul_right_cancel₀ hunit.ne' ?_)
  rw [← nearest, ← abs_sub_point hb]
  linarith

/-- The units between two points cannot be more than their distances from one place. -/
theorem mul_unit_le (hb : 0 < g.base) {n k : Nat} (h : (n : Int) ≤ |(k : Int) - m|) (x : Rat) :
    n * g.unit ≤ |x - g.point k| + |x - g.point m| := by
  have hcast : (n : Rat) ≤ |(k : Rat) - m| := by exact_mod_cast h
  have hpoints : n * g.unit ≤ |g.point k - g.point m| := by
    rw [point_eq, point_eq, ← sub_mul, abs_mul, abs_of_pos (unit_pos hb)]
    exact mul_le_mul_of_nonneg_right hcast (unit_pos hb).le
  rw [abs_sub_comm x (g.point k)]
  exact hpoints.trans (abs_sub_le _ x _)

/-- No other point is closer than the nearest one. -/
theorem abs_sub_nearest_le (hb : 0 < g.base) (r : Rat) (k : Nat) :
    |(|r| - g.point (g.nearest r))| ≤ |(|r| - g.point k)| := by
  by_cases hk : k = g.nearest r
  · rw [hk]
  · have hhalf := two_mul_abs_sub_nearest_le hb r
    have hone : ((1 : Nat) : Int) ≤ |(k : Int) - g.nearest r| := Int.one_le_abs (by omega)
    have hunit := mul_unit_le hb hone |r|
    push_cast at hunit
    linarith

/-- Where another point is as close, the nearest one is even and the other one is odd. -/
theorem even_nearest_of_tie (hb : 0 < g.base) {k : Nat} (hk : k ≠ g.nearest r)
    (h : |(|r| - g.point k)| = |(|r| - g.point (g.nearest r))|) :
    Even (g.nearest r) ∧ ¬ Even k := by
  have hpos := unit_pos hb
  have hhalf := two_mul_abs_sub_nearest_le hb r
  have hone : ((1 : Nat) : Int) ≤ |(k : Int) - g.nearest r| := Int.one_le_abs (by omega)
  have hunit := mul_unit_le hb hone |r|
  push_cast at hunit
  have heven : Even (g.nearest r) := even_nearest hb (by linarith)
  refine ⟨heven, fun hkeven => ?_⟩
  -- two even numbers would be two units apart
  obtain ⟨i, hi⟩ := heven
  obtain ⟨j, hj⟩ := hkeven
  have htwo : ((2 : Nat) : Int) ≤ |(k : Int) - g.nearest r| := le_abs.mpr (by omega)
  have hunits := mul_unit_le hb htwo |r|
  push_cast at hunits
  linarith

/-- Rounding does not go beyond a point that the magnitude does not go beyond. -/
theorem nearest_le_of_le (hb : 0 < g.base) {k : Nat} (h : |r| ≤ g.point k) : g.nearest r ≤ k := by
  by_contra hlt
  have hclose := abs_sub_nearest_le hb r k
  have hpoint : g.point k < g.point (g.nearest r) := point_lt_point hb (by omega)
  rw [abs_of_nonpos (sub_nonpos.mpr h), abs_of_nonpos (sub_nonpos.mpr (h.trans hpoint.le))]
    at hclose
  linarith

theorem le_nearest_of_le (hb : 0 < g.base) {k : Nat} (h : g.point k ≤ |r|) : k ≤ g.nearest r := by
  by_contra hlt
  have hclose := abs_sub_nearest_le hb r k
  have hpoint : g.point (g.nearest r) < g.point k := point_lt_point hb (by omega)
  rw [abs_of_nonneg (sub_nonneg.mpr h), abs_of_nonneg (sub_nonneg.mpr (hpoint.le.trans h))]
    at hclose
  linarith

/-- A number that lies on the grid is rounded to its own point. -/
theorem nearest_eq (hb : 0 < g.base) (h : |r| = g.point m) : g.nearest r = m :=
  le_antisymm (nearest_le_of_le hb h.le) (le_nearest_of_le hb h.ge)

end Grid

end LineCalc
