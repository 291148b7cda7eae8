import LineCalc.Proofs.Binary64.Nearest

/-!
# What rounds to a number

The fractions that round to one number form an interval, which reaches from the number no further
than half a unit of its last place:

    r ≤ s → s ≤ t → z.IsNearest r → z.IsNearest t → z.IsNearest s          (IsNearest.between)
    z.IsNearest r → 2 * ||r| - z.magnitude| ≤ 2 ^ z.exponent
                                                        (IsNearest.two_mul_abs_sub_le)

A magnitude is rounded in the same way with either sign (`ofRat_sign_mul`).
-/

namespace LineCalc.Binary64

variable {r s t : Rat} {z : Finite}

/-! ## Signs -/

theorem round_neg (negative : Bool) (r : Rat) : round negative (-r) = round negative r := by
  have hunit : unitExponent (-r) = unitExponent r := by
    simp only [unitExponent, Rat.num_neg_eq_neg_num, Rat.den_neg_eq_den,
      Int.natAbs_neg, neg_eq_zero]
  have hnearest (g : Grid) : g.nearest (-r) = g.nearest r := by
    simp only [Grid.nearest, Grid.quotient, Rat.num_neg_eq_neg_num, Rat.den_neg_eq_den,
      Int.natAbs_neg]
  rw [round, round, hunit, hnearest]

/-- A positive magnitude is rounded with its sign. -/
theorem ofRat_sign_mul (negative : Bool) (hr : 0 < r) :
    ofRat (sign negative * r) = round negative r := by
  cases negative with
  | false =>
    have hsign : decide (r.num < 0) = false :=
      decide_eq_false fun h => hr.not_gt (Rat.num_neg.mp h)
    rw [sign_false_mul, ofRat, hsign]
  | true =>
    have hsign : decide ((-r).num < 0) = true :=
      decide_eq_true (Rat.num_neg.mpr (neg_lt_zero.mpr hr))
    rw [sign_true_mul, ofRat, hsign, round_neg]

theorem round_eq_finite_iff (hr : 0 < r) :
    round z.negative r = .finite z ↔ z.IsNearest (sign z.negative * r) := by
  rw [← ofRat_sign_mul _ hr, ← rounds_iff]
  constructor
  · rintro (h | -)
    exact h
  · exact .finite

/-! ## The interval -/

theorem Finite.IsNearest.between (hr : z.IsNearest r) (ht : z.IsNearest t) (hrs : r ≤ s)
    (hst : s ≤ t) : z.IsNearest s := by
  have hrounds := rounds_ofRat s
  generalize ofRat s = y at hrounds
  cases hrounds with
  | @finite w hw =>
    have hrat : z.toRat = w.toRat := le_antisymm (hr.toRat_le hw hrs) (hw.toRat_le ht hst)
    have hsign : z.negative = w.negative := by
      rw [hw.sign]
      by_cases hs : s < 0
      · rw [hr.sign, decide_eq_true hs, decide_eq_true (hrs.trans_lt hs)]
      · rw [ht.sign, decide_eq_false hs, decide_eq_false fun h => hs (hst.trans_lt h)]
    have hmagnitude : z.magnitude = w.magnitude := by rw [← abs_toRat, hrat, abs_toRat]
    rwa [Finite.eq_of_magnitude hsign hmagnitude]
  | infinity hle =>
    obtain ⟨hlow, -⟩ := abs_lt.mp hr.in_range
    obtain ⟨-, hhigh⟩ := abs_lt.mp ht.in_range
    exact absurd (abs_lt.mpr ⟨hlow.trans_le hrs, hst.trans_lt hhigh⟩) hle.not_gt

/-- Magnitudes that round to a number with its sign. -/
theorem round_between (hpos : 0 < r) (hrs : r ≤ s) (hst : s ≤ t)
    (hr : round z.negative r = .finite z) (ht : round z.negative t = .finite z) :
    round z.negative s = .finite z := by
  rw [round_eq_finite_iff hpos] at hr
  rw [round_eq_finite_iff ((hpos.trans_le hrs).trans_le hst)] at ht
  rw [round_eq_finite_iff (hpos.trans_le hrs)]
  cases hsign : z.negative with
  | false =>
    rw [hsign, sign_false_mul] at hr ht
    rw [sign_false_mul]
    exact hr.between ht hrs hst
  | true =>
    rw [hsign, sign_true_mul] at hr ht
    rw [sign_true_mul]
    exact ht.between hr (neg_le_neg hst) (neg_le_neg hrs)

/-- Nothing is rounded on a coarser grid than that of the result. -/
theorem Finite.IsNearest.unitExponent_le (h : z.IsNearest r) : unitExponent r ≤ z.exponent := by
  by_contra hlt
  have hbelow := magnitude_lt_point (not_le.mp hlt)
  have hleast := z.canonical.2.1
  have hfull : 2 ^ 52 ≤ significandOf r := le_significandOf (by omega)
  rw [h.magnitude_eq] at hbelow
  exact hbelow.not_ge (Grid.point_le_point (gridOf_base_pos r) hfull)

/-- Rounding moves a magnitude by half a unit of the result at most. -/
theorem Finite.IsNearest.two_mul_abs_sub_le (h : z.IsNearest r) :
    2 * |(|r| - z.magnitude)| ≤ 2 ^ z.exponent := by
  rw [h.magnitude_eq]
  calc 2 * |(|r| - (gridOf r).point (significandOf r))| ≤ 2 ^ unitExponent r :=
        Grid.two_mul_abs_sub_nearest_le (gridOf_base_pos r) r
    _ ≤ 2 ^ z.exponent := zpow_le_zpow_right₀ (by decide) h.unitExponent_le

end LineCalc.Binary64
