import LineCalc.Proofs.Binary64.Denotation

/-!
# Rounding finds the nearest number

`Rounds r x` says what it is to round correctly, without a word on how it is done: no finite number
is closer to `r` than `x`, and where another one is as close, `x` has the even significand; from
half way between the largest finite number and `2 ^ 1024` on, `x` is infinite.  For every `r` there
is one such `x`, which is what rounding gives, and with `r` it grows:

    Rounds r x  ↔  ofRat r = x                          (rounds_iff)
    r ≤ s → Rounds r x → Rounds s y → x.AtMost y        (Rounds.atMost)

All numbers that have a chance of being nearest lie on the grid of `unitExponent r`, for one that is
between its points is further away than some point (`exists_point_or_lt`).
-/

namespace LineCalc.Binary64

/-- Half way from the largest finite number to the next power of two. -/
def overflow : Rat := 2 ^ (1024 : Int) - 2 ^ (970 : Int)

/-- No finite number is closer to `r`, which is not out of range; where one is as close, the
significand is even.  Zero has the sign of what is rounded. -/
structure Finite.IsNearest (z : Finite) (r : Rat) : Prop where
  sign : z.negative = decide (r < 0)
  in_range : |r| < overflow
  closest : ∀ y : Finite, |r - z.toRat| ≤ |r - y.toRat|
  even : ∀ y : Finite, |r - y.toRat| = |r - z.toRat| → y.toRat ≠ z.toRat → Even z.significand

/-- The number is `r`, correctly rounded. -/
inductive Rounds (r : Rat) : Binary64 → Prop
  | finite {z : Finite} : z.IsNearest r → Rounds r (.finite z)
  | infinity : overflow ≤ |r| → Rounds r (.infinity (decide (r < 0)))

/-- One number is not greater than the other; of what is no number this is never said. -/
def AtMost : Binary64 → Binary64 → Prop
  | .finite x, .finite y => x.toRat ≤ y.toRat
  | .infinity true, .finite _ | .finite _, .infinity false => True
  | .infinity s, .infinity t => s = true ∨ t = false
  | _, _ => False

variable {r s : Rat} {x y : Binary64} {z w : Finite}

/-! ## Magnitudes -/

theorem two_zpow_eq : (2 : Rat) ^ (1024 : Int) = 2 ^ 53 * 2 ^ (971 : Int) :=
  zpow_add₀ (by decide) 53 971

theorem overflow_eq : overflow = (2 ^ 53 - 1 / 2) * 2 ^ (971 : Int) := by
  have hhalf : (2 : Rat) ^ (970 : Int) = 2 ^ (971 : Int) * 2⁻¹ := by
    rw [show (970 : Int) = 971 - 1 by decide, zpow_sub_one₀ (by decide)]
  rw [overflow, two_zpow_eq, hhalf]
  generalize (2 : Rat) ^ (971 : Int) = u
  ring

theorem Finite.magnitude_lt (z : Finite) : z.magnitude < 2 ^ (1024 : Int) := by
  obtain ⟨hm, -, hq, -⟩ := z.canonical
  have hle : (2 : Rat) ^ z.exponent ≤ 2 ^ (971 : Int) := zpow_le_zpow_right₀ (by decide) hq
  have hlt : (z.significand : Rat) < 2 ^ 53 := by exact_mod_cast hm
  calc z.magnitude = z.significand * (2 : Rat) ^ z.exponent := z.magnitude_eq
    _ ≤ z.significand * 2 ^ (971 : Int) := mul_le_mul_of_nonneg_left hle (Nat.cast_nonneg _)
    _ < 2 ^ 53 * 2 ^ (971 : Int) := mul_lt_mul_of_pos_right hlt (zpow_pos (by decide) _)
    _ = 2 ^ (1024 : Int) := two_zpow_eq.symm

/-- A magnitude has one canonical form. -/
theorem Finite.eq_of_magnitude (hsign : z.negative = w.negative)
    (h : z.magnitude = w.magnitude) : z = w := by
  have hz := round_of_magnitude (abs_of_nonneg z.magnitude_nonneg) z.negative
  have hw := round_of_magnitude ((abs_of_nonneg z.magnitude_nonneg).trans h) z.negative
  obtain ⟨negative, m, q, hc⟩ := w
  obtain rfl : z.negative = negative := hsign
  exact Binary64.finite.inj (hz.symm.trans hw)

/-! ## The grid of a magnitude -/

/-- The grid that `r` is rounded on. -/
def gridOf (r : Rat) : Grid := ⟨2, unitExponent r⟩

theorem gridOf_base_pos (r : Rat) : 0 < (gridOf r).base := Nat.two_pos

theorem gridOf_unit (r : Rat) : (gridOf r).unit = 2 ^ unitExponent r := rfl

theorem gridOf_point (r : Rat) (m : Nat) : (gridOf r).point m = m * 2 ^ unitExponent r :=
  Grid.point_eq _ _

theorem le_unitExponent (r : Rat) : -1074 ≤ unitExponent r := by
  unfold unitExponent
  split
  · exact le_refl _
  · exact le_max_right _ _

theorem unitExponent_of_ne_zero (hr : r ≠ 0) :
    unitExponent r = max (Int.log 2 |r| - 52) (-1074) := by
  rw [unitExponent, if_neg (Rat.num_ne_zero.mpr hr), binade_eq_log hr]

/-- A magnitude lies below the point number `2 ^ 53` of its grid. -/
theorem abs_lt_point (r : Rat) : |r| < (gridOf r).point (2 ^ 53) := by
  rw [gridOf_point]
  by_cases hr : r = 0
  · rw [hr, abs_zero]
    positivity
  · have hlog : Int.log 2 |r| + 1 ≤ 53 + unitExponent r := by
      rw [unitExponent_of_ne_zero hr]
      omega
    calc |r| < (2 : Nat) ^ (Int.log 2 |r| + 1) := Int.lt_zpow_succ_log_self (by decide) _
      _ = (2 : Rat) ^ (Int.log 2 |r| + 1) := by rw [Nat.cast_two]
      _ ≤ 2 ^ (53 + unitExponent r) := zpow_le_zpow_right₀ (by decide) hlog
      _ = (2 ^ 53 : Nat) * 2 ^ unitExponent r := by rw [zpow_add₀ (by decide)]; norm_num

/-- It does not lie below the point number `2 ^ 52`, unless no grid is finer. -/
theorem point_le_abs (h : unitExponent r ≠ -1074) : (gridOf r).point (2 ^ 52) ≤ |r| := by
  have hr : r ≠ 0 := by
    rintro rfl
    exact h rfl
  have hlog : 52 + unitExponent r ≤ Int.log 2 |r| := by
    rw [unitExponent_of_ne_zero hr] at h ⊢
    omega
  calc (gridOf r).point (2 ^ 52) = (2 : Rat) ^ (52 + unitExponent r) := by
        rw [gridOf_point, zpow_add₀ (by decide)]; norm_num
    _ ≤ 2 ^ Int.log 2 |r| := zpow_le_zpow_right₀ (by decide) hlog
    _ = (2 : Nat) ^ Int.log 2 |r| := by rw [Nat.cast_two]
    _ ≤ |r| := Int.zpow_log_le_self (by decide) (abs_pos.mpr hr)

/-- The significand that `r` is rounded to, before it is brought into canonical form. -/
def significandOf (r : Rat) : Nat := (gridOf r).nearest r

theorem significandOf_le (r : Rat) : significandOf r ≤ 2 ^ 53 :=
  Grid.nearest_le_of_le (gridOf_base_pos r) (abs_lt_point r).le

theorem le_significandOf (h : unitExponent r ≠ -1074) : 2 ^ 52 ≤ significandOf r :=
  Grid.le_nearest_of_le (gridOf_base_pos r) (point_le_abs h)

/-- What has a finer grid lies below all that is rounded on this one. -/
theorem magnitude_lt_point (h : z.exponent < unitExponent r) :
    z.magnitude < (gridOf r).point (2 ^ 52) := by
  have hunit : (2 : Rat) ^ z.exponent ≤ 2 ^ (unitExponent r - 1) :=
    zpow_le_zpow_right₀ (by decide) (by omega)
  have hm : (z.significand : Rat) < 2 ^ 53 := by exact_mod_cast z.canonical.1
  calc z.magnitude = z.significand * (2 : Rat) ^ z.exponent := z.magnitude_eq
    _ ≤ z.significand * 2 ^ (unitExponent r - 1) := by gcongr
    _ < 2 ^ 53 * 2 ^ (unitExponent r - 1) := by gcongr
    _ = (gridOf r).point (2 ^ 52) := by
      rw [gridOf_point, zpow_sub_one₀ (by decide)]; push_cast; ring

/-- A finite number is a point of the grid, or something between two points, and then one of these
is closer. -/
theorem exists_point_or_lt (r : Rat) (y : Finite) :
    (∃ k, y.magnitude = (gridOf r).point k ∧ (Even y.significand → Even k)) ∨
      |(|r| - (gridOf r).point (significandOf r))| < |(|r| - y.magnitude)| := by
  rcases le_or_gt (unitExponent r) y.exponent with hle | hlt
  · refine .inl ⟨y.significand * 2 ^ (y.exponent - unitExponent r).toNat, ?_,
      fun heven => heven.mul_right _⟩
    have hexponent : y.exponent = (y.exponent - unitExponent r).toNat + unitExponent r := by omega
    rw [gridOf_point, y.magnitude_eq, Nat.cast_mul, Nat.cast_pow, Nat.cast_two, mul_assoc,
      ← zpow_natCast, ← zpow_add₀ (by decide), ← hexponent]
  · have hleast := y.canonical.2.1
    have hpoint := point_le_abs (r := r) (by omega)
    have hbelow := magnitude_lt_point hlt
    have hclose := Grid.abs_sub_nearest_le (gridOf_base_pos r) r (2 ^ 52)
    rw [abs_of_nonneg (sub_nonneg.mpr hpoint), ← significandOf] at hclose
    rw [abs_of_nonneg (sub_nonneg.mpr (hbelow.le.trans hpoint))]
    exact .inr (by linarith)

/-! ## What rounding gives -/

section
variable {m : Nat} {q : Int} (hm : m ≤ 2 ^ 53) (hq : -1074 ≤ q) (hfull : q ≠ -1074 → 2 ^ 52 ≤ m)
include hm hq hfull

/-- What has no canonical form is too large. -/
theorem two_zpow_le_of_not_canonical (hc : ¬ Canonical m q) (hhalf : ¬ Canonical (m / 2) (q + 1)) :
    (2 : Rat) ^ (1024 : Int) ≤ m * 2 ^ q := by
  unfold Canonical at hc hhalf
  rcases Nat.lt_or_eq_of_le hm with hlt | rfl
  · have hexponent : (2 : Rat) ^ (972 : Int) ≤ 2 ^ q :=
      zpow_le_zpow_right₀ (by decide) (by omega)
    have hleast : (2 : Rat) ^ 52 ≤ m := by exact_mod_cast hfull (by omega)
    have hsplit : (2 : Rat) ^ (1024 : Int) = 2 ^ 52 * 2 ^ (972 : Int) :=
      zpow_add₀ (by decide) 52 972
    rw [hsplit]
    gcongr
  · have hexponent : (2 : Rat) ^ (971 : Int) ≤ 2 ^ q :=
      zpow_le_zpow_right₀ (by decide) (by omega)
    rw [two_zpow_eq, Nat.cast_pow, Nat.cast_two]
    gcongr

/-- A significand of at most `2 ^ 53` on its grid is brought into canonical form, if there is
one. -/
theorem assemble_cases (negative : Bool) :
    (∃ z : Finite, assemble negative m q = .finite z ∧ z.negative = negative ∧
      z.magnitude = m * 2 ^ q ∧ (Even m → Even z.significand)) ∨
    (assemble negative m q = .infinity negative ∧ (2 : Rat) ^ (1024 : Int) ≤ m * 2 ^ q) := by
  unfold assemble
  by_cases hc : Canonical m q
  · rw [dif_pos hc]
    exact .inl ⟨_, rfl, rfl, Finite.magnitude_eq _, id⟩
  · rw [dif_neg hc]
    by_cases hhalf : Canonical (m / 2) (q + 1)
    · -- only a significand that was rounded up to `2 ^ 53` is halved
      rw [dif_pos hhalf]
      obtain rfl : m = 2 ^ 53 := by
        unfold Canonical at hc hhalf
        omega
      refine .inl ⟨_, rfl, rfl, ?_, fun _ => ⟨2 ^ 51, by norm_num⟩⟩
      rw [Finite.magnitude_eq, zpow_add_one₀ (by decide)]
      push_cast
      ring
    · rw [dif_neg hhalf]
      exact .inr ⟨rfl, two_zpow_le_of_not_canonical hm hq hfull hc hhalf⟩

end

/-- On the last grid that has numbers, the point number `2 ^ 53` is chosen from half way on, for
the one before it is odd. -/
theorem significandOf_eq_iff (hq : unitExponent r = 971) :
    significandOf r = 2 ^ 53 ↔ overflow ≤ |r| := by
  have hpos : (0 : Rat) < 2 ^ (971 : Int) := zpow_pos (by decide) _
  have hhalf := Grid.two_mul_abs_sub_nearest_le (gridOf_base_pos r) r
  have htie := Grid.even_nearest (gridOf_base_pos r) (r := r)
  rw [← significandOf, gridOf_unit, gridOf_point, hq] at hhalf htie
  rw [overflow_eq]
  generalize (2 : Rat) ^ (971 : Int) = u at *
  constructor
  · intro hm
    have hdist := neg_abs_le (|r| - significandOf r * u)
    have hcast : (significandOf r : Rat) = 2 ^ 53 := by rw [hm, Nat.cast_pow, Nat.cast_two]
    rw [hcast] at hhalf hdist
    linarith
  · intro h
    by_contra hne
    have hm : significandOf r ≤ 9007199254740991 := by
      have := significandOf_le r
      omega
    have hcast : (significandOf r : Rat) ≤ 9007199254740991 := by exact_mod_cast hm
    have hpoint := mul_le_mul_of_nonneg_right hcast hpos.le
    have hdist := le_abs_self (|r| - significandOf r * u)
    have heven : Even (significandOf r) := htie (le_antisymm hhalf (by linarith))
    have hleast : (9007199254740991 : Rat) ≤ significandOf r := by
      refine le_of_mul_le_mul_right ?_ hpos
      linarith
    have hodd : significandOf r = 9007199254740991 := le_antisymm hm (by exact_mod_cast hleast)
    rw [hodd] at heven
    exact absurd heven (by decide)

/-- What is rounded to `2 ^ 1024` or more is out of range. -/
theorem two_zpow_le_point_iff (r : Rat) :
    2 ^ (1024 : Int) ≤ (gridOf r).point (significandOf r) ↔ overflow ≤ |r| := by
  have hpos : (0 : Rat) < 2 ^ unitExponent r := zpow_pos (by decide) _
  have hlast : (significandOf r : Rat) ≤ 2 ^ 53 := by exact_mod_cast significandOf_le r
  rw [two_zpow_eq, gridOf_point]
  rcases lt_trichotomy (unitExponent r) 971 with hq | hq | hq
  · -- all points that can be reached are too small
    have hbelow := abs_lt_point r
    have hpoint := mul_le_mul_of_nonneg_right hlast hpos.le
    have hunit : (2 : Rat) ^ unitExponent r * 2 ≤ 2 ^ (971 : Int) := by
      rw [← zpow_add_one₀ (by decide)]
      exact zpow_le_zpow_right₀ (by decide) (by omega)
    rw [gridOf_point] at hbelow
    push_cast at hbelow
    rw [overflow_eq]
    generalize (2 : Rat) ^ (971 : Int) = u at *
    constructor
    · intro h
      linarith
    · intro h
      linarith
  · rw [hq] at hpos ⊢
    rw [← significandOf_eq_iff hq, mul_le_mul_iff_left₀ hpos]
    constructor
    · intro h
      exact le_antisymm (significandOf_le r) (by exact_mod_cast h)
    · intro h
      rw [h, Nat.cast_pow, Nat.cast_two]
  · -- nothing that is rounded here is in range
    have habove := point_le_abs (r := r) (by omega)
    have hleast : 2 ^ 52 ≤ (significandOf r : Rat) := by
      exact_mod_cast le_significandOf (r := r) (by omega)
    have hpoint := mul_le_mul_of_nonneg_right hleast hpos.le
    have hunit : 2 ^ (971 : Int) * 2 ≤ (2 : Rat) ^ unitExponent r := by
      rw [← zpow_add_one₀ (by decide)]
      exact zpow_le_zpow_right₀ (by decide) (by omega)
    rw [gridOf_point] at habove
    push_cast at habove
    rw [overflow_eq]
    generalize (2 : Rat) ^ (971 : Int) = u at *
    constructor
    · intro h
      linarith
    · intro h
      linarith

/-- A result is finite or out of range. -/
theorem ofRat_cases (r : Rat) :
    (∃ z : Finite, ofRat r = .finite z ∧ z.negative = decide (r < 0) ∧ |r| < overflow ∧
      z.magnitude = (gridOf r).point (significandOf r) ∧
      (Even (significandOf r) → Even z.significand)) ∨
    (ofRat r = .infinity (decide (r < 0)) ∧ overflow ≤ |r|) := by
  have hsign : decide (r.num < 0) = decide (r < 0) := by rw [decide_eq_decide, Rat.num_neg]
  have hround : ofRat r = assemble (decide (r < 0)) (significandOf r) (unitExponent r) := by
    rw [← hsign]
    rfl
  rw [hround]
  rcases assemble_cases (significandOf_le r) (le_unitExponent r) le_significandOf
    (decide (r < 0)) with ⟨z, hz, hneg, hmag, heven⟩ | ⟨hinf, hle⟩
  · rw [← gridOf_point] at hmag
    have hrange : ¬ overflow ≤ |r| := by
      rw [← two_zpow_le_point_iff, ← hmag, not_le]
      exact z.magnitude_lt
    exact .inl ⟨z, hz, hneg, not_le.mp hrange, hmag, heven⟩
  · rw [← gridOf_point, two_zpow_le_point_iff] at hle
    exact .inr ⟨hinf, hle⟩

/-! ## The nearest number -/

/-- With the sign of `r` it is the magnitudes that tell how far a number is from `r`. -/
theorem Finite.abs_sub_toRat (h : z.negative = decide (r < 0)) :
    |r - z.toRat| = |(|r| - z.magnitude)| := by
  rw [toRat, h]
  by_cases hr : r < 0
  · rw [if_pos (decide_eq_true hr), abs_of_neg hr, ← abs_neg]
    congr 1
    ring
  · rw [if_neg (by simpa using hr), abs_of_nonneg (not_lt.mp hr)]

theorem Finite.abs_sub_magnitude_le (r : Rat) (y : Finite) :
    |(|r| - y.magnitude)| ≤ |r - y.toRat| := by
  rw [← abs_toRat]
  exact abs_abs_sub_abs_le r y.toRat

/-- No finite number is closer than the point that is chosen. -/
theorem abs_sub_significandOf_le (r : Rat) (y : Finite) :
    |(|r| - (gridOf r).point (significandOf r))| ≤ |(|r| - y.magnitude)| := by
  rcases exists_point_or_lt r y with ⟨k, hk, -⟩ | hlt
  · rw [hk]
    exact Grid.abs_sub_nearest_le (gridOf_base_pos r) r k
  · exact hlt.le

/-- Of two opposite numbers the one on the other side of zero is not as close. -/
theorem Finite.toRat_eq_of_tie {y : Finite} (htie : |r - y.toRat| = |r - z.toRat|)
    (hmag : y.magnitude = z.magnitude) (hz : |r - z.toRat| ≤ |r|) : y.toRat = z.toRat := by
  rcases abs_eq_abs.mp htie with h | h
  · linarith
  · have hopposite : y.toRat = z.toRat ∨ y.toRat = -z.toRat :=
      abs_eq_abs.mp (by rw [abs_toRat, abs_toRat, hmag])
    rcases hopposite with hsame | hneg
    · exact hsame
    · obtain rfl : r = 0 := by linarith
      rw [zero_sub, abs_neg, abs_zero] at hz
      have hzero := abs_nonpos_iff.mp hz
      linarith

theorem Finite.isNearest_of_point (hsign : z.negative = decide (r < 0)) (hrange : |r| < overflow)
    (hpoint : z.magnitude = (gridOf r).point (significandOf r))
    (heven : Even (significandOf r) → Even z.significand) : z.IsNearest r := by
  have hdist := Finite.abs_sub_toRat hsign
  have hclosest (y : Finite) : |r - z.toRat| ≤ |(|r| - y.magnitude)| := by
    rw [hdist, hpoint]
    exact abs_sub_significandOf_le r y
  refine ⟨hsign, hrange, fun y => (hclosest y).trans (y.abs_sub_magnitude_le r), ?_⟩
  intro y htie hne
  have hmag : |(|r| - y.magnitude)| = |(|r| - (gridOf r).point (significandOf r))| := by
    rw [← hpoint, ← hdist]
    exact le_antisymm (htie ▸ y.abs_sub_magnitude_le r) (hclosest y)
  rcases exists_point_or_lt r y with ⟨k, hk, -⟩ | hlt
  · rw [hk] at hmag
    by_cases hkm : k = significandOf r
    · have hzero := hclosest ⟨false, 0, -1074, by decide⟩
      rw [Finite.magnitude_eq_zero.mpr rfl, sub_zero, abs_abs] at hzero
      exact absurd (Finite.toRat_eq_of_tie htie (by rw [hk, hpoint, hkm]) hzero) hne
    · exact heven (Grid.even_nearest_of_tie (gridOf_base_pos r) hkm hmag).1
  · exact absurd hmag hlt.ne'

/-- What rounding gives is correct. -/
theorem rounds_ofRat (r : Rat) : Rounds r (ofRat r) := by
  rcases ofRat_cases r with ⟨z, hz, hsign, hrange, hpoint, heven⟩ | ⟨hinf, hle⟩
  · rw [hz]
    exact .finite (Finite.isNearest_of_point hsign hrange hpoint heven)
  · rw [hinf]
    exact .infinity hle

theorem rounds_infinity_iff {negative : Bool} :
    Rounds r (.infinity negative) ↔ overflow ≤ |r| ∧ negative = decide (r < 0) := by
  constructor
  · rintro (_ | hle)
    exact ⟨hle, rfl⟩
  · rintro ⟨hle, rfl⟩
    exact .infinity hle

/-- The nearest number is at the point that is chosen. -/
theorem Finite.IsNearest.magnitude_eq (h : z.IsNearest r) :
    z.magnitude = (gridOf r).point (significandOf r) := by
  rcases ofRat_cases r with ⟨w, -, hsign, -, hpoint, -⟩ | ⟨-, hle⟩
  · have hclosest := h.closest w
    rw [Finite.abs_sub_toRat h.sign, Finite.abs_sub_toRat hsign, hpoint] at hclosest
    rcases exists_point_or_lt r z with ⟨k, hk, heven⟩ | hlt
    · by_contra hne
      have hkm : k ≠ significandOf r := by
        rintro rfl
        exact hne hk
      rw [hk] at hclosest
      have htie := le_antisymm hclosest (Grid.abs_sub_nearest_le (gridOf_base_pos r) r k)
      have hodd := (Grid.even_nearest_of_tie (gridOf_base_pos r) hkm htie).2
      refine hodd (heven (h.even w ?_ ?_))
      · rw [Finite.abs_sub_toRat h.sign, Finite.abs_sub_toRat hsign, hpoint, hk]
        exact htie.symm
      · intro heq
        rw [← abs_toRat, ← heq, abs_toRat] at hne
        exact hne hpoint
    · exact absurd hclosest hlt.not_ge
  · exact absurd h.in_range hle.not_gt

theorem Finite.IsNearest.unique (hz : z.IsNearest r) (hw : w.IsNearest r) : z = w :=
  Finite.eq_of_magnitude (hz.sign.trans hw.sign.symm) (hz.magnitude_eq.trans hw.magnitude_eq.symm)

theorem Rounds.unique (hx : Rounds r x) (hy : Rounds r y) : x = y := by
  cases hx with
  | finite hz =>
    cases hy with
    | finite hw => rw [hz.unique hw]
    | infinity hle => exact absurd hz.in_range hle.not_gt
  | infinity hle =>
    cases hy with
    | finite hw => exact absurd hw.in_range hle.not_gt
    | infinity _ => rfl

/-- **Correct rounding.**  Exactly one number is `r`, correctly rounded, and rounding gives it. -/
theorem rounds_iff : Rounds r x ↔ ofRat r = x := by
  constructor
  · intro h
    exact (rounds_ofRat r).unique h
  · rintro rfl
    exact rounds_ofRat r

/-! ## Order -/

/-- What is closer to the greater one of two numbers is not below the middle. -/
theorem add_le_of_closer {a b c : Rat} (h : |a - b| ≤ |a - c|) (hlt : c < b) : b + c ≤ 2 * a := by
  by_contra hmiddle
  have hclose : |a - c| < b - a := abs_lt.mpr ⟨by linarith, by linarith⟩
  have hfar := neg_le_abs (a - b)
  linarith

/-- What is closer to the smaller one of two numbers is not above the middle. -/
theorem le_add_of_closer {a b c : Rat} (h : |a - b| ≤ |a - c|) (hlt : b < c) : 2 * a ≤ b + c := by
  by_contra hmiddle
  have hclose : |a - c| < a - b := abs_lt.mpr ⟨by linarith, by linarith⟩
  have hfar := le_abs_self (a - b)
  linarith

theorem Finite.IsNearest.toRat_le (hz : z.IsNearest r) (hw : w.IsNearest s) (h : r ≤ s) :
    z.toRat ≤ w.toRat := by
  by_contra hnot
  have hlt := not_le.mp hnot
  have hr := add_le_of_closer (hz.closest w) hlt
  have hs := le_add_of_closer (hw.closest z) hlt
  obtain rfl : r = s := by linarith
  rw [hz.unique hw] at hlt
  exact lt_irrefl _ hlt

/-- Rounding keeps the order. -/
theorem Rounds.atMost (hx : Rounds r x) (hy : Rounds s y) (h : r ≤ s) : x.AtMost y := by
  cases hx with
  | @finite z hz =>
    cases hy with
    | finite hw => exact hz.toRat_le hw h
    | infinity hle =>
      by_cases hs : s < 0
      · have hrange := hz.in_range
        rw [abs_of_neg (h.trans_lt hs)] at hrange
        rw [abs_of_neg hs] at hle
        linarith
      · rw [decide_eq_false hs]
        trivial
  | infinity hle =>
    by_cases hr : r < 0
    · rw [decide_eq_true hr]
      cases hy with
      | finite _ => trivial
      | infinity _ => exact .inl rfl
    · have hs : ¬ s < 0 := fun hs => hr (h.trans_lt hs)
      cases hy with
      | finite hw =>
        have hrange := hw.in_range
        rw [abs_of_nonneg (not_lt.mp hs)] at hrange
        rw [abs_of_nonneg (not_lt.mp hr)] at hle
        linarith
      | infinity _ =>
        rw [decide_eq_false hr, decide_eq_false hs]
        exact Or.inr rfl

end LineCalc.Binary64
