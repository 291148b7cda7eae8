import LineCalc.Proofs.Binary64.Rounding

/-!
# What a number stands for

A finite number stands for one fraction, zero of either sign for zero.  A sign is a factor, so what
can be represented does not depend on it, and rounding keeps what can be represented:

    Representable r → (ofRat r).Denotes r        (denotes_ofRat)
    i.natAbs ≤ 2 ^ 53 → Representable i          (representable_intCast)
-/

namespace LineCalc.Binary64

/-! ## Signs -/

/-- The factor that gives a magnitude its sign. -/
def sign (negative : Bool) : Rat := if negative then -1 else 1

theorem sign_false_mul (r : Rat) : sign false * r = r := one_mul r

theorem sign_true_mul (r : Rat) : sign true * r = -r := neg_one_mul r

theorem sign_xor (s t : Bool) : sign (s ^^ t) = sign s * sign t := by
  cases s with
  | false => simp [sign]
  | true =>
    cases t with
    | false => simp [sign]
    | true => simp [sign]

theorem sign_not (s : Bool) : sign (!s) = -sign s := by
  cases s with
  | false => rfl
  | true => exact (neg_neg 1).symm

theorem inv_sign (s : Bool) : (sign s)⁻¹ = sign s := by
  cases s with
  | false => exact inv_one
  | true => exact inv_neg_one

theorem sign_mul_abs (r : Rat) : sign (r.num < 0) * |r| = r := by
  unfold sign
  by_cases h : r < 0
  · rw [if_pos (decide_eq_true (Rat.num_neg.mpr h)), abs_of_neg h, neg_one_mul, neg_neg]
  · have hnum : ¬r.num < 0 := fun hn => h (Rat.num_neg.mp hn)
    rw [if_neg (by simpa using hnum), abs_of_nonneg (not_lt.mp h), one_mul]

theorem Finite.toRat_eq (x : Finite) : x.toRat = sign x.negative * x.magnitude := by
  unfold toRat sign
  split
  · rw [neg_one_mul]
  · rw [one_mul]

/-! ## What a number stands for -/

/-- The number is finite and stands for `r`. -/
def Denotes (x : Binary64) (r : Rat) : Prop := ∃ z : Finite, x = .finite z ∧ z.toRat = r

/-- Some number stands for `r`. -/
def Representable (r : Rat) : Prop := ∃ x : Finite, x.toRat = r

variable {x y : Binary64} {r s : Rat}

/-- The sign makes no difference to what can be represented. -/
theorem representable_iff : Representable r ↔ ∃ x : Finite, |r| = x.magnitude := by
  constructor
  · rintro ⟨x, rfl⟩
    exact ⟨x, x.abs_toRat⟩
  · rintro ⟨x, hx⟩
    refine ⟨{ x with negative := r.num < 0 }, ?_⟩
    rw [Finite.toRat_eq]
    change sign (r.num < 0) * x.magnitude = r
    rw [← hx, sign_mul_abs]

theorem representable_intCast {i : Int} (h : i.natAbs ≤ 2 ^ 53) : Representable i := by
  obtain ⟨x, hx⟩ := exists_magnitude_eq h
  refine representable_iff.mpr ⟨x, ?_⟩
  rw [hx, ← Int.cast_abs, Int.abs_eq_natAbs, Int.cast_natCast]

theorem denotes_round (h : Representable r) (negative : Bool) :
    (round negative r).Denotes (sign negative * |r|) := by
  obtain ⟨x, hx⟩ := representable_iff.mp h
  refine ⟨_, round_of_magnitude hx negative, ?_⟩
  rw [Finite.toRat_eq, hx]
  rfl

theorem denotes_ofRat (h : Representable r) : (ofRat r).Denotes r := by
  have hround := denotes_round h (r.num < 0)
  rwa [sign_mul_abs] at hround

theorem denotes_zero (negative : Bool) : (zero negative).Denotes 0 := by
  refine ⟨_, rfl, ?_⟩
  rw [Finite.toRat_eq, Finite.magnitude_eq_zero.mpr rfl, mul_zero]

/-- A zero of either sign stands for zero, and nothing else does. -/
theorem Denotes.isZero_iff (h : x.Denotes r) : x.isZero = true ↔ r = 0 := by
  obtain ⟨z, rfl, rfl⟩ := h
  rw [← abs_eq_zero, z.abs_toRat, Finite.magnitude_eq_zero]
  exact decide_eq_true_iff

end LineCalc.Binary64
