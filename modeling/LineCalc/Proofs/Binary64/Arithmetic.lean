import LineCalc.Binary64.Arithmetic
import LineCalc.Proofs.Binary64.Interval

/-!
# Operations round once

Each operation on finite numbers gives the exact result, correctly rounded, and where that is zero
the zero of a sign that the signs of the operands determine.  So an operation is exact where its
result can be represented:

    RoundsOnce (x.negative && y.negative) (x.toRat + y.toRat) (x + y)              (roundsOnce_add)
    x.Denotes r → y.Denotes s → Representable (r + s) → (x + y).Denotes (r + s)    (Denotes.add)

and likewise for the other three, for a quotient if the divisor is not zero.
-/

namespace LineCalc.Binary64

/-! ## Rounding once -/

/-- The number is `r`, correctly rounded; if `r` is zero, it is the zero of the given sign. -/
inductive RoundsOnce (negative : Bool) (r : Rat) : Binary64 → Prop
  | nonzero {x : Binary64} : r ≠ 0 → Rounds r x → RoundsOnce negative r x
  | zero : r = 0 → RoundsOnce negative r (Binary64.zero negative)

variable {r s : Rat} {x y : Binary64}

/-- What can be represented is not changed. -/
theorem RoundsOnce.denotes {negative : Bool} (h : RoundsOnce negative r x)
    (hr : Representable r) : x.Denotes r := by
  cases h with
  | nonzero _ h =>
    rw [← rounds_iff.mp h]
    exact denotes_ofRat hr
  | zero h =>
    rw [h]
    exact denotes_zero negative

/-- A magnitude that is rounded with a sign. -/
theorem roundsOnce_round (negative : Bool) (hr : 0 ≤ r) :
    RoundsOnce negative (sign negative * r) (round negative r) := by
  rcases hr.eq_or_lt with rfl | hpos
  · rw [mul_zero, round_zero]
    exact .zero rfl
  · have hsign : sign negative ≠ 0 := by cases negative <;> decide
    rw [← ofRat_sign_mul negative hpos]
    exact .nonzero (mul_ne_zero hsign hpos.ne') (rounds_ofRat _)

/-! ## Operations -/

theorem finite_add (x y : Finite) :
    Binary64.finite x + .finite y =
      if x.toRat + y.toRat = 0 then zero (x.negative && y.negative)
      else ofRat (x.toRat + y.toRat) := rfl

theorem finite_div {x y : Finite} (h : y.significand ≠ 0) :
    Binary64.finite x / .finite y =
      round (x.negative ^^ y.negative) (x.magnitude / y.magnitude) := if_pos h

theorem roundsOnce_add (x y : Finite) :
    RoundsOnce (x.negative && y.negative) (x.toRat + y.toRat) (.finite x + .finite y) := by
  rw [finite_add]
  split
  · rename_i hzero
    exact .zero hzero
  · rename_i hne
    exact .nonzero hne (rounds_ofRat _)

/-- A difference is a sum with the opposite number. -/
theorem roundsOnce_sub (x y : Finite) :
    RoundsOnce (x.negative && !y.negative) (x.toRat - y.toRat) (.finite x - .finite y) := by
  have hopposite : Finite.toRat { y with negative := !y.negative } = -y.toRat := by
    rw [Finite.toRat_eq, Finite.toRat_eq, sign_not, neg_mul]
    rfl
  have hadd := roundsOnce_add x { y with negative := !y.negative }
  rw [hopposite, ← sub_eq_add_neg] at hadd
  exact hadd

theorem roundsOnce_mul (x y : Finite) :
    RoundsOnce (x.negative ^^ y.negative) (x.toRat * y.toRat) (.finite x * .finite y) := by
  have hround := roundsOnce_round (x.negative ^^ y.negative)
    (mul_nonneg x.magnitude_nonneg y.magnitude_nonneg)
  rw [sign_xor, mul_mul_mul_comm, ← x.toRat_eq, ← y.toRat_eq] at hround
  exact hround

theorem roundsOnce_div (x : Finite) {y : Finite} (h : y.significand ≠ 0) :
    RoundsOnce (x.negative ^^ y.negative) (x.toRat / y.toRat) (.finite x / .finite y) := by
  have hround := roundsOnce_round (x.negative ^^ y.negative)
    (div_nonneg x.magnitude_nonneg y.magnitude_nonneg)
  rw [sign_xor, ← inv_sign y.negative, ← div_eq_mul_inv, div_mul_div_comm, ← x.toRat_eq,
    ← y.toRat_eq] at hround
  rwa [finite_div h]

/-! ## Exact results -/

theorem Denotes.add (hx : x.Denotes r) (hy : y.Denotes s) (h : Representable (r + s)) :
    (x + y).Denotes (r + s) := by
  obtain ⟨x, rfl, rfl⟩ := hx
  obtain ⟨y, rfl, rfl⟩ := hy
  exact (roundsOnce_add x y).denotes h

theorem Denotes.sub (hx : x.Denotes r) (hy : y.Denotes s) (h : Representable (r - s)) :
    (x - y).Denotes (r - s) := by
  obtain ⟨x, rfl, rfl⟩ := hx
  obtain ⟨y, rfl, rfl⟩ := hy
  exact (roundsOnce_sub x y).denotes h

theorem Denotes.mul (hx : x.Denotes r) (hy : y.Denotes s) (h : Representable (r * s)) :
    (x * y).Denotes (r * s) := by
  obtain ⟨x, rfl, rfl⟩ := hx
  obtain ⟨y, rfl, rfl⟩ := hy
  exact (roundsOnce_mul x y).denotes h

theorem Denotes.div (hx : x.Denotes r) (hy : y.Denotes s) (hs : s ≠ 0)
    (h : Representable (r / s)) : (x / y).Denotes (r / s) := by
  have hzero : ¬y.isZero = true := fun hz => hs (hy.isZero_iff.mp hz)
  obtain ⟨x, rfl, rfl⟩ := hx
  obtain ⟨y, rfl, rfl⟩ := hy
  exact (roundsOnce_div x fun hz => hzero (decide_eq_true hz)).denotes h

end LineCalc.Binary64
