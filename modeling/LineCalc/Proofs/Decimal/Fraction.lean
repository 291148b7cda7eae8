import LineCalc.Proofs.Decimal.Integer

/-!
# Fractions in decimal

The digits of a numeral before the point denote its whole part, and those behind the point that
many decimal places; so zeros in front of the whole part and behind the fraction change nothing:

    n.toRat = whole + fraction / 10 ^ (number of decimal places)         (toRat_eq)
    n.toRat = (all digits) * 10 ^ -(number of decimal places)            (toRat_eq_decimal)
-/

namespace LineCalc

theorem Decimal.toRat_eq (d : Decimal) : d.toRat = d.coefficient * (10 : Rat) ^ d.exponent :=
  Grid.point_eq _ _

theorem Decimal.base_pos (e : Int) : 0 < (Grid.mk 10 e).base := Nat.zero_lt_succ 9

theorem Decimal.toRat_nonneg (d : Decimal) : 0 ≤ d.toRat := Grid.point_nonneg (base_pos _) _

theorem Decimal.toRat_pos_iff {d : Decimal} : 0 < d.toRat ↔ 0 < d.coefficient := by
  rw [toRat_eq, mul_pos_iff_of_pos_right (zpow_pos (by decide) _), Nat.cast_pos]

namespace Numeral

theorem ofDigits_append (l l' : List Nat) :
    ofDigits (l ++ l') = ofDigits l * 10 ^ l'.length + ofDigits l' := by
  rw [ofDigits_eq, ofDigits_eq, ofDigits_eq, List.reverse_append, Nat.ofDigits_append,
    List.length_reverse]
  ring

theorem ofDigits_zeros (k : Nat) : ofDigits (List.replicate k 0) = 0 := by
  rw [ofDigits_eq, List.reverse_replicate, Nat.ofDigits_replicate_zero]

theorem ofDigits_zeros_append (k : Nat) (l : List Nat) :
    ofDigits (List.replicate k 0 ++ l) = ofDigits l := by
  rw [ofDigits_append, ofDigits_zeros, Nat.zero_mul, Nat.zero_add]

theorem ofDigits_append_zeros (l : List Nat) (k : Nat) :
    ofDigits (l ++ List.replicate k 0) = ofDigits l * 10 ^ k := by
  rw [ofDigits_append, ofDigits_zeros, List.length_replicate, Nat.add_zero]

/-- All digits together are a coefficient. -/
theorem toRat_eq_decimal (n : Numeral) :
    n.toRat = Decimal.toRat ⟨ofDigits (n.whole ++ n.fraction), -n.fraction.length⟩ := by
  rw [toRat, Decimal.toRat_eq, Rat.mkRat_eq_div, zpow_neg, zpow_natCast, div_eq_mul_inv,
    Int.cast_natCast, Nat.pow_eq, Nat.cast_pow]
  rfl

/-- The whole part and the decimal places. -/
theorem toRat_eq (n : Numeral) :
    n.toRat = ofDigits n.whole + ofDigits n.fraction / 10 ^ n.fraction.length := by
  have hpow : (10 : Rat) ^ n.fraction.length ≠ 0 := pow_ne_zero _ (by decide)
  rw [toRat_eq_decimal, Decimal.toRat_eq, ofDigits_append, zpow_neg, zpow_natCast]
  push_cast
  field_simp

theorem toRat_nonneg (n : Numeral) : 0 ≤ n.toRat := by
  rw [toRat_eq_decimal]
  exact Decimal.toRat_nonneg _

/-- Zeros at either end do not count. -/
theorem toRat_zeros (n : Numeral) (k l : Nat) :
    toRat ⟨List.replicate k 0 ++ n.whole, n.fraction ++ List.replicate l 0⟩ = n.toRat := by
  have hpow : (10 : Rat) ^ l ≠ 0 := pow_ne_zero _ (by decide)
  rw [toRat_eq, toRat_eq, ofDigits_zeros_append, ofDigits_append_zeros, List.length_append,
    List.length_replicate, pow_add, Nat.cast_mul, Nat.cast_pow, Nat.cast_ofNat,
    mul_div_mul_right _ _ hpow]

end Numeral

end LineCalc
