import LineCalc.Grid
import LineCalc.Text.Basic

/-!
# Decimals

A decimal is `coefficient * 10 ^ exponent`; the digits of its coefficient are what is written.
-/

namespace LineCalc

/-- `coefficient * 10 ^ exponent`. -/
structure Decimal where
  coefficient : Nat
  exponent : Int
  deriving DecidableEq

namespace Decimal

/-- The number, exactly. -/
def toRat (d : Decimal) : Rat := Grid.point ⟨10, d.exponent⟩ d.coefficient

/-- The digits of the coefficient, without leading zeros. -/
def digits (d : Decimal) : Text := Nat.toDigits 10 d.coefficient

/-- The exponent of the first digit. -/
def leading (d : Decimal) : Int := d.exponent + d.digits.length - 1

/-- The `e` for which `10 ^ e ≤ r < 10 ^ (e + 1)`, of a positive `r`. -/
def magnitudeOf (r : Rat) : Int :=
  if r.den ≤ r.num.natAbs then (Nat.toDigits 10 (r.num.natAbs / r.den)).length - 1
  else -((Nat.toDigits 10 ((r.den - 1) / r.num.natAbs)).length : Int)

end Decimal

end LineCalc
