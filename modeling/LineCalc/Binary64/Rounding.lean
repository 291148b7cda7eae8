import LineCalc.Binary64.Basic

/-!
# Rounding to binary64

A magnitude is rounded to the nearest point of the binary grid that its size calls for, half way to
the even one.  Where the result has no canonical form it is beyond the largest finite number, and
rounding gives infinity.

`round negative r` rounds the magnitude of `r`, and the sign is kept also where the result is zero;
`ofRat` rounds a signed number.
-/

namespace LineCalc.Binary64

/-- The `e` for which `2 ^ e ≤ num / den < 2 ^ (e + 1)`, of a positive fraction. -/
def binade (num den : Nat) : Int :=
  if den ≤ num then ((num / den).log2 : Nat) else -((((den - 1) / num).log2 + 1 : Nat) : Int)

/-- The exponent of the last of the fifty-three binary places of `r`; numbers below the normal
range share the least exponent. -/
def unitExponent (r : Rat) : Int :=
  if r.num = 0 then -1074 else max (binade r.num.natAbs r.den - 52) (-1074)

/-- The number `± m * 2 ^ q`, infinite where that is out of range.  A significand that was rounded
up to `2 ^ 53` is halved into the next binade. -/
def assemble (negative : Bool) (m : Nat) (q : Int) : Binary64 :=
  if h : Canonical m q then .finite ⟨negative, m, q, h⟩
  else if h : Canonical (m / 2) (q + 1) then .finite ⟨negative, m / 2, q + 1, h⟩
  else .infinity negative

/-- The number nearest to the magnitude of `r`, with the given sign. -/
def round (negative : Bool) (r : Rat) : Binary64 :=
  assemble negative (Grid.nearest ⟨2, unitExponent r⟩ r) (unitExponent r)

/-- The number nearest to `r`. -/
def ofRat (r : Rat) : Binary64 := round (r.num < 0) r

end LineCalc.Binary64
