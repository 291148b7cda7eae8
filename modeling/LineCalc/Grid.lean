/-!
# Grids

The multiples of a power of a base: of two where numbers are stored, of ten where they are written.
A magnitude lies on a grid point or between two neighbours, of which `floor` is the lower one and
`nearest` the closer one, or the even one at half way.  Both are computed exactly, from the
numerator and the denominator of the number in units of the grid.
-/

namespace LineCalc

/-- The multiples of `base ^ exponent`. -/
structure Grid where
  base : Nat
  exponent : Int

/-- `num / den` rounded to an integer, half to even. -/
def roundDiv (num den : Nat) : Nat :=
  if 2 * (num % den) < den then num / den
  else if den < 2 * (num % den) then num / den + 1
  else num / den + num / den % 2

namespace Grid

/-- The point number `m`. -/
def point (g : Grid) (m : Nat) : Rat :=
  if 0 ≤ g.exponent then mkRat (m * Nat.pow g.base g.exponent.toNat) 1
  else mkRat m (Nat.pow g.base (-g.exponent).toNat)

/-- Numerator and denominator of the magnitude of `r` in units of the grid. -/
def quotient (g : Grid) (r : Rat) : Nat × Nat :=
  if 0 ≤ g.exponent then (r.num.natAbs, r.den * Nat.pow g.base g.exponent.toNat)
  else (r.num.natAbs * Nat.pow g.base (-g.exponent).toNat, r.den)

/-- The number of the last point not beyond the magnitude of `r`. -/
def floor (g : Grid) (r : Rat) : Nat := (g.quotient r).1 / (g.quotient r).2

/-- The number of the point nearest to the magnitude of `r`, the even one of two. -/
def nearest (g : Grid) (r : Rat) : Nat := roundDiv (g.quotient r).1 (g.quotient r).2

end Grid

end LineCalc
