import LineCalc.Grid

/-!
# Binary64

The double-precision numbers of binary floating point.  A finite one is a sign and a magnitude
`m * 2 ^ q`, kept in the one form in which every magnitude has a single representation
(`Canonical`), so equality of values of this type is equality of the numbers with the two zeros
told apart.  There is one value that is not a number.
-/

namespace LineCalc

namespace Binary64

/-- `m * 2 ^ q` is in the range, and `m` has all its fifty-three digits (`0x10000000000000` is
`2 ^ 52`, `0x20000000000000` is `2 ^ 53`) unless `q` is the least exponent. -/
def Canonical (m : Nat) (q : Int) : Prop :=
  m < 0x20000000000000 ∧ -1074 ≤ q ∧ q ≤ 971 ∧ (0x10000000000000 ≤ m ∨ q = -1074)

instance (m : Nat) (q : Int) : Decidable (Canonical m q) :=
  inferInstanceAs (Decidable (_ ∧ _ ∧ _ ∧ (_ ∨ _)))

/-- A finite number: `± significand * 2 ^ exponent`. -/
structure Finite where
  negative : Bool
  significand : Nat
  exponent : Int
  canonical : Canonical significand exponent
  deriving DecidableEq

namespace Finite

/-- The absolute value, exactly. -/
def magnitude (x : Finite) : Rat := Grid.point ⟨2, x.exponent⟩ x.significand

/-- The number itself, exactly; both zeros are `0`. -/
def toRat (x : Finite) : Rat := if x.negative then -x.magnitude else x.magnitude

end Finite

end Binary64

/-- A double-precision number. -/
inductive Binary64
  | finite (x : Binary64.Finite)
  | infinity (negative : Bool)
  | nan
  deriving DecidableEq

namespace Binary64

/-- The zero of either sign. -/
def zero (negative : Bool) : Binary64 :=
  .finite ⟨negative, 0, -1074, by decide⟩

/-- Whether the number is one of the two zeros. -/
def isZero : Binary64 → Bool
  | .finite x => x.significand = 0
  | _ => false

/-- The number with the other sign. -/
def negate : Binary64 → Binary64
  | .finite x => .finite { x with negative := !x.negative }
  | .infinity negative => .infinity !negative
  | .nan => .nan

end Binary64

end LineCalc
