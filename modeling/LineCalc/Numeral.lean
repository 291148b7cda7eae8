import LineCalc.Binary64.Rounding
import LineCalc.Text.Digit

/-!
# Numerals

A numeral is one or more decimal digits, optionally followed by a point and any number of digits;
the digits may come from any scripts.  It denotes a fraction exactly, and is read as the
double-precision number nearest to that fraction.
-/

namespace LineCalc

/-- The values of the digits before and behind the point. -/
structure Numeral where
  whole : List Nat
  fraction : List Nat

namespace Numeral

open Text (digitValue? isDigit)

/-- The number that a list of decimal digits denotes, first digit first. -/
def ofDigits (digits : List Nat) : Nat := digits.foldl (10 * · + ·) 0

/-- The fraction that the numeral denotes. -/
def toRat (n : Numeral) : Rat :=
  mkRat (ofDigits (n.whole ++ n.fraction)) (Nat.pow 10 n.fraction.length)

def toBinary64 (n : Numeral) : Binary64 := Binary64.ofRat n.toRat

/-- Reads a text that is a numeral as a whole. -/
def ofText? (s : Text) : Option Numeral :=
  let whole := s.takeWhile isDigit
  if whole = [] then none
  else
    match s.dropWhile isDigit with
    | [] => some ⟨whole.filterMap digitValue?, []⟩
    | c :: fraction =>
      if c = '.' ∧ fraction.all isDigit then
        some ⟨whole.filterMap digitValue?, fraction.filterMap digitValue?⟩
      else none

end Numeral

end LineCalc
