import LineCalc.Decimal.Shortest
import LineCalc.Decimal.Layout
import LineCalc.Numeral

/-!
# How a result is shown

A result below `10 ^ 16` without a fraction is shown as an integer.  Any other number is shown by
the fewest digits that identify it, positionally while the first digit's exponent is from -4 to 15
and with an exponent otherwise.

`display` writes that text, and `readDisplay?` finds the number that it denotes.
-/

namespace LineCalc.Binary64

/-- Positional from `0.0001` to below `10 ^ 16`; an exponent has two digits at least. -/
def layout : Decimal.Layout := ⟨-4, 16, 2⟩

def signText (negative : Bool) : Text := if negative then ['-'] else []

/-- The fewest digits that identify the number, always with a point or an exponent if it is
finite. -/
def shortestText : Binary64 → Text
  | .finite x => signText x.negative ++ layout.write (Decimal.shortest x)
  | .infinity negative => signText negative ++ "inf".toList
  | .nan => "nan".toList

/-- Decimal digits behind a minus sign if there is need of one; zero has none. -/
def integerText (i : Int) : Text := signText (i < 0) ++ Nat.toDigits 10 i.natAbs

/-- The text of a result. -/
def display : Binary64 → Text
  | .finite x =>
    if x.toRat.den = 1 ∧ x.toRat.num.natAbs < 10000000000000000 then integerText x.toRat.num
    else shortestText (.finite x)
  | x => shortestText x

/-! ## Reading -/

/-- The number that a text without a sign denotes, with an exponent or without. -/
def readMagnitude? (s : Text) : Option Rat :=
  match Numeral.ofText? (s.takeWhile (· ≠ 'e')) with
  | none => none
  | some n =>
    match s.dropWhile (· ≠ 'e') with
    | [] => some n.toRat
    | _ :: mark :: e =>
      let size : Int := Numeral.ofDigits (e.filterMap Text.digitValue?)
      if e = [] ∨ !e.all Text.isDigit then none
      else if mark = '+' then some (n.toRat * Decimal.toRat ⟨1, size⟩)
      else if mark = '-' then some (n.toRat * Decimal.toRat ⟨1, -size⟩)
      else none
    | _ => none

/-- The number that the text of a finite result denotes, exactly. -/
def readDisplay? : Text → Option Rat
  | [] => none
  | c :: s => if c = '-' then (readMagnitude? s).map (-·) else readMagnitude? (c :: s)

end LineCalc.Binary64
