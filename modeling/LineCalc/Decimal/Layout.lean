import LineCalc.Decimal.Basic

/-!
# Layout of decimals

A decimal is written positionally, with at least one digit on either side of the point, or with an
exponent.  Which, depends on the exponent of its first digit alone.
-/

namespace LineCalc.Decimal

/-- The choices that a written form leaves open. -/
structure Layout where
  /-- The least exponent of a first digit that is written positionally. -/
  plainFrom : Int
  /-- The least exponent from there on that is not. -/
  plainBelow : Int
  /-- The least number of digits of a written exponent. -/
  exponentWidth : Nat

/-- `digits` with the point before digit number `point`, filled up with zeros. -/
def positional (digits : Text) (point : Int) : Text :=
  if point ≤ 0 then "0.".toList ++ List.replicate (-point).toNat '0' ++ digits
  else if point < digits.length then
    digits.take point.toNat ++ '.' :: digits.drop point.toNat
  else digits ++ List.replicate (point.toNat - digits.length) '0' ++ ".0".toList

/-- One digit before the point, the others behind it, and the exponent with its sign. -/
def exponential (width : Nat) (digits : Text) (e : Int) : Text :=
  let exponent := Nat.toDigits 10 e.natAbs
  digits.take 1 ++ (if digits.length ≤ 1 then [] else '.' :: digits.drop 1) ++
    ['e', if e < 0 then '-' else '+'] ++
    List.replicate (width - exponent.length) '0' ++ exponent

/-- The text of a decimal. -/
def Layout.write (l : Layout) (d : Decimal) : Text :=
  if l.plainFrom ≤ d.leading ∧ d.leading < l.plainBelow then positional d.digits (d.leading + 1)
  else exponential l.exponentWidth d.digits d.leading

end LineCalc.Decimal
