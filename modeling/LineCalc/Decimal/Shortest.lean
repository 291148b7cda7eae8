import LineCalc.Binary64.Rounding
import LineCalc.Decimal.Basic

/-!
# Shortest decimals

The decimal that identifies a finite number with the fewest digits, and of those the nearest to it,
the even one of two.  Decimal grids are tried from that of the number's first digit downward.  On
each grid the candidates are the two neighbours of the number, the nearer one first, and the first
that reads back wins.  The numbers that round to `x` form an interval around it, so if any point of
a grid reads back, one of the two neighbours does.  The last grid is fine enough to hold the number
itself, so the search always ends with a decimal that reads back.
-/

namespace LineCalc.Decimal

open Binary64 (Finite)

/-- Whether rounding the decimal gives the number. -/
def ReadsBack (x : Finite) (d : Decimal) : Prop :=
  Binary64.round x.negative d.toRat = .finite x

instance (x : Finite) (d : Decimal) : Decidable (ReadsBack x d) :=
  inferInstanceAs (Decidable (_ = _))

/-- The neighbours of a number on the grid of `10 ^ e`, the nearer one first. -/
def neighbours (x : Finite) (e : Int) : List Decimal :=
  let g : Grid := ⟨10, e⟩
  [⟨g.nearest x.magnitude, e⟩, ⟨g.floor x.magnitude, e⟩, ⟨g.floor x.magnitude + 1, e⟩]

/-- The first neighbour that reads back, over `grids` grids from that of `10 ^ e` downward. -/
def search (x : Finite) : Nat → Int → Decimal
  | 0, e => ⟨Grid.floor ⟨10, e⟩ x.magnitude, e⟩
  | grids + 1, e =>
    match (neighbours x e).find? (ReadsBack x ·) with
    | some d => d
    | none => search x grids (e - 1)

/-- The shortest decimal for a number; zero is `0`. -/
def shortest (x : Finite) : Decimal :=
  if x.significand = 0 then ⟨0, 0⟩
  else
    let first := magnitudeOf x.magnitude
    let d := search x (first - min x.exponent 0).toNat first
    -- Above the first digit's grid there is only the next power of ten.
    if d.coefficient = 10 then ⟨1, d.exponent + 1⟩ else d

end LineCalc.Decimal
