import LineCalc.Binary64.Rounding

/-!
# Arithmetic

The result of each operation is the exact result, rounded once.  Where the exact result is zero,
its sign is that of both operands of a sum if they agree and otherwise plus; in products and
quotients it is minus exactly when one operand is negative.
-/

namespace LineCalc.Binary64

def add : Binary64 → Binary64 → Binary64
  | .finite x, .finite y =>
    if x.toRat + y.toRat = 0 then zero (x.negative && y.negative) else ofRat (x.toRat + y.toRat)
  | .nan, _ | _, .nan => .nan
  | .infinity s, .infinity t => if s = t then .infinity s else .nan
  | .infinity s, .finite _ | .finite _, .infinity s => .infinity s

def sub (x y : Binary64) : Binary64 := add x (negate y)

def mul : Binary64 → Binary64 → Binary64
  | .finite x, .finite y => round (x.negative ^^ y.negative) (x.magnitude * y.magnitude)
  | .nan, _ | _, .nan => .nan
  | .infinity s, .infinity t => .infinity (s ^^ t)
  | .infinity s, .finite x | .finite x, .infinity s =>
    if x.significand = 0 then .nan else .infinity (s ^^ x.negative)

def div : Binary64 → Binary64 → Binary64
  | .finite x, .finite y =>
    if y.significand ≠ 0 then round (x.negative ^^ y.negative) (x.magnitude / y.magnitude)
    else if x.significand = 0 then .nan
    else .infinity (x.negative ^^ y.negative)
  | .nan, _ | _, .nan => .nan
  | .infinity _, .infinity _ => .nan
  | .infinity s, .finite y => .infinity (s ^^ y.negative)
  | .finite x, .infinity s => zero (x.negative ^^ s)

instance : Add Binary64 := ⟨add⟩
instance : Sub Binary64 := ⟨sub⟩
instance : Mul Binary64 := ⟨mul⟩
instance : Div Binary64 := ⟨div⟩
instance : Neg Binary64 := ⟨negate⟩

end LineCalc.Binary64
