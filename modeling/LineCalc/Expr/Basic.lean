import LineCalc.Text.Basic

/-!
# Expressions

The tree of an arithmetic expression.  Numbers keep the text they were written with, and an
operator is any text: which texts are numerals, and which operators have a meaning, is decided when
the expression is evaluated.
-/

namespace LineCalc

/-- The tree of an expression. -/
inductive Expr
  | number (text : Text)
  | identifier (name : Text)
  | binary (operator : Text) (left right : Expr)
  | parenthesized (inner : Expr)
  deriving DecidableEq

namespace Expr

/-- The number of nodes. -/
def size : Expr → Nat
  | number _ | identifier _ => 1
  | binary _ left right => left.size + right.size + 1
  | parenthesized inner => inner.size + 1

/-- The identifiers, left to right. -/
def names : Expr → List Text
  | number _ => []
  | identifier name => [name]
  | binary _ left right => left.names ++ right.names
  | parenthesized inner => inner.names

/-- How many parentheses stand around the part that is deepest inside them. -/
def nesting : Expr → Nat
  | number _ | identifier _ => 0
  | binary _ left right => max left.nesting right.nesting
  | parenthesized inner => inner.nesting + 1

end Expr

end LineCalc
