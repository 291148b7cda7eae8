import LineCalc.Expr.Basic

/-!
# Places in an expression

A context is an expression with one place left open, and `fill` puts an expression there.  `bare`
takes all parentheses out of a tree, which keeps its shape without them.
-/

namespace LineCalc.Expr

/-- An expression with a hole. -/
inductive Context
  | hole
  | inLeft (operator : Text) (left : Context) (right : Expr)
  | inRight (operator : Text) (left : Expr) (right : Context)
  | inParentheses (inner : Context)

/-- The expression with `e` in the hole. -/
def Context.fill (e : Expr) : Context → Expr
  | hole => e
  | inLeft operator left right => binary operator (left.fill e) right
  | inRight operator left right => binary operator left (right.fill e)
  | inParentheses inner => parenthesized (inner.fill e)

/-- The tree without its parentheses. -/
def bare : Expr → Expr
  | number text => number text
  | identifier name => identifier name
  | binary operator left right => binary operator left.bare right.bare
  | parenthesized inner => inner.bare

end LineCalc.Expr
