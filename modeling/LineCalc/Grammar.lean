import LineCalc.Expr.Basic
import LineCalc.Token.Basic

/-!
# Grammar

Sums of products of factors.  An expression is terms joined by `+` and `-`, a term is factors
joined by `*` and `/`, both grouped from the left, and a factor is a number, a name, or an
expression in parentheses.

`HasLevel` says of a tree which of the three it is, and `Flattens` relates a tree to the tokens
that it is written with.  A number can be written as either kind of number.
-/

namespace LineCalc

/-- How tightly the parts of a tree are held together. -/
inductive Level
  | factor
  | term
  | expression
  deriving DecidableEq

namespace Level

/-- The operators between the factors of a term. -/
def Multiplicative (operator : Text) : Prop := operator = ['*'] ∨ operator = ['/']

/-- The operators between the terms of an expression. -/
def Additive (operator : Text) : Prop := operator = ['+'] ∨ operator = ['-']

instance (operator : Text) : Decidable (Multiplicative operator) :=
  inferInstanceAs (Decidable (_ ∨ _))

instance (operator : Text) : Decidable (Additive operator) :=
  inferInstanceAs (Decidable (_ ∨ _))

/-- Whether an operator can stand in a tree of a level outside its parentheses. -/
def Admits : Level → Text → Prop
  | factor, _ => False
  | term, operator => Multiplicative operator
  | expression, operator => Multiplicative operator ∨ Additive operator

instance : (level : Level) → (operator : Text) → Decidable (level.Admits operator)
  | factor, _ => inferInstanceAs (Decidable False)
  | term, operator => inferInstanceAs (Decidable (Multiplicative operator))
  | expression, _ => inferInstanceAs (Decidable (_ ∨ _))

end Level

namespace Token

/-- The parenthesis that opens a group. -/
def opening : Token := ⟨.parenthesis, ['(']⟩

/-- The parenthesis that closes a group. -/
def closing : Token := ⟨.parenthesis, [')']⟩

end Token

namespace Expr

/-- A product has a term on its left and a factor on its right, a sum an expression on its left and
a term on its right; parentheses hold any expression. -/
def HasLevel : Level → Expr → Prop
  | _, number _ | _, identifier _ => True
  | _, parenthesized inner => inner.HasLevel .expression
  | level, binary operator left right =>
    (level ≠ .factor ∧ Level.Multiplicative operator ∧
        left.HasLevel .term ∧ right.HasLevel .factor) ∨
      (level = .expression ∧ Level.Additive operator ∧
        left.HasLevel .expression ∧ right.HasLevel .term)

/-- The tokens that a tree is written with, in order. -/
inductive Flattens : Expr → List Token → Prop
  | integer (text : Text) : Flattens (number text) [⟨.integer, text⟩]
  | float (text : Text) : Flattens (number text) [⟨.float, text⟩]
  | identifier (name : Text) : Flattens (identifier name) [⟨.identifier, name⟩]
  | binary {left right : Expr} {ls rs : List Token} (operator : Text) :
      Flattens left ls → Flattens right rs →
      Flattens (binary operator left right) (ls ++ ⟨.operator, operator⟩ :: rs)
  | parenthesized {inner : Expr} {ts : List Token} : Flattens inner ts →
      Flattens (parenthesized inner) (Token.opening :: (ts ++ [Token.closing]))

end Expr

end LineCalc
