import LineCalc.Expr.Value
import LineCalc.Proofs.Numeral

/-!
# What an expression evaluates to

The outcome of an expression is settled by its structure: a number has its value if it is written
as a numeral, a name has none, parentheses change nothing, and of the operands of an operator the
left one fails before the right one, and both before the operator itself.

    Applies operator x y o  ↔  apply operator x y = o          (applies_iff)
    e.Evaluates o  ↔  e.evaluate = o                           (evaluates_iff)
-/

namespace LineCalc

/-- There are two numbers that are zero, one of each sign. -/
theorem Binary64.isZero_iff {y : Binary64} : y.isZero = true ↔ ∃ negative, y = zero negative := by
  constructor
  · intro h
    cases y with
    | infinity | nan => cases h
    | finite x =>
      obtain ⟨negative, significand, exponent, hcanonical⟩ := x
      obtain rfl : significand = 0 := by simpa [isZero] using h
      obtain rfl : exponent = -1074 := by
        obtain ⟨-, -, -, hdigits⟩ := hcanonical
        omega
      exact ⟨negative, rfl⟩
  · rintro ⟨negative, rfl⟩
    rfl

namespace Expr

open Binary64 (zero)

/-- The outcome of an operator on a left and a right operand. -/
inductive Applies : Text → Binary64 → Binary64 → Except EvalError Binary64 → Prop
  | sum (x y : Binary64) : Applies ['+'] x y (.ok (x + y))
  | difference (x y : Binary64) : Applies ['-'] x y (.ok (x - y))
  | product (x y : Binary64) : Applies ['*'] x y (.ok (x * y))
  | quotient (x : Binary64) {y : Binary64} : (∀ negative, y ≠ zero negative) →
      Applies ['/'] x y (.ok (x / y))
  | zeroDivisor (x : Binary64) (negative : Bool) :
      Applies ['/'] x (zero negative) (.error .divisionByZero)
  | unknown {operator : Text} (x y : Binary64) : operator ∉ [['+'], ['-'], ['*'], ['/']] →
      Applies operator x y (.error (.unknownOperator operator))

/-- The outcome of an expression, by the outcomes of its parts. -/
inductive Evaluates : Expr → Except EvalError Binary64 → Prop
  | number {text : Text} {n : Numeral} : n.Writes text →
      Evaluates (number text) (.ok n.toBinary64)
  | malformed {text : Text} : (∀ n : Numeral, ¬ n.Writes text) →
      Evaluates (number text) (.error (.malformedNumber text))
  | identifier (name : Text) : Evaluates (identifier name) (.error .identifier)
  | parenthesized {inner : Expr} {o : Except EvalError Binary64} : Evaluates inner o →
      Evaluates (parenthesized inner) o
  | left (operator : Text) {left : Expr} (right : Expr) {err : EvalError} :
      Evaluates left (.error err) → Evaluates (binary operator left right) (.error err)
  | right (operator : Text) {left right : Expr} {x : Binary64} {err : EvalError} :
      Evaluates left (.ok x) → Evaluates right (.error err) →
      Evaluates (binary operator left right) (.error err)
  | binary {operator : Text} {left right : Expr} {x y : Binary64}
      {o : Except EvalError Binary64} : Evaluates left (.ok x) → Evaluates right (.ok y) →
      Applies operator x y o → Evaluates (binary operator left right) o

variable {operator : Text} {x y : Binary64} {o : Except EvalError Binary64} {e : Expr}

/-! ## Operators -/

theorem Applies.apply_eq (h : Applies operator x y o) : apply operator x y = o := by
  cases h with
  | sum | difference | product | zeroDivisor => rfl
  | quotient x hy =>
    have hzero : y.isZero = false := by
      refine Bool.eq_false_iff.mpr fun h => ?_
      obtain ⟨negative, h⟩ := Binary64.isZero_iff.mp h
      exact hy negative h
    simp [apply, hzero]
  | unknown x y ho =>
    simp only [List.mem_cons, List.not_mem_nil, or_false, not_or] at ho
    simp [apply, ho]

theorem applies_apply (operator : Text) (x y : Binary64) :
    Applies operator x y (apply operator x y) := by
  unfold apply
  split_ifs with hsum hdifference hproduct hquotient hzero
  · subst hsum
    exact .sum x y
  · subst hdifference
    exact .difference x y
  · subst hproduct
    exact .product x y
  · subst hquotient
    obtain ⟨negative, rfl⟩ := Binary64.isZero_iff.mp hzero
    exact .zeroDivisor x negative
  · subst hquotient
    exact .quotient x fun negative h => hzero (Binary64.isZero_iff.mpr ⟨negative, h⟩)
  · exact .unknown x y (by simp [hsum, hdifference, hproduct, hquotient])

theorem applies_iff : Applies operator x y o ↔ apply operator x y = o :=
  ⟨Applies.apply_eq, fun h => h ▸ applies_apply operator x y⟩

/-! ## Expressions -/

theorem Evaluates.value_eq (h : e.Evaluates o) : e.value = o := by
  induction h with
  | number h => rw [value, numberValue, h.ofText?]
  | malformed h => rw [value, numberValue, Numeral.ofText?_eq_none_iff.mpr h]
  | identifier name => rfl
  | parenthesized _ ih => rw [value, ih]
  | left operator right _ ih => rw [value, ih]
  | right operator _ _ ihl ihr => rw [value, ihl, ihr]
  | binary _ _ h ihl ihr => rw [value, ihl, ihr, ← applies_iff.mp h]

theorem evaluates_value (e : Expr) : e.Evaluates e.value := by
  induction e with
  | number text =>
    rw [value, numberValue]
    cases h : Numeral.ofText? text with
    | some n => exact .number (Numeral.writes_of_ofText? h)
    | none => exact .malformed (Numeral.ofText?_eq_none_iff.mp h)
  | identifier name => exact .identifier name
  | parenthesized inner ih => exact .parenthesized ih
  | binary operator left right ihl ihr =>
    rw [value]
    cases hl : left.value with
    | error err => exact .left operator right (hl ▸ ihl)
    | ok x =>
      cases hr : right.value with
      | error err => exact .right operator (hl ▸ ihl) (hr ▸ ihr)
      | ok y => exact .binary (hl ▸ ihl) (hr ▸ ihr) (applies_apply operator x y)

theorem evaluates_iff : e.Evaluates o ↔ e.evaluate = o := by
  rw [evaluate_eq]
  exact ⟨Evaluates.value_eq, fun h => h ▸ evaluates_value e⟩

end Expr

end LineCalc
