import LineCalc.Binary64.Arithmetic
import LineCalc.Expr.Basic
import LineCalc.Numeral

/-!
# Values of expressions

An expression has a double-precision value or fails.  Operands are evaluated from left to right and
before their operator, so the first failure in that order is the one that counts.  Parentheses make
no difference, and names have no values.

`value` says so by recursion on the tree.  `evaluate` runs a machine on a list of tasks and a stack
of results, in constant stack on a tree of any depth.  The machine never lacks an operand and ends
with one result (`run_visit`), so `evaluate` needs no case for that.

    evaluate e = value e      (evaluate_eq)
-/

namespace LineCalc

/-- Why an expression has no value. -/
inductive EvalError
  | malformedNumber (text : Text)
  | identifier
  | unknownOperator (operator : Text)
  | divisionByZero
  deriving DecidableEq

namespace Expr

/-- The value of a number by its text. -/
def numberValue (text : Text) : Except EvalError Binary64 :=
  match Numeral.ofText? text with
  | some n => .ok n.toBinary64
  | none => .error (.malformedNumber text)

/-- The value of an operator on two operands. -/
def apply (operator : Text) (x y : Binary64) : Except EvalError Binary64 :=
  if operator = ['+'] then .ok (x + y)
  else if operator = ['-'] then .ok (x - y)
  else if operator = ['*'] then .ok (x * y)
  else if operator = ['/'] then (if y.isZero then .error .divisionByZero else .ok (x / y))
  else .error (.unknownOperator operator)

/-- The value, by recursion on the tree. -/
def value : Expr → Except EvalError Binary64
  | number text => numberValue text
  | identifier _ => .error .identifier
  | binary operator left right =>
    match left.value with
    | .error e => .error e
    | .ok x =>
      match right.value with
      | .error e => .error e
      | .ok y => apply operator x y
  | parenthesized inner => inner.value

/-! ## With a list of tasks -/

/-- What is left to do. -/
inductive Task
  /-- Evaluate an expression. -/
  | visit (e : Expr)
  /-- Apply an operator to the last two results, the right operand being the last. -/
  | apply (operator : Text)

/-- The steps that a task takes at most. -/
def Task.steps : Task → Nat
  | visit e => 2 * e.size
  | apply _ => 1

/-- The steps that all the tasks take at most. -/
def stepsOf : List Task → Nat
  | [] => 0
  | task :: tasks => task.steps + stepsOf tasks

/-- Works off the tasks.  There is no outcome if an operator finds fewer than two results, or if the
tasks do not leave one result. -/
def run : List Task → List Binary64 → Option (Except EvalError Binary64)
  | [], [x] => some (.ok x)
  | [], _ => none
  | .visit (.number text) :: tasks, results =>
    match numberValue text with
    | .ok x => run tasks (x :: results)
    | .error e => some (.error e)
  | .visit (.identifier _) :: _, _ => some (.error .identifier)
  | .visit (.binary operator left right) :: tasks, results =>
    run (.visit left :: .visit right :: .apply operator :: tasks) results
  | .visit (.parenthesized inner) :: tasks, results => run (.visit inner :: tasks) results
  | .apply operator :: tasks, y :: x :: results =>
    match Expr.apply operator x y with
    | .ok z => run tasks (z :: results)
    | .error e => some (.error e)
  | .apply _ :: _, _ => none
  termination_by tasks => stepsOf tasks
  decreasing_by all_goals simp [stepsOf, Task.steps, size] <;> omega

/-- A visit has the effect of pushing the value of its expression, or of failing with it. -/
theorem run_visit (e : Expr) (tasks : List Task) (results : List Binary64) :
    run (.visit e :: tasks) results =
      match e.value with
      | .ok x => run tasks (x :: results)
      | .error err => some (.error err) := by
  induction e generalizing tasks results with
  | number text => rw [run, value]
  | identifier name => rw [run, value]
  | parenthesized inner ih => rw [run, value, ih]
  | binary operator left right ihl ihr =>
    rw [run, value, ihl]
    cases left.value with
    | error err => rfl
    | ok x =>
      simp only [ihr]
      cases right.value with
      | error err => rfl
      | ok y => simp only [run]

theorem run_visit_alone (e : Expr) : run [.visit e] [] = some e.value := by
  rw [run_visit]
  cases e.value with
  | ok x => simp only [run]
  | error err => rfl

/-- The value of the expression, or why it has none. -/
def evaluate (e : Expr) : Except EvalError Binary64 :=
  (run [.visit e] []).get (by rw [run_visit_alone]; rfl)

theorem evaluate_eq (e : Expr) : e.evaluate = e.value := by
  simp only [evaluate, run_visit_alone, Option.get_some]

end Expr

end LineCalc
