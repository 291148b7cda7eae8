import Mathlib.Control.Monad.Basic
import LineCalc.Failure
import LineCalc.Proofs.Expr.Context

/-!
# Parts and parentheses

Of a part of an expression nothing counts but its outcome: its value, or the error that it fails
with.  What is before the part and behind it neither sees more of it nor changes it, so a part can
be replaced by another one with the same outcome.  Parentheses do not change an outcome, and so
they can be put around any parts, and be left out, all over a tree.

    a and b have the same outcome → so have c.fill a and c.fill b       (mapError_value_fill)
    e.Wraps e' → e'.value = e.value                                     (Wraps.value_eq)
    e.bare.Wraps e                                                      (wraps_bare)

How much of an error is told apart makes no difference: outcomes are compared as `view` shows the
errors, which may be their messages or the errors themselves.
-/

namespace LineCalc.Expr

/-- The second expression is the first with parentheses put around some of its parts, or around
all of it. -/
inductive Wraps : Expr → Expr → Prop
  | number (text : Text) : Wraps (number text) (number text)
  | identifier (name : Text) : Wraps (identifier name) (identifier name)
  | binary (operator : Text) {left left' right right' : Expr} : Wraps left left' →
      Wraps right right' → Wraps (binary operator left right) (binary operator left' right')
  | parenthesized {inner inner' : Expr} : Wraps inner inner' →
      Wraps (parenthesized inner) (parenthesized inner')
  | around {e e' : Expr} : Wraps e e' → Wraps e (parenthesized e')

/-! ## Outcomes -/

section
variable {β : Type} {view : EvalError → β} {o o' : Except EvalError Binary64}

/-- Outcomes that look the same are equal, or are errors that look the same. -/
theorem mapError_eq_mapError_iff :
    o.mapError view = o'.mapError view ↔
      o = o' ∨ ∃ err err', o = .error err ∧ o' = .error err' ∧ view err = view err' := by
  constructor
  · intro h
    cases o with
    | ok x =>
      cases o' with
      | ok y => exact .inl (congrArg Except.ok (Except.ok.inj h))
      | error err' => cases h
    | error err =>
      cases o' with
      | ok y => cases h
      | error err' => exact .inr ⟨err, err', rfl, rfl, Except.error.inj h⟩
  · rintro (rfl | ⟨err, err', rfl, rfl, hview⟩)
    · rfl
    · exact congrArg Except.error hview

/-! ## Parts -/

/-- The right operand counts only where the left one has a value. -/
theorem value_binary_error {left right : Expr} {err : EvalError} (operator : Text)
    (h : left.value = .error err) : (binary operator left right).value = .error err := by
  rw [value, h]

theorem value_binary_ok_error {left right : Expr} {x : Binary64} {err : EvalError}
    (operator : Text) (hl : left.value = .ok x) (hr : right.value = .error err) :
    (binary operator left right).value = .error err := by
  rw [value, hl, hr]

/-- Parts with one outcome can stand for each other everywhere. -/
theorem mapError_value_fill {a b : Expr} (h : a.value.mapError view = b.value.mapError view)
    (c : Context) : (c.fill a).value.mapError view = (c.fill b).value.mapError view := by
  induction c with
  | hole => exact h
  | inLeft operator left right ih =>
    simp only [Context.fill]
    rcases mapError_eq_mapError_iff.mp ih with hsame | ⟨err, err', ha, hb, hview⟩
    · rw [value, value, hsame]
    · rw [value_binary_error operator ha, value_binary_error operator hb]
      exact congrArg Except.error hview
  | inRight operator left right ih =>
    simp only [Context.fill]
    -- what is on the left comes first, and fails alike on both sides
    cases hl : left.value with
    | error err => rw [value_binary_error operator hl, value_binary_error operator hl]
    | ok x =>
      rcases mapError_eq_mapError_iff.mp ih with hsame | ⟨err, err', ha, hb, hview⟩
      · rw [value, value, hsame]
      · rw [value_binary_ok_error operator hl ha, value_binary_ok_error operator hl hb]
        exact congrArg Except.error hview
  | inParentheses inner ih => exact ih

end

/-! ## Parentheses -/

theorem Wraps.value_eq {e e' : Expr} (h : e.Wraps e') : e'.value = e.value := by
  induction h with
  | number | identifier => rfl
  | binary operator _ _ ihl ihr => rw [value, value, ihl, ihr]
  | parenthesized _ ih => rw [value, value, ih]
  | around _ ih => rw [value, ih]

/-- With parentheses put in, a tree without any becomes the tree that they were taken out of. -/
theorem wraps_bare (e : Expr) : e.bare.Wraps e := by
  induction e with
  | number text => exact .number text
  | identifier name => exact .identifier name
  | binary operator left right ihl ihr => exact .binary operator ihl ihr
  | parenthesized inner ih => exact .around ih

/-- **Outcomes are compositional and parentheses transparent.**  Parts that have the same value, or
fail with errors that look the same, can stand for each other at every place of every tree.  In
particular parentheses around any parts of a tree make no difference, neither to its value nor to
the error that it fails with, and nor does it if all of them are left out. -/
theorem evaluate_compositional {β : Type} (view : EvalError → β) :
    (∀ (c : Context) (a b : Expr), a.evaluate.mapError view = b.evaluate.mapError view →
      (c.fill a).evaluate.mapError view = (c.fill b).evaluate.mapError view) ∧
      (∀ e e' : Expr, e.Wraps e' → e'.evaluate = e.evaluate) ∧
      ∀ e : Expr, e.bare.evaluate = e.evaluate := by
  simp only [evaluate_eq]
  exact ⟨fun c a b h => mapError_value_fill h c, fun e e' h => h.value_eq,
    fun e => (wraps_bare e).value_eq.symm⟩

/-- In `4+_/0` the sum `1+2` can stand for `3`: either quotient fails, and with the same message.
With the sum in parentheses the tree still fails like that. -/
theorem evaluate_compositional_quotient :
    let c : Context := .inRight ['+'] (number ['4']) (.inLeft ['/'] .hole (number ['0']))
    let sum := binary ['+'] (number ['1']) (number ['2'])
    sum.evaluate.mapError EvalError.message = (number ['3']).evaluate.mapError EvalError.message ∧
      (c.fill sum).evaluate.mapError EvalError.message =
        (c.fill (number ['3'])).evaluate.mapError EvalError.message ∧
      (c.fill sum).Wraps (c.fill (parenthesized sum)) ∧
      (c.fill (parenthesized sum)).evaluate = .error .divisionByZero := by
  intro c sum
  have hsum : sum.evaluate.mapError EvalError.message =
      (number ['3']).evaluate.mapError EvalError.message := by decide +kernel
  have hwraps : (c.fill sum).Wraps (c.fill (parenthesized sum)) :=
    .binary _ (.number _) (.binary _ (.around (.binary _ (.number _) (.number _))) (.number _))
  have hfails : (c.fill sum).evaluate = .error .divisionByZero := by decide +kernel
  obtain ⟨hfill, hsame, -⟩ := evaluate_compositional EvalError.message
  exact ⟨hsum, hfill c sum _ hsum, hwraps, (hsame _ _ hwraps).trans hfails⟩

end LineCalc.Expr
