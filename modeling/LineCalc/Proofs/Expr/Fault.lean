import LineCalc.Expr.Value
import LineCalc.Proofs.Line
import LineCalc.Proofs.Numeral

/-!
# Why an expression has no value

A tree that is read from a line can fail in two ways only: at a name, or at a quotient whose
divisor is zero.  The nodes are met in postorder, operands before their operator and the left one
first, and the first of them at fault decides:

    e.failure? = e.postorder.findSome? fault?                           (failure?_eq)
    e.evaluate = .error err  ↔  the first node at fault fails with err  (evaluate_parsed)
-/

namespace LineCalc

namespace Expr

/-! ## Nodes at fault -/

/-- The nodes of a tree, operands before their operator, from left to right. -/
def postorder : Expr → List Expr
  | number text => [number text]
  | identifier name => [identifier name]
  | binary operator left right =>
    left.postorder ++ right.postorder ++ [binary operator left right]
  | parenthesized inner => inner.postorder ++ [parenthesized inner]

/-- Whether an expression has the value zero, of either sign. -/
def isZero (e : Expr) : Bool :=
  match e.evaluate with
  | .ok x => x.isZero
  | .error _ => false

/-- How a node fails by itself: a name has no value, and nothing is divided by zero. -/
def fault? : Expr → Option EvalError
  | identifier _ => some .identifier
  | binary operator _ right =>
    if operator = ['/'] ∧ right.isZero then some .divisionByZero else none
  | number _ | parenthesized _ => none

/-- The first node in postorder that is at fault fails with the error. -/
def FirstFault (e : Expr) (err : EvalError) : Prop :=
  ∃ before node after, e.postorder = before ++ node :: after ∧ node.fault? = some err ∧
    ∀ m ∈ before, m.fault? = none

theorem fault?_eq_some {e : Expr} {err : EvalError} (h : e.fault? = some err) :
    (∃ name, e = identifier name ∧ err = .identifier) ∨
      (∃ left right, e = binary ['/'] left right ∧ right.isZero = true ∧
        err = .divisionByZero) := by
  cases e with
  | number | parenthesized => cases h
  | identifier name => exact .inl ⟨name, rfl, (Option.some.inj h).symm⟩
  | binary operator left right =>
    rw [fault?] at h
    split at h
    · rename_i hz
      obtain ⟨rfl, hz⟩ := hz
      exact .inr ⟨left, right, rfl, hz, (Option.some.inj h).symm⟩
    · cases h

theorem identifier_mem_postorder {name : Text} {e : Expr} :
    identifier name ∈ e.postorder ↔ name ∈ e.names := by
  induction e with
  | number | identifier => simp [postorder, names]
  | binary operator left right ihl ihr => simp [postorder, names, ihl, ihr]
  | parenthesized inner ih => simp [postorder, names, ih]

/-! ## The failure of a tree -/

/-- Why the expression has no value, if it has none. -/
def failure? (e : Expr) : Option EvalError :=
  match e.value with
  | .ok _ => none
  | .error err => some err

theorem evaluate_eq_error_iff {e : Expr} {err : EvalError} :
    e.evaluate = .error err ↔ e.failure? = some err := by
  rw [evaluate_eq, failure?]
  cases e.value <;> simp

/-- An operator of the grammar fails only in dividing by zero. -/
theorem apply_of_operator {operator : Text}
    (h : Level.Multiplicative operator ∨ Level.Additive operator) (x y : Binary64) :
    if operator = ['/'] ∧ y.isZero = true then apply operator x y = .error .divisionByZero
    else ∃ z, apply operator x y = .ok z := by
  rcases h with (rfl | rfl) | (rfl | rfl)
  · exact ⟨x * y, rfl⟩
  · cases hy : y.isZero with
    | true => simp [apply, hy]
    | false => simp [apply, hy]
  · exact ⟨x + y, rfl⟩
  · exact ⟨x - y, rfl⟩

theorem failure?_number {text : Text} (h : (number text).Spellable) :
    (number text).failure? = none := by
  obtain ⟨n, hn⟩ := Option.isSome_iff_exists.mp (Numeral.isSome_ofText?_iff.mpr h)
  rw [failure?, value, numberValue, hn]

/-- An expression that is spelled right fails as the first of its nodes that is at fault. -/
theorem failure?_eq {e : Expr} (hl : e.HasLevel .expression) (hs : e.Spellable) :
    e.failure? = e.postorder.findSome? fault? := by
  induction e with
  | number text => exact failure?_number hs
  | identifier name => rfl
  | parenthesized inner ih =>
    have hinner := ih hl hs
    rw [postorder, List.findSome?_append, ← hinner]
    exact Option.or_none.symm
  | binary operator left right ihl ihr =>
    obtain ⟨ho, hleft, hright⟩ := hl.operands
    rw [postorder, List.findSome?_append, List.findSome?_append, ← ihl hleft hs.1,
      ← ihr hright hs.2, failure?, failure?, failure?, value]
    cases left.value with
    | error err => rfl
    | ok x =>
      cases hr : right.value with
      | error err => rfl
      | ok y =>
        have hzero : right.isZero = y.isZero := by rw [isZero, evaluate_eq, hr]
        have happly := apply_of_operator ho x y
        simp only [Option.none_or, List.findSome?_cons, List.findSome?_nil, fault?, hzero]
        split at happly
        · rename_i hz
          rw [if_pos hz, happly]
        · rename_i hz
          obtain ⟨z, happly⟩ := happly
          rw [if_neg hz, happly]

theorem evaluate_eq_error_iff_firstFault {e : Expr} (hl : e.HasLevel .expression)
    (hs : e.Spellable) {err : EvalError} : e.evaluate = .error err ↔ e.FirstFault err := by
  rw [evaluate_eq_error_iff, failure?_eq hl hs, List.findSome?_eq_some_iff]
  rfl

theorem FirstFault.eq_identifier_or {e : Expr} {err : EvalError} (h : e.FirstFault err) :
    err = .identifier ∨ err = .divisionByZero := by
  obtain ⟨before, node, after, -, hnode, -⟩ := h
  rcases fault?_eq_some hnode with ⟨name, -, rfl⟩ | ⟨left, right, -, -, rfl⟩
  · exact .inl rfl
  · exact .inr rfl

/-- Where there is a name, some node is the first at fault. -/
theorem exists_firstFault {e : Expr} (h : e.names ≠ []) : ∃ err, e.FirstFault err := by
  obtain ⟨name, hname⟩ := List.exists_mem_of_ne_nil _ h
  have hsome : (e.postorder.findSome? fault?).isSome = true :=
    List.findSome?_isSome_iff.mpr ⟨_, identifier_mem_postorder.mpr hname, rfl⟩
  obtain ⟨err, herr⟩ := Option.isSome_iff_exists.mp hsome
  exact ⟨err, List.findSome?_eq_some_iff.mp herr⟩

theorem FirstFault.eq_divisionByZero {e : Expr} {err : EvalError} (h : e.FirstFault err)
    (hn : e.names = []) : err = .divisionByZero := by
  obtain ⟨before, node, after, hsplit, hnode, -⟩ := h
  rcases fault?_eq_some hnode with ⟨name, rfl, -⟩ | ⟨left, right, -, -, rfl⟩
  · have hmem : identifier name ∈ e.postorder := by simp [hsplit]
    rw [identifier_mem_postorder, hn] at hmem
    cases hmem
  · rfl

end Expr

open LineCalc.Expr

/-- **Failures of a line's expression.**  An expression that is read from a line has neither a
malformed number nor an unknown operator in it: it fails exactly as its first node at fault does,
which is a name or a division by zero.  With a name in it, it always fails; without one, it can
only divide by zero; and without declared names there is none in it. -/
theorem evaluate_parsed {line : Text} {declared : List Text} {e : Expr}
    (h : parse (Token.ofLine line) declared = .ok e) :
    (∀ err, e.evaluate = .error err ↔ e.FirstFault err) ∧
      (∀ text, e.evaluate ≠ .error (.malformedNumber text)) ∧
      (∀ operator, e.evaluate ≠ .error (.unknownOperator operator)) ∧
      (e.names ≠ [] → ∃ err, e.evaluate = .error err ∧ e.FirstFault err ∧
        (err = .identifier ∨ err = .divisionByZero)) ∧
      (e.names = [] → ∀ err, e.evaluate = .error err → err = .divisionByZero) ∧
      (declared = [] → e.names = []) := by
  obtain ⟨ts, hflat, hts, hlevel, hnames⟩ := exists_flattens_of_parse h
  have hfirst (err : EvalError) : e.evaluate = .error err ↔ e.FirstFault err :=
    evaluate_eq_error_iff_firstFault hlevel (hflat.spellable hts)
  refine ⟨hfirst, fun text herr => ?_, fun operator herr => ?_, fun hn => ?_,
    fun hn err herr => ((hfirst err).mp herr).eq_divisionByZero hn, ?_⟩
  · rcases ((hfirst _).mp herr).eq_identifier_or with h | h
    · cases h
    · cases h
  · rcases ((hfirst _).mp herr).eq_identifier_or with h | h
    · cases h
    · cases h
  · obtain ⟨err, herr⟩ := exists_firstFault hn
    exact ⟨err, (hfirst err).mpr herr, herr, herr.eq_identifier_or⟩
  · rintro rfl
    exact List.eq_nil_iff_forall_not_mem.mpr fun n hn => List.not_mem_nil (hnames n hn)

/-- In `1/0-x` the quotient comes before the name. -/
theorem evaluate_quotient_before_name :
    parse (Token.ofLine ['1', '/', '0', '-', 'x']) [['x']] =
        .ok (.binary ['-'] (.binary ['/'] (.number ['1']) (.number ['0'])) (.identifier ['x'])) ∧
      (binary ['-'] (.binary ['/'] (.number ['1']) (.number ['0'])) (.identifier ['x'])).evaluate =
        .error .divisionByZero := by
  have h : parse (Token.ofLine ['1', '/', '0', '-', 'x']) [['x']] =
      .ok (.binary ['-'] (.binary ['/'] (.number ['1']) (.number ['0'])) (.identifier ['x'])) := by
    decide +kernel
  have hquotient : (binary ['/'] (number ['1']) (number ['0'])).fault? = some .divisionByZero := by
    decide +kernel
  refine ⟨h, ((evaluate_parsed h).1 _).mpr ⟨[number ['1'], number ['0']],
    binary ['/'] (number ['1']) (number ['0']), _, rfl, hquotient, ?_⟩⟩
  simp [fault?]

end LineCalc
