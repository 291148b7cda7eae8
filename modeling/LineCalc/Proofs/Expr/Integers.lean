import LineCalc.Proofs.Binary64.Arithmetic
import LineCalc.Proofs.Decimal.Integer
import LineCalc.Proofs.Expr.Context
import LineCalc.Proofs.Expr.Fault

/-!
# Integer arithmetic is exact

Expressions of integers have an exact value, a fraction that is found without any rounding.  As long
as the exact values of the nodes can be represented, every operation gives its exact result, and so
does the whole; and nothing but an exact zero is a divisor that is zero:

    every node has an exact value → e.value = ok x and x.Denotes r       (exists_value)
    the nodes before a quotient have, its divisor is zero → it fails     (value_of_quotient)

The integers up to `2 ^ 53` are exact values of that kind.
-/

namespace LineCalc.Expr

open Binary64 (Representable)

/-! ## Exact values -/

/-- The exact result of an operator. -/
def exactResult? : Text → Rat → Rat → Option Rat
  | ['+'], r, s => some (r + s)
  | ['-'], r, s => some (r - s)
  | ['*'], r, s => some (r * s)
  | ['/'], r, s => if s = 0 then none else some (r / s)
  | _, _, _ => none

/-- The exact value of an expression whose numbers are integers.  There is none with a name or an
unknown operator in it, or where something is divided by zero. -/
def exactValue? : Expr → Option Rat
  | number text => text.natural?.map (Nat.cast : Nat → Rat)
  | identifier _ => none
  | binary operator left right =>
    match left.exactValue?, right.exactValue? with
    | some r, some s => exactResult? operator r s
    | _, _ => none
  | parenthesized inner => inner.exactValue?

/-- The exact value is an integer up to `2 ^ 53`. -/
def HasInteger (e : Expr) : Prop := ∃ i : Int, i.natAbs ≤ 2 ^ 53 ∧ e.exactValue? = some (i : Rat)

/-- The exact value can be represented. -/
def HasRepresentable (e : Expr) : Prop := ∃ r, Representable r ∧ e.exactValue? = some r

theorem HasInteger.hasRepresentable {e : Expr} (h : e.HasInteger) : e.HasRepresentable := by
  obtain ⟨i, hi, hexact⟩ := h
  exact ⟨i, Binary64.representable_intCast hi, hexact⟩

theorem mem_postorder_self (e : Expr) : e ∈ e.postorder := by
  cases e with
  | number | identifier | binary | parenthesized => simp [postorder]

/-! ## Exact evaluation -/

/-- An operator on numbers that stand for fractions gives the exact result if it can be
represented. -/
theorem apply_of_exactResult? {operator : Text} {x y : Binary64} {r s t : Rat}
    (ht : exactResult? operator r s = some t) (hx : x.Denotes r) (hy : y.Denotes s)
    (h : Representable t) : ∃ z, apply operator x y = .ok z ∧ z.Denotes t := by
  unfold exactResult? at ht
  split at ht
  · cases ht
    exact ⟨x + y, rfl, hx.add hy h⟩
  · cases ht
    exact ⟨x - y, rfl, hx.sub hy h⟩
  · cases ht
    exact ⟨x * y, rfl, hx.mul hy h⟩
  · split at ht
    · cases ht
    · rename_i hs
      cases ht
      have hzero : ¬y.isZero = true := fun hz => hs (hy.isZero_iff.mp hz)
      exact ⟨x / y, if_neg hzero, hx.div hy hs h⟩
  · cases ht

theorem value_binary {left right : Expr} {x y : Binary64} (hx : left.value = .ok x)
    (hy : right.value = .ok y) (operator : Text) :
    (binary operator left right).value = apply operator x y := by
  simp only [value, hx, hy]

/-- Where the exact value of every node can be represented, the value is the exact one. -/
theorem exists_value {e : Expr} (h : ∀ node ∈ e.postorder, node.HasRepresentable) :
    ∃ r x, e.exactValue? = some r ∧ e.value = .ok x ∧ x.Denotes r := by
  induction e with
  | number text =>
    obtain ⟨r, hr, hexact⟩ := h _ (mem_postorder_self _)
    obtain ⟨n, hn, rfl⟩ := Option.map_eq_some_iff.mp hexact
    obtain ⟨m, hm, hmn⟩ := Numeral.exists_ofText?_of_natural? hn
    refine ⟨n, m.toBinary64, hexact, ?_, ?_⟩
    · rw [value, numberValue, hm]
    · rw [Numeral.toBinary64, hmn]
      exact Binary64.denotes_ofRat hr
  | identifier name =>
    obtain ⟨r, -, hexact⟩ := h _ (mem_postorder_self _)
    cases hexact
  | binary operator left right ihl ihr =>
    obtain ⟨t, ht, hexact⟩ := h _ (mem_postorder_self _)
    obtain ⟨r, x, hr, hx, hxr⟩ :=
      ihl fun node hnode => h node (by simp [postorder, hnode])
    obtain ⟨s, y, hs, hy, hys⟩ :=
      ihr fun node hnode => h node (by simp [postorder, hnode])
    have hresult := hexact
    simp only [exactValue?, hr, hs] at hresult
    obtain ⟨z, hz, hzt⟩ := apply_of_exactResult? hresult hxr hys ht
    exact ⟨t, z, hexact, (value_binary hx hy operator).trans hz, hzt⟩
  | parenthesized inner ih => exact ih fun node hnode => h node (List.mem_append_left _ hnode)

/-- The first node whose exact value cannot be represented decides: if it divides by an exact
zero, that is the failure of the whole. -/
theorem value_of_quotient {e left right : Expr} {before after : List Expr}
    (h : e.postorder = before ++ binary ['/'] left right :: after)
    (hbefore : ∀ node ∈ before, node.HasRepresentable) (hzero : right.exactValue? = some 0) :
    e.value = .error .divisionByZero := by
  induction e generalizing before after with
  | number | identifier =>
    have hmem := List.mem_iff_append.mpr ⟨before, after, h⟩
    simp [postorder] at hmem
  | binary operator l r ihl ihr =>
    rcases append_eq_append_cons h with ⟨m, hoperands, -⟩ | ⟨m, rfl, hnode⟩
    · rcases append_eq_append_cons hoperands with ⟨m, hl, -⟩ | ⟨m, rfl, hr⟩
      · -- the quotient is part of the left operand
        rw [value, ihl hl hbefore]
      · -- it is part of the right one, and the left one has its value
        obtain ⟨-, x, -, hx, -⟩ :=
          exists_value fun node hnode => hbefore node (List.mem_append_left _ hnode)
        rw [value, hx, ihr hr fun node hnode => hbefore node (List.mem_append_right _ hnode)]
    · -- it is the node itself, and both operands have their values
      cases List.mem_singleton.mp (List.mem_iff_append.mpr ⟨m, after, hnode⟩)
      obtain ⟨-, x, -, hx, -⟩ :=
        exists_value (e := left) fun node hnode => hbefore node (by simp [hnode])
      obtain ⟨s, y, hs, hy, hys⟩ :=
        exists_value (e := right) fun node hnode => hbefore node (by simp [hnode])
      cases hs.symm.trans hzero
      rw [value_binary hx hy]
      exact if_pos (hys.isZero_iff.mpr rfl)
  | parenthesized inner ih =>
    rcases append_eq_append_cons h with ⟨m, hinner, -⟩ | ⟨m, -, hnode⟩
    · exact ih hinner hbefore
    · cases List.mem_singleton.mp (List.mem_iff_append.mpr ⟨m, after, hnode⟩)

/-- **Integer arithmetic is exact.**  Where every node of an expression has an integer up to
`2 ^ 53` as its exact value, the expression is worth just that, and the text of the result is the
decimal of the integer.  Where the first node that has none divides by an exact zero, the
expression fails with a division by zero. -/
theorem evaluate_integers (e : Expr) :
    ((∀ node ∈ e.postorder, node.HasInteger) →
        ∃ (i : Int) (x : Binary64.Finite), e.exactValue? = some (i : Rat) ∧
          e.evaluate = .ok (.finite x) ∧ x.toRat = i ∧ (Binary64.finite x).display.DecimalOf i) ∧
      ∀ before left right after, e.postorder = before ++ binary ['/'] left right :: after →
        (∀ node ∈ before, node.HasInteger) → right.exactValue? = some 0 →
          e.evaluate = .error .divisionByZero := by
  refine ⟨fun h => ?_, fun before left right after hsplit hbefore hzero => ?_⟩
  · obtain ⟨i, hi, hexact⟩ := h e e.mem_postorder_self
    obtain ⟨r, x, hr, hx, hxr⟩ := exists_value fun node hnode => (h node hnode).hasRepresentable
    cases hr.symm.trans hexact
    have hdisplay := hxr.display (by omega)
    obtain ⟨z, rfl, hz⟩ := hxr
    exact ⟨i, z, hexact, by rw [evaluate_eq, hx], hz, Binary64.decimalOf_iff.mpr hdisplay⟩
  · rw [evaluate_eq]
    exact value_of_quotient hsplit (fun node hnode => (hbefore node hnode).hasRepresentable) hzero

/-- `0*(1-2)`, which is minus zero. -/
def minusZero : Expr :=
  binary ['*'] (number ['0']) (parenthesized (binary ['-'] (number ['1']) (number ['2'])))

/-- Minus zero is shown as zero, and dividing by it fails. -/
theorem evaluate_minusZero :
    minusZero.evaluate = .ok (Binary64.zero true) ∧ (Binary64.zero true).display.DecimalOf 0 ∧
      (binary ['/'] (number ['1']) minusZero).evaluate = .error .divisionByZero := by
  have hnodes : ∀ node ∈ minusZero.postorder, node.HasInteger := by
    simp only [minusZero, postorder, List.cons_append, List.nil_append, List.forall_mem_cons]
    refine ⟨⟨0, ?_⟩, ⟨1, ?_⟩, ⟨2, ?_⟩, ⟨-1, ?_⟩, ⟨-1, ?_⟩, ⟨0, ?_⟩, List.forall_mem_nil _⟩
    all_goals decide +kernel
  have hone : (number ['1']).HasInteger := ⟨1, by decide +kernel⟩
  have hexact : minusZero.exactValue? = some 0 := by decide +kernel
  have hvalue : minusZero.evaluate = .ok (Binary64.zero true) := by decide +kernel
  refine ⟨hvalue, ?_, ?_⟩
  · obtain ⟨i, x, hi, hx, -, hdecimal⟩ := (evaluate_integers minusZero).1 hnodes
    cases hx.symm.trans hvalue
    obtain rfl : i = 0 := Int.cast_eq_zero.mp (Option.some.inj (hi.symm.trans hexact))
    exact hdecimal
  · exact (evaluate_integers _).2 (number ['1'] :: minusZero.postorder) _ _ [] rfl
      (List.forall_mem_cons.mpr ⟨hone, hnodes⟩) hexact

end LineCalc.Expr
