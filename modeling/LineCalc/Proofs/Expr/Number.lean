import LineCalc.Proofs.Expr.Evaluation
import LineCalc.Proofs.Line

/-!
# Numbers by themselves

Whether a text is a number is decided twice, and on different grounds: where an expression is
evaluated, the text of a number must be written as a numeral from its first character to its last,
and where a line is cut into tokens, a number is what is found at a digit.  Both accept the same
texts, and a point makes the difference between the two kinds of number:

    (∃ x, (number s).evaluate = .ok x)  ↔  ∃ n, n.Writes s    (exists_evaluate_number_iff)
    IsLexeme ⟨.integer, s⟩ after → '.' ∉ s                    (point_not_mem)
    IsLexeme ⟨.float, s⟩ after → '.' ∈ s                      (point_mem)
-/

namespace LineCalc

open Token (IsLexeme endOfInput ofLine)

variable {s : Text}

/-! ## Points -/

theorem Token.IsLexeme.point_not_mem {after : Text} (h : IsLexeme ⟨.integer, s⟩ after) :
    '.' ∉ s := by
  intro hpoint
  cases h with
  | integer _ hd _ =>
    have hdigit := hd '.' hpoint
    revert hdigit
    decide

theorem Token.IsLexeme.point_mem {after : Text} (h : IsLexeme ⟨.float, s⟩ after) : '.' ∈ s := by
  cases h with
  | float => simp

/-! ## Values -/

namespace Expr

theorem exists_evaluate_number_iff :
    (∃ x, (number s).evaluate = .ok x) ↔ ∃ n : Numeral, n.Writes s := by
  constructor
  · rintro ⟨x, hx⟩
    cases evaluates_iff.mpr hx with
    | number h => exact ⟨_, h⟩
  · rintro ⟨n, h⟩
    exact ⟨_, evaluates_iff.mp (.number h)⟩

theorem evaluate_number_eq_error_iff :
    (number s).evaluate = .error (.malformedNumber s) ↔ ∀ n : Numeral, ¬ n.Writes s := by
  constructor
  · intro h
    cases evaluates_iff.mpr h with
    | malformed hnot => exact hnot
  · intro h
    exact evaluates_iff.mp (.malformed h)

/-- **One notion of a number.**  A number has a value exactly if its text, cut into tokens, is an
integer or a float as a whole, and any other text is malformed; and it is a float where there is a
point in the text. -/
theorem evaluate_number_iff (s : Text) :
    ((∃ x, (number s).evaluate = .ok x) ↔
      ofLine s = [⟨.integer, s⟩, endOfInput] ∨ ofLine s = [⟨.float, s⟩, endOfInput]) ∧
    ((number s).evaluate = .error (.malformedNumber s) ↔
      ¬ (ofLine s = [⟨.integer, s⟩, endOfInput] ∨ ofLine s = [⟨.float, s⟩, endOfInput])) ∧
    (ofLine s = [⟨.integer, s⟩, endOfInput] ↔
      (∃ x, (number s).evaluate = .ok x) ∧ '.' ∉ s) ∧
    (ofLine s = [⟨.float, s⟩, endOfInput] ↔
      (∃ x, (number s).evaluate = .ok x) ∧ '.' ∈ s) := by
  have hinteger : ofLine s = [⟨.integer, s⟩, endOfInput] ↔ IsLexeme ⟨.integer, s⟩ [] :=
    Token.ofLine_text_iff (t := ⟨.integer, s⟩)
  have hfloat : ofLine s = [⟨.float, s⟩, endOfInput] ↔ IsLexeme ⟨.float, s⟩ [] :=
    Token.ofLine_text_iff (t := ⟨.float, s⟩)
  have hvalue : (∃ x, (number s).evaluate = .ok x) ↔
      IsLexeme ⟨.integer, s⟩ [] ∨ IsLexeme ⟨.float, s⟩ [] :=
    exists_evaluate_number_iff.trans Numeral.exists_writes_iff
  rw [hinteger, hfloat, hvalue, evaluate_number_eq_error_iff, ← not_exists,
    Numeral.exists_writes_iff]
  refine ⟨Iff.rfl, Iff.rfl, ?_, ?_⟩
  · constructor
    · intro h
      exact ⟨.inl h, h.point_not_mem⟩
    · rintro ⟨h | h, hpoint⟩
      · exact h
      · exact absurd h.point_mem hpoint
  · constructor
    · intro h
      exact ⟨.inr h, h.point_mem⟩
    · rintro ⟨h | h, hpoint⟩
      · exact absurd hpoint h.point_not_mem
      · exact h

end Expr

/-! ## Reading -/

/-- A numeral is read as a number, up to the end of the line. -/
theorem Numeral.Writes.exists_parseLevel {n : Numeral} (h : n.Writes s) (names : Names) :
    ∃ c, (Cursor.start (ofLine s)).parseLevel names .expression = .ok (.number s, c) ∧ c.AtEnd := by
  have hflattens : ∃ t : Token, t.text = s ∧ IsLexeme t [] ∧ (Expr.number s).Flattens [t] := by
    rcases h.isLexeme with hlexeme | hlexeme
    · exact ⟨_, rfl, hlexeme, .integer s⟩
    · exact ⟨_, rfl, hlexeme, .float s⟩
  obtain ⟨t, rfl, hlexeme, hf⟩ := hflattens
  rw [Token.ofLine_text_iff.mpr hlexeme]
  exact ⟨_, hf.parse trivial (List.forall_mem_nil _) (fun limit _ => Nat.zero_le limit), rfl⟩

theorem Numeral.Writes.parse {n : Numeral} (h : n.Writes s) {declared : List Text}
    (hd : declared.Nodup) : parse (ofLine s) declared = .ok (.number s) := by
  obtain ⟨c, hc, -⟩ := h.exists_parseLevel (.ofList declared)
  exact parse_eq_ok_iff.mpr ⟨hd, c, hc⟩

end LineCalc
