import LineCalc.Proofs.Spelling

/-!
# What is read from a line

The tokens of a line are lexemes, each of which could stand alone, up to the last one.  So a tree
that is read from a line holds nothing but numerals, names and operators:

    t ∈ ofLine s → IsLexeme t [] ∨ t = endOfInput                    (isLexeme_of_mem_ofLine)
    ofLine t.text = [t, endOfInput] ↔ IsLexeme t []                  (ofLine_text_iff)
    parse (ofLine s) declared = .ok e → e is written with lexemes    (exists_flattens_of_parse)
-/

namespace LineCalc

open Token (IsLexeme Cut ofLine)

/-! ## Tokens of a line -/

/-- Nothing behind a lexeme is needed to make it one. -/
theorem Token.IsLexeme.alone {t : Token} {after : Text} (h : IsLexeme t after) : IsLexeme t [] :=
  h.before (.inr (by simp))

theorem Token.Cut.isLexeme {s : Text} {ts : List Token} (h : Cut s ts) :
    ∀ t ∈ ts, IsLexeme t [] := by
  induction h with
  | nil => simp
  | blank _ _ ih => exact ih
  | lexeme ht _ ih => exact List.forall_mem_cons.mpr ⟨ht.alone, ih⟩

theorem Token.isLexeme_of_mem_ofLine {s : Text} {t : Token} (h : t ∈ ofLine s) :
    IsLexeme t [] ∨ t = endOfInput := by
  obtain ⟨ts, hts, hcut⟩ := Token.exists_cut s
  rw [hts] at h
  rcases List.mem_append.mp h with h | h
  · exact .inl (hcut.isLexeme t h)
  · exact .inr (List.mem_singleton.mp h)

/-- A token is the only one of its text exactly if it could stand alone. -/
theorem Token.ofLine_text_iff {t : Token} :
    ofLine t.text = [t, endOfInput] ↔ IsLexeme t [] := by
  constructor
  · intro h
    obtain ⟨ts, hts, hcut⟩ := Token.exists_cut t.text
    have hsame : ts ++ [endOfInput] = [t] ++ [endOfInput] := hts.symm.trans h
    obtain rfl : ts = [t] := List.append_cancel_right hsame
    exact hcut.isLexeme t List.mem_cons_self
  · intro h
    have hcut : Cut (t.text ++ []) [t] := .lexeme h .nil
    rw [List.append_nil] at hcut
    exact Token.ofLine_of_cut hcut

/-! ## Trees written with lexemes -/

/-- The numbers and names of a tree are spelled like the tokens that it is written with. -/
theorem Expr.Flattens.spellable {e : Expr} {ts : List Token} (h : e.Flattens ts)
    (hts : ∀ t ∈ ts, IsLexeme t []) : e.Spellable := by
  induction h with
  | integer text => exact .inl (hts _ (by simp))
  | float text => exact .inr (hts _ (by simp))
  | identifier name => exact hts _ (by simp)
  | binary operator _ _ ihl ihr =>
    refine ⟨ihl fun t ht => hts t ?_, ihr fun t ht => hts t ?_⟩
    · exact List.mem_append_left _ ht
    · exact List.mem_append_right _ (List.mem_cons_of_mem _ ht)
  | parenthesized _ ih =>
    exact ih fun t ht => hts t (List.mem_cons_of_mem _ (List.mem_append_left _ ht))

theorem Expr.Flattens.map_text {e : Expr} {ts : List Token} (h : e.Flattens ts) :
    ts.map Token.text = e.lexemes := by
  induction h with
  | integer | float | identifier => rfl
  | binary operator _ _ ihl ihr => simp [lexemes, ihl, ihr]
  | parenthesized _ ih => simp [lexemes, ih, Token.opening, Token.closing]

/-- A tree that is read from a line is an expression, written with lexemes, of declared names. -/
theorem exists_flattens_of_parse {s : Text} {declared : List Text} {e : Expr}
    (h : parse (ofLine s) declared = .ok e) :
    ∃ ts, e.Flattens ts ∧ (∀ t ∈ ts, IsLexeme t []) ∧ e.HasLevel .expression ∧
      ∀ n ∈ e.names, n ∈ declared := by
  obtain ⟨-, c, hread⟩ := parse_eq_ok_iff.mp h
  obtain ⟨ts, hts, -, hd, -⟩ := Cursor.parse_eq_ok_iff.mp hread
  refine ⟨ts, hd.flattens, fun t ht => ?_, hd.hasLevel,
    fun n hn => Names.mem_ofList.mp (hd.declared n hn)⟩
  have hmem : t ∈ ofLine s := by
    rw [show ofLine s = ts ++ c.rest from hts]
    exact List.mem_append_left _ ht
  refine (Token.isLexeme_of_mem_ofLine hmem).resolve_right ?_
  rintro rfl
  exact hd.flattens.kind_ne_endOfInput _ ht rfl

end LineCalc
