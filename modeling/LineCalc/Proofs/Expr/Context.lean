import LineCalc.Expr.Context
import LineCalc.Expr.Value
import LineCalc.Grammar

/-!
# Putting another expression in a place

Every operand among the tokens of an expression marks a place in it: `Surrounds` says which tokens
stand on either side of the hole, and what is put there is written between them.

    (c.fill e).Flattens (before ++ ts ++ after)      if e.Flattens ts             (flattens_fill)
    e.Flattens (before ++ t :: after)  →  e is a context around the operand t     (exists_context)
    a.value = b.value  →  (c.fill a).value = (c.fill b).value                     (value_fill_congr)
-/

namespace LineCalc

/-- An element of two lists, one behind the other, lies in the first or in the second. -/
theorem append_eq_append_cons {α : Type} {l₁ l₂ before after : List α} {x : α}
    (h : l₁ ++ l₂ = before ++ x :: after) :
    (∃ m, l₁ = before ++ x :: m ∧ after = m ++ l₂) ∨
      ∃ m, before = l₁ ++ m ∧ l₂ = m ++ x :: after := by
  rcases List.append_eq_append_iff.mp h with ⟨m, hbefore, hl₂⟩ | ⟨m, hl₁, hafter⟩
  · exact .inr ⟨m, hbefore, hl₂⟩
  · cases m with
    | nil => exact .inr ⟨[], by simpa using hl₁.symm, hafter.symm⟩
    | cons y m =>
      cases hafter
      exact .inl ⟨m, hl₁, rfl⟩

/-- The expression that the token is by itself, if it is an operand. -/
def Token.operand? (t : Token) : Option Expr :=
  match t.kind with
  | .integer | .float => some (.number t.text)
  | .identifier => some (.identifier t.text)
  | .operator | .parenthesis | .endOfInput | .invalid => none

namespace Expr.Context

/-! ## Tokens around the hole -/

/-- The context is written with the tokens before the hole and those behind it. -/
inductive Surrounds : Context → List Token → List Token → Prop
  | hole : Surrounds hole [] []
  | inLeft {left : Context} {right : Expr} {before after rs : List Token} (operator : Text) :
      Surrounds left before after → right.Flattens rs →
      Surrounds (inLeft operator left right) before (after ++ ⟨.operator, operator⟩ :: rs)
  | inRight {left : Expr} {right : Context} {ls before after : List Token} (operator : Text) :
      left.Flattens ls → Surrounds right before after →
      Surrounds (inRight operator left right) (ls ++ ⟨.operator, operator⟩ :: before) after
  | inParentheses {inner : Context} {before after : List Token} : Surrounds inner before after →
      Surrounds (inParentheses inner) (Token.opening :: before) (after ++ [Token.closing])

/-- What is put in the hole is written between the tokens on either side. -/
theorem Surrounds.flattens_fill {c : Context} {before after ts : List Token} {e : Expr}
    (h : c.Surrounds before after) (he : e.Flattens ts) :
    (c.fill e).Flattens (before ++ ts ++ after) := by
  induction h with
  | hole => simpa [fill] using he
  | inLeft operator _ hr ih =>
    have h := Expr.Flattens.binary operator ih hr
    simpa only [fill, List.append_assoc] using h
  | inRight operator hl _ ih =>
    have h := Expr.Flattens.binary operator hl ih
    simpa only [fill, List.append_assoc, List.cons_append] using h
  | inParentheses _ ih =>
    have h := Expr.Flattens.parenthesized ih
    simpa only [fill, List.append_assoc, List.cons_append] using h

/-- An expression is a context around each of the operands that it is written with. -/
theorem exists_context {e operand : Expr} {ts before after : List Token} {t : Token}
    (h : e.Flattens ts) (hts : ts = before ++ t :: after) (ht : t.operand? = some operand) :
    ∃ c : Context, c.Surrounds before after ∧ c.fill operand = e := by
  induction h generalizing before after with
  | integer text | float text | identifier name =>
    rcases List.append_eq_cons_iff.mp hts.symm with ⟨rfl, hcons⟩ | ⟨m, -, hnil⟩
    · cases hcons
      cases ht
      exact ⟨hole, .hole, rfl⟩
    · simp at hnil
  | @binary left right ls rs operator hl hr ihl ihr =>
    rcases append_eq_append_cons hts with ⟨m, hls, rfl⟩ | ⟨m, rfl, hrest⟩
    · obtain ⟨c, hc, hfill⟩ := ihl hls
      exact ⟨inLeft operator c right, .inLeft operator hc hr, by rw [fill, hfill]⟩
    · rcases List.append_eq_cons_iff.mp hrest.symm with ⟨rfl, hcons⟩ | ⟨m', rfl, hrs⟩
      · -- the operator itself is no operand
        cases hcons
        cases ht
      · obtain ⟨c, hc, hfill⟩ := ihr hrs
        exact ⟨inRight operator left c, .inRight operator hl hc, by rw [fill, hfill]⟩
  | @parenthesized inner us _ ih =>
    rcases List.append_eq_cons_iff.mp hts.symm with ⟨rfl, hcons⟩ | ⟨m, rfl, hrest⟩
    · cases hcons
      cases ht
    · rcases append_eq_append_cons hrest with ⟨m', hus, rfl⟩ | ⟨m', -, hlast⟩
      · obtain ⟨c, hc, hfill⟩ := ih hus
        exact ⟨inParentheses c, .inParentheses hc, by rw [fill, hfill]⟩
      · rcases List.append_eq_cons_iff.mp hlast.symm with ⟨rfl, hcons⟩ | ⟨m'', -, hnil⟩
        · cases hcons
          cases ht
        · simp at hnil

/-! ## What becomes of the whole -/

/-- A factor can stand wherever something stands. -/
theorem hasLevel_fill {level : Level} {a b : Expr} (c : Context)
    (h : (c.fill a).HasLevel level) (hb : b.HasLevel .factor) : (c.fill b).HasLevel level := by
  induction c generalizing level with
  | hole =>
    cases b with
    | number | identifier => trivial
    | parenthesized inner => exact hb
    | binary operator left right =>
      rcases hb with ⟨hne, -⟩ | ⟨heq, -⟩
      · exact absurd rfl hne
      · cases heq
  | inLeft operator left right ih =>
    rcases h with ⟨hlevel, ho, hl, hr⟩ | ⟨hlevel, ho, hl, hr⟩
    · exact .inl ⟨hlevel, ho, ih hl, hr⟩
    · exact .inr ⟨hlevel, ho, ih hl, hr⟩
  | inRight operator left right ih =>
    rcases h with ⟨hlevel, ho, hl, hr⟩ | ⟨hlevel, ho, hl, hr⟩
    · exact .inl ⟨hlevel, ho, hl, ih hr⟩
    · exact .inr ⟨hlevel, ho, hl, ih hr⟩
  | inParentheses inner ih => exact ih h

/-- No names come in but those of what is put in the hole. -/
theorem mem_names_fill {a b : Expr} {n : Text} (c : Context) (h : n ∈ (c.fill b).names) :
    n ∈ (c.fill a).names ∨ n ∈ b.names := by
  induction c with
  | hole => exact .inr h
  | inLeft operator left right ih =>
    rcases List.mem_append.mp h with h | h
    · exact (ih h).imp_left (List.mem_append_left _)
    · exact .inl (List.mem_append_right _ h)
  | inRight operator left right ih =>
    rcases List.mem_append.mp h with h | h
    · exact .inl (List.mem_append_left _ h)
    · exact (ih h).imp_left (List.mem_append_right _)
  | inParentheses inner ih => exact ih h

/-- Expressions with one value have one value everywhere. -/
theorem value_fill_congr {a b : Expr} (h : a.value = b.value) (c : Context) :
    (c.fill a).value = (c.fill b).value := by
  induction c with
  | hole => exact h
  | inLeft operator left right ih => simp only [fill, value, ih]
  | inRight operator left right ih => simp only [fill, value, ih]
  | inParentheses inner ih => simp only [fill, value, ih]

end Expr.Context

end LineCalc
