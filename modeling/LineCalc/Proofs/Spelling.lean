import Mathlib.Data.List.Chain
import LineCalc.Proofs.Calculation
import LineCalc.Proofs.Parse.Reading
import LineCalc.Proofs.Token.Munch

/-!
# Writing a tree and reading it back

A tree is written by its lexemes in order, with blanks wherever one likes (`Spaced`).  Two words,
numbers or names, never stand next to each other in it, so that no lexeme runs into the next even
without any blank between them; cutting such a text gives back the tokens, and parsing these gives
back the tree:

    e.Flattens ts → Spaced (ts.map text) s → Cut s ts, if each token could stand alone
                                                                          (cut_of_spaced)
    Spaced e.lexemes s → parse (ofLine s) names = .ok e                   (parse_of_spaced)
-/

namespace LineCalc

open Token (IsLexeme Cut ofLine continuesName operatorChars parenthesisChars)
open Text (isBlank isDigit)

/-! ## Texts of trees -/

namespace Expr

/-- The texts that a tree is written with, in order. -/
def lexemes : Expr → List Text
  | number text => [text]
  | identifier name => [name]
  | binary operator left right => left.lexemes ++ operator :: right.lexemes
  | parenthesized inner => ['('] :: (inner.lexemes ++ [[')']])

/-- Whether the numbers of a tree are numerals and its identifiers are names. -/
def Spellable : Expr → Prop
  | number text => IsLexeme ⟨.integer, text⟩ [] ∨ IsLexeme ⟨.float, text⟩ []
  | identifier name => IsLexeme ⟨.identifier, name⟩ []
  | binary _ left right => left.Spellable ∧ right.Spellable
  | parenthesized inner => inner.Spellable

end Expr

/-- The text consists of the parts, in order, and of blanks before, between and behind them. -/
inductive Spaced : List Text → Text → Prop
  | nil : Spaced [] []
  | blank {c : Char} {parts : List Text} {s : Text} : isBlank c = true → Spaced parts s →
      Spaced parts (c :: s)
  | part {x : Text} {parts : List Text} {s : Text} : Spaced parts s → Spaced (x :: parts) (x ++ s)

/-! ## Tokens that can stand side by side -/

/-- Whether the token is an operator or a parenthesis. -/
def Token.IsMark (t : Token) : Prop := t.kind = .operator ∨ t.kind = .parenthesis

/-- Whether a character behind a number or a name does not lengthen it. -/
def Token.Separates (c : Char) : Prop := continuesName c = false ∧ c ≠ '.'

theorem Token.separates_of_isBlank {c : Char} (h : isBlank c = true) : Token.Separates c := by
  constructor
  · refine Bool.eq_false_iff.mpr fun hn => ?_
    rw [Token.isBlank_of_continuesName hn] at h
    cases h
  · rintro rfl
    revert h
    decide

/-- A mark is one character, which separates. -/
theorem Token.IsMark.text_eq {t : Token} (h : t.IsMark) {after : Text} (ht : IsLexeme t after) :
    ∃ c, t.text = [c] ∧ Token.Separates c := by
  cases ht with
  | integer | float | identifier | invalid => rcases h with h | h <;> cases h
  | operator ho => exact ⟨_, rfl, (Token.not_class_of_mark (.inl ho)).2⟩
  | parenthesis hp => exact ⟨_, rfl, (Token.not_class_of_mark (.inr hp)).2⟩

theorem Token.isDigit_of_separates {c : Char} (h : Token.Separates c) : isDigit c = false := by
  refine Bool.eq_false_iff.mpr fun hd => ?_
  rw [Token.Separates, Token.continuesName_of_isDigit hd] at h
  cases h.1

/-- A token can stand before another text as well, if that begins with the same character or with one
that separates; a mark can stand before any text. -/
theorem Token.IsLexeme.before {t : Token} {after other : Text} (ht : IsLexeme t after)
    (h : t.IsMark ∨ ∀ c ∈ other.head?, c ∈ after.head? ∨ Token.Separates c) :
    IsLexeme t other := by
  cases ht with
  | integer hne hd ha =>
    have h := h.resolve_left (by rintro (h | h) <;> cases h)
    refine .integer hne hd fun c hc => ?_
    rcases h c hc with hc | hc
    · exact ha c hc
    · exact ⟨Token.isDigit_of_separates hc, hc.2⟩
  | float hne hw hf ha =>
    have h := h.resolve_left (by rintro (h | h) <;> cases h)
    exact .float hne hw hf fun c hc => (h c hc).elim (ha c) Token.isDigit_of_separates
  | identifier hb hr ha =>
    have h := h.resolve_left (by rintro (h | h) <;> cases h)
    exact .identifier hb hr fun c hc => (h c hc).elim (ha c) And.left
  | operator ho => exact .operator ho
  | parenthesis hp => exact .parenthesis hp
  | invalid hb hd hn ho hp => exact .invalid hb hd hn ho hp

/-- The first character is a blank or begins the first part. -/
theorem Spaced.separates_head {parts : List Text} {s : Text} (h : Spaced parts s)
    (hfirst : ∀ x ∈ parts.head?, ∃ c, x = [c] ∧ Token.Separates c) :
    ∀ c ∈ s.head?, Token.Separates c := by
  cases h with
  | nil => simp
  | blank hc _ =>
    intro d hd
    obtain rfl := Option.some.inj hd
    exact Token.separates_of_isBlank hc
  | part h =>
    obtain ⟨c, rfl, hc⟩ := hfirst _ rfl
    intro d hd
    obtain rfl := Option.some.inj hd
    exact hc

/-- Tokens of which no two words are neighbours are found again, however they are spaced. -/
theorem cut_of_spaced {parts : List Text} {s : Text} (h : Spaced parts s) {ts : List Token}
    (hts : ts.map Token.text = parts) (hlex : ∀ t ∈ ts, IsLexeme t [])
    (hmarks : ts.IsChain fun t u => t.IsMark ∨ u.IsMark) : Cut s ts := by
  induction h generalizing ts with
  | nil =>
    obtain rfl := List.map_eq_nil_iff.mp hts
    exact .nil
  | blank hc _ ih => exact .blank hc (ih hts hlex hmarks)
  | @part x parts s hs ih =>
    obtain ⟨t, rest, rfl, rfl, hrest⟩ := List.map_eq_cons_iff.mp hts
    have hcut : Cut s rest := ih hrest (fun u hu => hlex u (List.mem_cons_of_mem _ hu)) hmarks.tail
    refine .lexeme ((hlex t List.mem_cons_self).before ?_) hcut
    by_cases ht : t.IsMark
    · exact .inl ht
    · refine .inr fun c hc => .inr (hs.separates_head ?_ c hc)
      subst hrest
      cases rest with
      | nil => simp
      | cons u rest =>
        intro x hx
        obtain rfl := Option.some.inj hx
        have hu : u.IsMark := (List.isChain_cons_cons.mp hmarks).1.resolve_left ht
        exact hu.text_eq (hlex u (by simp))

/-! ## The tokens of a tree -/

theorem Expr.Flattens.isChain {e : Expr} {ts : List Token} (h : e.Flattens ts) :
    ts.IsChain fun t u => t.IsMark ∨ u.IsMark := by
  induction h with
  | integer | float | identifier => exact List.isChain_singleton _
  | binary operator _ _ ihl ihr =>
    have hmark : Token.IsMark ⟨.operator, operator⟩ := .inl rfl
    refine List.isChain_append.mpr ⟨ihl, List.isChain_cons.mpr ⟨?_, ihr⟩, ?_⟩
    · exact fun _ _ => .inl hmark
    · intro t _ u hu
      obtain rfl := Option.some.inj hu
      exact .inr hmark
  | parenthesized _ ih =>
    have hopen : Token.opening.IsMark := .inr rfl
    have hclose : Token.closing.IsMark := .inr rfl
    refine List.isChain_cons.mpr ⟨fun _ _ => .inl hopen, ?_⟩
    refine List.isChain_append.mpr ⟨ih, List.isChain_singleton _, ?_⟩
    intro t _ u hu
    obtain rfl := Option.some.inj hu
    exact .inr hclose

theorem Level.isLexeme_operator {operator : Text}
    (h : Level.Multiplicative operator ∨ Level.Additive operator) :
    IsLexeme ⟨.operator, operator⟩ [] := by
  rcases h with (rfl | rfl) | (rfl | rfl) <;> exact .operator (by decide)

/-- A number is written as the kind of numeral that its text is. -/
theorem Expr.exists_flattens {e : Expr} (hl : e.HasLevel .expression) (hs : e.Spellable) :
    ∃ ts, e.Flattens ts ∧ ts.map Token.text = e.lexemes ∧ ∀ t ∈ ts, IsLexeme t [] := by
  induction e with
  | number text =>
    rcases hs with hs | hs
    · exact ⟨_, .integer text, rfl, by simpa using hs⟩
    · exact ⟨_, .float text, rfl, by simpa using hs⟩
  | identifier name => exact ⟨_, .identifier name, rfl, by simpa [Spellable] using hs⟩
  | binary operator left right ihl ihr =>
    obtain ⟨ho, hleft, hright⟩ := hl.operands
    obtain ⟨ls, hfl, hxl, hll⟩ := ihl hleft hs.1
    obtain ⟨rs, hfr, hxr, hlr⟩ := ihr hright hs.2
    refine ⟨_, .binary operator hfl hfr, by simp [lexemes, hxl, hxr], fun t ht => ?_⟩
    rcases List.mem_append.mp ht with ht | ht
    · exact hll t ht
    · rcases List.mem_cons.mp ht with rfl | ht
      · exact Level.isLexeme_operator ho
      · exact hlr t ht
  | parenthesized inner ih =>
    obtain ⟨ts, hf, hx, hlex⟩ := ih hl hs
    refine ⟨_, .parenthesized hf, by simp [lexemes, hx, Token.opening, Token.closing], ?_⟩
    intro t ht
    rcases List.mem_cons.mp ht with rfl | ht
    · exact .parenthesis (by decide)
    · rcases List.mem_append.mp ht with ht | ht
      · exact hlex t ht
      · obtain rfl := List.mem_singleton.mp ht
        exact .parenthesis (by decide)

/-! ## Back from the text -/

/-- The tokens of a tree are read to their end. -/
theorem Expr.Flattens.parse {e : Expr} {ts : List Token} (hf : e.Flattens ts) {r : Parse.Rules}
    (hl : e.HasLevel r.level) (hn : ∀ n ∈ e.names, n ∈ r.names)
    (hd : ∀ limit ∈ r.limit, e.nesting ≤ limit) :
    (Cursor.start (ts ++ [Token.endOfInput])).parse r =
      .ok (e, ⟨ts.length, [Token.endOfInput]⟩) := by
  refine Cursor.parse_eq_ok_iff.mpr ⟨ts, rfl, (Nat.zero_add _).symm, ?_, ?_⟩
  · exact Parse.derives_iff.mpr ⟨hl, hf, hn, hd⟩
  · exact Level.not_continues_endOfInput _

/-- A list of tokens is written for one expression at most. -/
theorem Expr.Flattens.unique {e u : Expr} {ts : List Token} (he : e.Flattens ts)
    (hu : u.Flattens ts) (hle : e.HasLevel .expression) (hlu : u.HasLevel .expression) :
    e = u := by
  have hpe := he.parse (r := ⟨⟨e.names ++ u.names⟩, .expression, none⟩) hle
    (fun n h => List.mem_append_left _ h) (by simp)
  have hpu := hu.parse (r := ⟨⟨e.names ++ u.names⟩, .expression, none⟩) hlu
    (fun n h => List.mem_append_right _ h) (by simp)
  rw [hpe] at hpu
  cases hpu
  rfl

/-- **Round trip.**  However an expression is spaced, its text is read as that expression and as no
other, up to the end of the line. -/
theorem parse_of_spaced {e : Expr} {s : Text} {declared : List Text}
    (hl : e.HasLevel .expression) (hs : e.Spellable) (hd : e.nesting ≤ nestingLimit)
    (hsp : Spaced e.lexemes s) (hnodup : declared.Nodup)
    (hnames : ∀ n, n ∈ declared ↔ n ∈ e.names) :
    parse (ofLine s) declared = .ok e ∧
      (∃ names c, Names.empty.declareAll declared = .ok names ∧
        (Cursor.start (ofLine s)).parseLevel names .expression = .ok (e, c) ∧ c.AtEnd) ∧
      ∀ u : Expr, u.HasLevel .expression → u.Spellable → Spaced u.lexemes s → u = e := by
  obtain ⟨ts, hf, hx, hlex⟩ := Expr.exists_flattens hl hs
  have hcut := cut_of_spaced hsp hx hlex hf.isChain
  have hline : ofLine s = ts ++ [Token.endOfInput] := Token.ofLine_of_cut hcut
  have hread : (Cursor.start (ofLine s)).parseLevel (.ofList declared) .expression =
      .ok (e, ⟨ts.length, [Token.endOfInput]⟩) := by
    rw [hline]
    refine hf.parse hl (fun n hn => Names.mem_ofList.mpr ((hnames n).mpr hn)) ?_
    rintro _ ⟨⟩
    exact hd
  refine ⟨parse_eq_ok_iff.mpr ⟨hnodup, _, hread⟩, ⟨_, _, ?_, hread, rfl⟩, fun u hlu hsu hspu => ?_⟩
  · exact Names.declareAll_empty_eq_ok_iff.mpr ⟨hnodup, rfl⟩
  · obtain ⟨us, hfu, hxu, hlexu⟩ := Expr.exists_flattens hlu hsu
    obtain rfl := (cut_of_spaced hspu hxu hlexu hfu.isChain).unique hcut
    exact hfu.unique hf hlu hl

/-- The product `(1.5+ x)*20`, with a blank in front of its name. -/
theorem parse_spaced_product :
    (Expr.binary ['*'] (.parenthesized (.binary ['+'] (.number ['1', '.', '5']) (.identifier ['x'])))
        (.number ['2', '0'])).HasLevel .expression ∧
      parse (ofLine ['(', '1', '.', '5', '+', ' ', 'x', ')', '*', '2', '0']) [['x']] =
        .ok (.binary ['*']
          (.parenthesized (.binary ['+'] (.number ['1', '.', '5']) (.identifier ['x'])))
          (.number ['2', '0'])) := by
  have hlevel : (Expr.binary ['*']
      (.parenthesized (.binary ['+'] (.number ['1', '.', '5']) (.identifier ['x'])))
      (.number ['2', '0'])).HasLevel .expression :=
    .inl ⟨by decide, .inl rfl, .inr ⟨rfl, .inl rfl, trivial, trivial⟩, trivial⟩
  have hfloat : IsLexeme ⟨.float, ['1', '.', '5']⟩ [] :=
    .float (by simp) (List.forall_mem_singleton.mpr (by decide))
      (List.forall_mem_singleton.mpr (by decide)) (by simp)
  have hname : IsLexeme ⟨.identifier, ['x']⟩ [] := .identifier (by decide) (by simp) (by simp)
  have hinteger : IsLexeme ⟨.integer, ['2', '0']⟩ [] :=
    .integer (by simp) (by simp; decide) (by simp)
  refine ⟨hlevel, (parse_of_spaced hlevel ⟨⟨.inr hfloat, hname⟩, .inl hinteger⟩ (by decide)
    ?_ (by simp) (by simp [Expr.names])).1⟩
  -- the text, part by part
  exact .part (.part (.part (.blank (by decide) (.part (.part (.part (.part .nil)))))))

end LineCalc
