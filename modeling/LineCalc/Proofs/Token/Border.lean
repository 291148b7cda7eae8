import LineCalc.Proofs.Line

/-!
# Where a line can be parted

A line may be cut into tokens in two parts, each by itself, unless the border between the parts
lies within a lexeme.  It does so where a lexeme at the end of the first part takes in the first
character of the second one, and nowhere else:

    IsLexeme t s  ↔  IsLexeme t [], and t does not take in the head of s (isLexeme_iff)
    ofLine (t.text ++ s) = t :: us  ↔  IsLexeme t s ∧ ofLine s = us      (ofLine_text_append_iff)
    ofLine (a ++ b) = (ofLine a).dropLast ++ ofLine b  ↔  ¬ Glues a b    (ofLine_append_iff)

`Glues` is settled by the last token of the first part, and it goes along with a cut: what comes
before the last lexeme makes no difference (`glues_blank`, `glues_text_append`, `glues_text`).
-/

namespace LineCalc.Token

open Text (isBlank isDigit isLetter)

/-! ## What lengthens a lexeme -/

/-- Whether a lexeme of the kind becomes longer when the character comes next. -/
def Kind.takesIn : Kind → Char → Bool
  | .integer, c => isDigit c || c == '.'
  | .float, c => isDigit c
  | .identifier, c => isLetter c || isDigit c || c == '_'
  | .operator, _ | .parenthesis, _ | .endOfInput, _ | .invalid, _ => false

/-- Whether the last lexeme of the first text, behind which there is no blank, takes in the first
character of the second text. -/
def Glues (a b : Text) : Prop :=
  ∃ c ∈ a.getLast?, isBlank c = false ∧
    ∃ t ∈ (ofLine a).dropLast.getLast?, ∃ d ∈ b.head?, t.kind.takesIn d = true

variable {t : Token} {a b s : Text}

theorem IsLexeme.takesIn_eq_false (h : IsLexeme t s) :
    ∀ c ∈ s.head?, t.kind.takesIn c = false := by
  intro c hc
  cases h with
  | integer _ _ ha => simp [Kind.takesIn, ha c hc]
  | float _ _ _ ha => exact ha c hc
  | identifier _ _ ha => exact ha c hc
  | operator | parenthesis | invalid => rfl

theorem IsLexeme.of_takesIn_eq_false (h : IsLexeme t [])
    (hs : ∀ c ∈ s.head?, t.kind.takesIn c = false) : IsLexeme t s := by
  cases h with
  | integer hne hd _ =>
    refine .integer hne hd fun c hc => ?_
    simpa [Kind.takesIn] using hs c hc
  | float hne hw hf _ => exact .float hne hw hf hs
  | identifier hb hr _ => exact .identifier hb hr hs
  | operator ho => exact .operator ho
  | parenthesis hp => exact .parenthesis hp
  | invalid hb hd hn ho hp => exact .invalid hb hd hn ho hp

/-- A lexeme can stand before a text that does not lengthen it. -/
theorem isLexeme_iff : IsLexeme t s ↔ IsLexeme t [] ∧ ∀ c ∈ s.head?, t.kind.takesIn c = false :=
  ⟨fun h => ⟨h.alone, h.takesIn_eq_false⟩, fun ⟨h, hs⟩ => h.of_takesIn_eq_false hs⟩

/-! ## A lexeme in front -/

/-- The token is found in front of a text exactly if it is a lexeme there. -/
theorem ofLine_text_append_iff (h : IsLexeme t []) {us : List Token} :
    ofLine (t.text ++ s) = t :: us ↔ IsLexeme t s ∧ ofLine s = us := by
  constructor
  · intro hline
    obtain ⟨c, rest, htext, hc, -⟩ := lexeme_of_isLexeme h
    rw [htext, List.cons_append, ofLine_lexeme hc] at hline
    obtain ⟨hfirst, hrest⟩ := List.cons.inj hline
    -- the token and what is left of the line make up the line, so `s` is left
    have hwhole := lexeme_text_append c (rest ++ s)
    rw [hfirst, htext, ← List.cons_append] at hwhole
    have hleft : (lexeme c (rest ++ s)).2 = s := List.append_cancel_left hwhole
    have hlex := isLexeme_lexeme (rest ++ s) hc
    rw [hfirst, hleft] at hlex
    rw [hleft] at hrest
    exact ⟨hlex, hrest⟩
  · rintro ⟨hlex, rfl⟩
    exact hlex.ofLine_eq

/-! ## Gluing along a cut -/

/-- Without a token there is nothing but blanks. -/
theorem isBlank_of_cut_nil (h : Cut s []) : ∀ c ∈ s, isBlank c = true := by
  have hnone : s.filter (fun c => !isBlank c) = [] := h.texts.symm
  intro c hc
  simpa using List.filter_eq_nil_iff.mp hnone c hc

theorem getLast?_text (h : IsLexeme t []) : ∃ c ∈ t.text.getLast?, isBlank c = false := by
  obtain ⟨c, rest, htext, -⟩ := lexeme_of_isLexeme h
  have hne : t.text ≠ [] := by simp [htext]
  refine ⟨t.text.getLast hne, List.getLast?_eq_some_getLast hne, ?_⟩
  exact isBlank_of_mem_text h _ (List.getLast_mem hne)

theorem glues_blank {c : Char} (hc : isBlank c = true) : Glues (c :: a) b ↔ Glues a b := by
  cases a with
  | nil => simp [Glues, ofLine_blank hc, ofLine_nil]
  | cons d a => simp only [Glues, ofLine_blank hc, List.getLast?_cons_cons]

/-- A lexeme at the end of the first text glues if it takes in what comes next. -/
theorem glues_text (h : IsLexeme t []) :
    Glues t.text b ↔ ∃ d ∈ b.head?, t.kind.takesIn d = true := by
  obtain ⟨c, hlast, hc⟩ := getLast?_text h
  have htoken : (ofLine t.text).dropLast.getLast? = some t := by
    rw [ofLine_text_iff.mpr h]
    rfl
  constructor
  · rintro ⟨-, -, -, u, hu, hd⟩
    obtain rfl : t = u := Option.some.inj (htoken.symm.trans hu)
    exact hd
  · intro hd
    exact ⟨c, hlast, hc, t, htoken, hd⟩

/-- Only the last lexeme of the first text can glue. -/
theorem glues_text_append (h : IsLexeme t a) (hne : a ≠ []) :
    Glues (t.text ++ a) b ↔ Glues a b := by
  obtain ⟨ts, hts, hcut⟩ := exists_cut a
  have hlast : (t.text ++ a).getLast? = a.getLast? := List.getLast?_append_of_ne_nil _ hne
  have hline : (ofLine (t.text ++ a)).dropLast = t :: ts := by
    rw [h.ofLine_eq, hts, ← List.cons_append, List.dropLast_concat]
  have hline' : (ofLine a).dropLast = ts := by rw [hts, List.dropLast_concat]
  simp only [Glues, hlast, hline, hline']
  cases ts with
  | nil =>
    -- the text ends in a blank, so neither glues
    have hblank := isBlank_of_cut_nil hcut
    constructor
    · rintro ⟨c, hc, hb, -⟩
      rw [hblank c (List.mem_of_getLast? hc)] at hb
      cases hb
    · rintro ⟨-, -, -, u, hu, -⟩
      cases hu
  | cons u ts => rw [List.getLast?_cons_cons]

/-! ## Parting a line -/

theorem ofLine_append_iff_of_cut {ts : List Token} (h : Cut a ts) (b : Text) :
    ofLine (a ++ b) = ts ++ ofLine b ↔ ¬ Glues a b := by
  induction h with
  | nil => simp [Glues]
  | @blank c rest ts hc _ ih => rw [List.cons_append, ofLine_blank hc, ih, glues_blank hc]
  | @lexeme t after ts ht hcut ih =>
    rw [List.append_assoc, List.cons_append, ofLine_text_append_iff ht.alone]
    -- the border is right behind the lexeme, or there is more of the first part between them
    by_cases hne : after = []
    · subst hne
      obtain rfl : ts = [] := hcut.unique .nil
      rw [List.append_nil, glues_text ht, isLexeme_iff]
      simp [ht]
    · have hhead : (after ++ b).head? = after.head? := List.head?_append_of_ne_nil _ hne
      have hlex : IsLexeme t (after ++ b) := by
        rw [isLexeme_iff, hhead, ← isLexeme_iff]
        exact ht
      rw [ih, glues_text_append ht hne]
      exact and_iff_right hlex

/-- **Parting a line.**  The tokens of a line are those of its two parts, exactly if the lexeme at
the end of the first part does not take in the first character of the second one. -/
theorem ofLine_append_iff (a b : Text) :
    ofLine (a ++ b) = (ofLine a).dropLast ++ ofLine b ↔ ¬ Glues a b := by
  obtain ⟨ts, hts, hcut⟩ := exists_cut a
  rw [hts, List.dropLast_concat]
  exact ofLine_append_iff_of_cut hcut b

/-- An integer takes in a point, and the float that it becomes takes in no second one. -/
example : ofLine ['1', '.', '.', '5'] = (ofLine ['1', '.']).dropLast ++ ofLine ['.', '5'] := by
  cbv

end LineCalc.Token
