import Mathlib.Data.List.TakeWhile
import LineCalc.Proofs.Text.Classes
import LineCalc.Token.Cut

/-!
# The longest lexemes

Cutting off a lexeme yields a token of the shape of its kind that what follows does not lengthen,
and whenever a text begins with such a token it is the one that is cut off.  Hence a line has one
cut, and `ofLine` finds it:

    IsLexeme (lexeme c rest).1 (lexeme c rest).2                      (isLexeme_lexeme)
    IsLexeme t after → lexeme at the head of t.text ++ after is t     (lexeme_of_isLexeme)
    ofLine s = ts ++ [endOfInput]  ↔  Cut s ts                        (ofLine_iff_cut)
-/

namespace LineCalc.Token

open Text (isBlank isDigit)

/-! ## Runs of characters -/

theorem of_mem_head_dropWhile {p : Char → Bool} {s : Text} :
    ∀ c ∈ (s.dropWhile p).head?, p c = false := by
  intro c hc
  have := List.head?_dropWhile_not p s
  rw [Option.mem_def.mp hc] at this
  simpa using this

/-- A run of characters ends where a character of another class follows. -/
theorem takeWhile_run {p : Char → Bool} {run after : Text} (hr : ∀ c ∈ run, p c = true)
    (ha : ∀ c ∈ after.head?, p c = false) : (run ++ after).takeWhile p = run := by
  rw [List.takeWhile_append_of_pos hr]
  cases after with
  | nil => simp
  | cons d rest => simp [ha d rfl]

theorem dropWhile_run {p : Char → Bool} {run after : Text} (hr : ∀ c ∈ run, p c = true)
    (ha : ∀ c ∈ after.head?, p c = false) : (run ++ after).dropWhile p = after := by
  rw [List.dropWhile_append_of_pos hr]
  cases after with
  | nil => rfl
  | cons d rest => simp [ha d rfl]

/-- Digits end where a point follows. -/
theorem not_digit_of_point (rest : Text) : ∀ c ∈ ('.' :: rest).head?, isDigit c = false := by
  intro c hc
  obtain rfl : '.' = c := Option.some.inj hc
  decide

/-! ## One lexeme -/

theorem isLexeme_number {c : Char} (rest : Text) (hc : isDigit c = true) :
    IsLexeme (number c rest).1 (number c rest).2 := by
  have digits : ∀ d ∈ c :: rest.takeWhile isDigit, isDigit d = true := by
    intro d hd
    rcases List.mem_cons.mp hd with rfl | hd
    · exact hc
    · exact List.mem_takeWhile_imp hd
  have next := of_mem_head_dropWhile (p := isDigit) (s := rest)
  unfold number
  split
  · exact .integer (by simp) digits (by simp)
  · rename_i d after h
    rw [h] at next
    split
    · rename_i hd
      subst hd
      exact .float (by simp) digits (fun e he => List.mem_takeWhile_imp he)
        of_mem_head_dropWhile
    · rename_i hd
      refine .integer (by simp) digits fun e he => ?_
      obtain rfl : d = e := Option.some.inj he
      exact ⟨next d rfl, hd⟩

/-- What is cut off has the shape of its kind, and what follows does not lengthen it. -/
theorem isLexeme_lexeme {c : Char} (rest : Text) (hc : isBlank c = false) :
    IsLexeme (lexeme c rest).1 (lexeme c rest).2 := by
  unfold lexeme
  split
  · rename_i hd
    exact isLexeme_number rest hd
  · rename_i hd
    split
    · rename_i hn
      exact .identifier hn (fun d h => List.mem_takeWhile_imp h) of_mem_head_dropWhile
    · rename_i hn
      unfold kindOfChar
      split
      · rename_i ho
        exact .operator ho
      · rename_i ho
        split
        · rename_i hp
          exact .parenthesis hp
        · rename_i hp
          exact .invalid hc (Bool.eq_false_iff.mpr hd) (Bool.eq_false_iff.mpr hn) ho hp

theorem lexeme_of_mark {c : Char} (h : c ∈ operatorChars ∨ c ∈ parenthesisChars) (after : Text) :
    isBlank c = false ∧ lexeme c after = (⟨kindOfChar c, [c]⟩, after) := by
  obtain ⟨hb, hn, -⟩ := not_class_of_mark h
  refine ⟨hb, ?_⟩
  have hd : ¬ isDigit c = true := fun hd => by simp [continuesName_of_isDigit hd] at hn
  have hs : ¬ beginsName c = true := fun hs => by simp [continuesName_of_beginsName hs] at hn
  rw [lexeme, if_neg hd, if_neg hs]

/-- A text that begins with a token of the right shape, as long as it can be, is cut behind it. -/
theorem lexeme_of_isLexeme {t : Token} {after : Text} (h : IsLexeme t after) :
    ∃ c rest, t.text = c :: rest ∧ isBlank c = false ∧ lexeme c (rest ++ after) = (t, after) := by
  cases h with
  | @integer digits _ hne hd ha =>
    obtain ⟨c, rest, rfl⟩ := List.exists_cons_of_ne_nil hne
    have hc : isDigit c = true := hd c List.mem_cons_self
    have hrest : ∀ d ∈ rest, isDigit d = true := fun d h => hd d (List.mem_cons_of_mem _ h)
    have hnext : ∀ d ∈ after.head?, isDigit d = false := fun d h => (ha d h).1
    refine ⟨c, rest, rfl, Text.isBlank_of_isDigit hc, ?_⟩
    rw [lexeme, if_pos hc, number, takeWhile_run hrest hnext, dropWhile_run hrest hnext]
    cases after with
    | nil => rfl
    | cons d after => exact if_neg (ha d rfl).2
  | @float whole fraction _ hne hw hf ha =>
    obtain ⟨c, rest, rfl⟩ := List.exists_cons_of_ne_nil hne
    have hc : isDigit c = true := hw c List.mem_cons_self
    have hrest : ∀ d ∈ rest, isDigit d = true := fun d h => hw d (List.mem_cons_of_mem _ h)
    have hpoint := not_digit_of_point (fraction ++ after)
    refine ⟨c, rest ++ '.' :: fraction, rfl, Text.isBlank_of_isDigit hc, ?_⟩
    rw [lexeme, if_pos hc, number, List.append_assoc, List.cons_append,
      takeWhile_run hrest hpoint, dropWhile_run hrest hpoint]
    simp only [if_true, takeWhile_run hf ha, dropWhile_run hf ha, List.cons_append]
  | @identifier c rest _ hc hr ha =>
    have hd : ¬ isDigit c = true := by simp [isDigit_of_beginsName hc]
    refine ⟨c, rest, rfl, isBlank_of_continuesName (continuesName_of_beginsName hc), ?_⟩
    rw [lexeme, if_neg hd, if_pos hc, takeWhile_run hr ha, dropWhile_run hr ha]
  | @operator c _ ho =>
    obtain ⟨hb, hl⟩ := lexeme_of_mark (.inl ho) after
    refine ⟨c, [], rfl, hb, ?_⟩
    rw [List.nil_append, hl, kindOfChar, if_pos ho]
  | @parenthesis c _ hp =>
    obtain ⟨hb, hl⟩ := lexeme_of_mark (.inr hp) after
    have ho : c ∉ operatorChars := by
      have all : parenthesisChars.all (fun c => !operatorChars.contains c) = true := by decide
      simpa using List.all_eq_true.mp all c hp
    refine ⟨c, [], rfl, hb, ?_⟩
    rw [List.nil_append, hl, kindOfChar, if_neg ho, if_pos hp]
  | @invalid c _ hb hd hn ho hp =>
    refine ⟨c, [], rfl, hb, ?_⟩
    rw [List.nil_append, lexeme, if_neg (by simp [hd]), if_neg (by simp [hn]), kindOfChar,
      if_neg ho, if_neg hp]

/-! ## All lexemes -/

/-- A lexeme in front of a text is the first of the tokens. -/
theorem IsLexeme.ofLine_eq {t : Token} {after : Text} (h : IsLexeme t after) :
    ofLine (t.text ++ after) = t :: ofLine after := by
  obtain ⟨c, rest, htext, hc, hl⟩ := lexeme_of_isLexeme h
  rw [htext, List.cons_append, ofLine_lexeme hc, hl]

/-- The tokens of a line cut it. -/
theorem exists_cut (s : Text) : ∃ ts, ofLine s = ts ++ [endOfInput] ∧ Cut s ts := by
  induction hn : s.length using Nat.strongRecOn generalizing s with
  | ind n ih =>
    cases s with
    | nil => exact ⟨[], ofLine_nil, .nil⟩
    | cons c rest =>
      rw [List.length_cons] at hn
      by_cases hc : isBlank c = true
      · obtain ⟨ts, hts, hcut⟩ := ih rest.length (by omega) rest rfl
        exact ⟨ts, by rw [ofLine_blank hc, hts], .blank hc hcut⟩
      · have hc : isBlank c = false := Bool.eq_false_iff.mpr hc
        have hlen := length_lexeme_rest c rest
        obtain ⟨ts, hts, hcut⟩ := ih (lexeme c rest).2.length (by omega) (lexeme c rest).2 rfl
        refine ⟨(lexeme c rest).1 :: ts, by rw [ofLine_lexeme hc, hts, List.cons_append], ?_⟩
        rw [← lexeme_text_append c rest]
        exact .lexeme (isLexeme_lexeme rest hc) hcut

theorem ofLine_of_cut {s : Text} {ts : List Token} (h : Cut s ts) :
    ofLine s = ts ++ [endOfInput] := by
  induction h with
  | nil => exact ofLine_nil
  | blank hc _ ih => rw [ofLine_blank hc, ih]
  | lexeme ht _ ih => rw [ht.ofLine_eq, ih, List.cons_append]

theorem Cut.unique {s : Text} {ts us : List Token} (ht : Cut s ts) (hu : Cut s us) : ts = us :=
  List.append_cancel_right ((ofLine_of_cut ht).symm.trans (ofLine_of_cut hu))

/-! ## The characters of the lexemes -/

theorem isBlank_of_mem_text {t : Token} {after : Text} (h : IsLexeme t after) :
    ∀ c ∈ t.text, isBlank c = false := by
  intro c hc
  cases h with
  | integer _ hd _ => exact Text.isBlank_of_isDigit (hd c hc)
  | float _ hw hf _ =>
    rcases List.mem_append.mp hc with hc | hc
    · exact Text.isBlank_of_isDigit (hw c hc)
    · rcases List.mem_cons.mp hc with rfl | hc
      · decide
      · exact Text.isBlank_of_isDigit (hf c hc)
  | identifier hb hr _ =>
    rcases List.mem_cons.mp hc with rfl | hc
    · exact isBlank_of_continuesName (continuesName_of_beginsName hb)
    · exact isBlank_of_continuesName (hr c hc)
  | operator ho =>
    obtain rfl := List.mem_singleton.mp hc
    exact (not_class_of_mark (.inl ho)).1
  | parenthesis hp =>
    obtain rfl := List.mem_singleton.mp hc
    exact (not_class_of_mark (.inr hp)).1
  | invalid hb =>
    obtain rfl := List.mem_singleton.mp hc
    exact hb

/-- A cut leaves out nothing but blanks. -/
theorem Cut.texts {s : Text} {ts : List Token} (h : Cut s ts) :
    ts.flatMap text = s.filter fun c => !isBlank c := by
  induction h with
  | nil => rfl
  | blank hc _ ih => rw [ih, List.filter_cons_of_neg (by simp [hc])]
  | @lexeme t after ts ht _ ih =>
    have hkeep : t.text.filter (fun c => !isBlank c) = t.text :=
      List.filter_eq_self.mpr fun c hc => by simp [isBlank_of_mem_text ht c hc]
    rw [List.flatMap_cons, ih, List.filter_append, hkeep]

/-- **Longest lexemes.**  The tokens of a line, up to `endOfInput`, are its one cut, and together
they make up all of the line but the blanks. -/
theorem ofLine_iff_cut (s : Text) :
    (∀ ts, ofLine s = ts ++ [endOfInput] ↔ Cut s ts) ∧ (∃ ts, Cut s ts ∧ ∀ us, Cut s us → us = ts) ∧
      (ofLine s).dropLast.flatMap text = s.filter fun c => !isBlank c := by
  obtain ⟨ts, hts, hcut⟩ := exists_cut s
  refine ⟨fun us => ⟨fun h => ?_, ofLine_of_cut⟩, ⟨ts, hcut, fun us hus => hus.unique hcut⟩, ?_⟩
  · obtain rfl : ts = us := List.append_cancel_right (hts.symm.trans h)
    exact hcut
  · rw [hts, List.dropLast_concat]
    exact hcut.texts

end LineCalc.Token
