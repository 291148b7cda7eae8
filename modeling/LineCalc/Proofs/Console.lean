import LineCalc.Console
import LineCalc.Proofs.Spelling

/-!
# The line that is read

The console reads one line: the input up to its first line feed or carriage return.  All other
characters that separate lines elsewhere are blanks, and which blanks stand in a line makes no
difference to its tokens:

    firstLine input = (readLine? input).getD []                          (firstLine_eq)
    Alike s' s → ofLine s' = ofLine s                                    (ofLine_of_alike)
    IsLine s → transcript (s ++ '\n' :: rest) = transcript s             (transcript_line)
-/

namespace LineCalc

open Token (Cut IsLexeme Separates ofLine)
open Text (isBlank)

/-! ## Blanks -/

/-- The same text, but for blanks in the place of other blanks. -/
def Text.Alike : Text → Text → Prop :=
  List.Forall₂ fun c d => c = d ∨ isBlank c = true ∧ isBlank d = true

variable {s s' : Text}

theorem Text.Alike.eq_of_not_blank (h : s'.Alike s) (hs : ∀ c ∈ s, isBlank c = false) :
    s' = s := by
  induction h with
  | nil => rfl
  | cons hcd _ ih =>
    obtain ⟨hd, hrest⟩ := List.forall_mem_cons.mp hs
    rcases hcd with rfl | ⟨-, hblank⟩
    · rw [ih hrest]
    · rw [hd] at hblank
      cases hblank

theorem Text.Alike.append {x after : Text} (h : s.Alike (x ++ after)) :
    ∃ y more, s = y ++ more ∧ y.Alike x ∧ more.Alike after :=
  ⟨_, _, (List.take_append_drop x.length s).symm, List.forall₂_take_append _ _ _ h,
    List.forall₂_drop_append _ _ _ h⟩

theorem Text.Alike.head (h : s'.Alike s) :
    ∀ c ∈ s'.head?, c ∈ s.head? ∨ Separates c := by
  cases h with
  | nil => simp
  | cons hcd _ =>
    intro c hc
    obtain rfl := Option.some.inj hc
    rcases hcd with rfl | ⟨hblank, -⟩
    · exact .inl rfl
    · exact .inr (Token.separates_of_isBlank hblank)

/-- A text is cut at the same places, whatever its blanks are. -/
theorem Token.Cut.alike {ts : List Token} (h : Cut s ts) (hs : s'.Alike s) : Cut s' ts := by
  induction h generalizing s' with
  | nil =>
    cases hs
    exact .nil
  | blank hblank _ ih =>
    cases hs with
    | cons hcd hrest =>
      refine .blank ?_ (ih hrest)
      rcases hcd with rfl | ⟨hc, -⟩
      · exact hblank
      · exact hc
  | lexeme ht _ ih =>
    obtain ⟨y, more, rfl, hy, hmore⟩ := hs.append
    rw [hy.eq_of_not_blank (Token.isBlank_of_mem_text ht)]
    exact .lexeme (ht.before (.inr hmore.head)) (ih hmore)

theorem ofLine_of_alike (h : s'.Alike s) : ofLine s' = ofLine s := by
  obtain ⟨ts, hts, hcut⟩ := Token.exists_cut s
  rw [hts, Token.ofLine_of_cut (hcut.alike h)]

theorem Report.run_of_alike (h : s'.Alike s) (declared : List Text) :
    Report.run s' declared = Report.run s declared := by
  rw [run, run, lines, lines, ofLine_of_alike h]

/-! ## Lines -/

namespace Console

/-- Whether no line ends in a text. -/
def IsLine (s : Text) : Prop := ∀ c ∈ s, c ≠ '\n' ∧ c ≠ '\r'

/-- The text with a line feed for each end of a line, which is a line feed, a carriage return, or
both in turn. -/
def unifyEnds : Text → Text
  | [] => []
  | '\r' :: '\n' :: rest => '\n' :: unifyEnds rest
  | c :: rest => (if c = '\r' then '\n' else c) :: unifyEnds rest

/-- The next line of an input, unless there is nothing to read. -/
def readLine? (input : Text) : Option Text :=
  match unifyEnds input with
  | [] => none
  | s => some (s.takeWhile (· ≠ '\n'))

theorem takeWhile_unifyEnds (input : Text) :
    (unifyEnds input).takeWhile (· ≠ '\n') = firstLine input := by
  unfold firstLine
  fun_induction unifyEnds input with
  | case1 => rfl
  | case2 rest ih => rfl
  | case3 c rest _ ih =>
    by_cases hr : c = '\r'
    · simp [hr]
    · by_cases hn : c = '\n'
      · simp [hn]
      · simpa [hr, hn] using ih

/-- Where nothing can be read, the line is empty. -/
theorem firstLine_eq (input : Text) : firstLine input = (readLine? input).getD [] := by
  rw [← takeWhile_unifyEnds, readLine?]
  split
  · rename_i h
    rw [h]
    rfl
  · rfl

theorem firstLine_of_isLine (hs : IsLine s) {rest : Text}
    (h : ∀ c ∈ rest.head?, c = '\n' ∨ c = '\r') : firstLine (s ++ rest) = s := by
  refine Token.takeWhile_run (fun c hc => ?_) fun c hc => ?_
  · simpa using hs c hc
  · rcases h c hc with rfl | rfl <;> rfl

/-- **One line is read, and blanks are alike.**  What is printed depends on the first line only.  It
ends at a line feed, a carriage return or both, and nowhere else; and any other blank of the line
can be replaced by another one. -/
theorem transcript_line :
    (∀ input, transcript input =
      prompt ++ '\n' :: (Report.run ((readLine? input).getD []) [] ++ ['\n'])) ∧
    ∀ s, IsLine s →
      transcript s = prompt ++ '\n' :: (Report.run s [] ++ ['\n']) ∧
      (∀ rest, transcript (s ++ '\n' :: rest) = transcript s ∧
        transcript (s ++ '\r' :: rest) = transcript s ∧
        transcript (s ++ '\r' :: '\n' :: rest) = transcript s) ∧
      ∀ s', IsLine s' → s'.Alike s → transcript s' = transcript s := by
  have hline : ∀ s rest, IsLine s → (∀ c ∈ rest.head?, c = '\n' ∨ c = '\r') →
      transcript (s ++ rest) = prompt ++ '\n' :: (Report.run s [] ++ ['\n']) := by
    intro s rest hs hrest
    rw [transcript, answer, firstLine_of_isLine hs hrest]
  have hall : ∀ s, IsLine s → transcript s = prompt ++ '\n' :: (Report.run s [] ++ ['\n']) := by
    intro s hs
    simpa using hline s [] hs (by simp)
  refine ⟨fun input => ?_, fun s hs => ⟨hall s hs, fun rest => ?_, fun s' hs' h => ?_⟩⟩
  · rw [transcript, answer, firstLine_eq]
  · rw [hall s hs]
    exact ⟨hline s _ hs (by simp), hline s _ hs (by simp), hline s _ hs (by simp)⟩
  · rw [hall s hs, hall s' hs', Report.run_of_alike h]

/-- Two digits with a line separator or a tab between them, and another line behind the first. -/
theorem transcript_line_separator :
    transcript ['1', '\u2028', '2', '\r', '3'] = transcript ['1', '\t', '2'] := by
  have hseparated : IsLine ['1', '\u2028', '2'] := by simp [IsLine]
  have htab : IsLine ['1', '\t', '2'] := by simp [IsLine]
  have halike : Text.Alike ['1', '\u2028', '2'] ['1', '\t', '2'] :=
    .cons (.inl rfl) (.cons (.inr ⟨by decide, by decide⟩) (.cons (.inl rfl) .nil))
  obtain ⟨-, hends, -⟩ := transcript_line.2 _ hseparated
  obtain ⟨-, -, hblanks⟩ := transcript_line.2 _ htab
  exact (hends ['3']).2.1.trans (hblanks _ hseparated halike)

end Console

end LineCalc
