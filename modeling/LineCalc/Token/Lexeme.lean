import LineCalc.Text.Blank
import LineCalc.Text.Digit
import LineCalc.Text.Letter
import LineCalc.Token.Basic

/-!
# Lexemes

A line is cut into lexemes from left to right.  Blanks separate lexemes and belong to none.  Any
other character begins a lexeme, and the lexeme is the longest of its kind: digits with at most one
point behind the first of them, or a name, or else that one character.

    (lexeme c rest).1.text ++ (lexeme c rest).2 = c :: rest      (lexeme_text_append)
    ofLine [] = [endOfInput]                                     (ofLine_nil)
    ofLine (c :: rest) = ofLine rest                             (ofLine_blank)
    ofLine (c :: rest) = (lexeme c rest).1 :: ofLine (lexeme c rest).2    (ofLine_lexeme)
-/

namespace LineCalc.Token

open Text (isBlank isDigit isLetter)

/-! ## One lexeme -/

def operatorChars : Text := "+-*/=<>!".toList

def parenthesisChars : Text := "()".toList

def beginsName (c : Char) : Bool := isLetter c || c == '_'

def continuesName (c : Char) : Bool := isLetter c || isDigit c || c == '_'

/-- The kind of a character that is a lexeme by itself. -/
def kindOfChar (c : Char) : Kind :=
  if c ∈ operatorChars then .operator
  else if c ∈ parenthesisChars then .parenthesis
  else .invalid

/-- The number that begins with the digit `c`, and what follows it.  A point belongs to the number
also where no digit comes behind it. -/
def number (c : Char) (rest : Text) : Token × Text :=
  match rest.dropWhile isDigit with
  | [] => (⟨.integer, c :: rest.takeWhile isDigit⟩, [])
  | d :: after =>
    if d = '.' then
      (⟨.float, c :: rest.takeWhile isDigit ++ d :: after.takeWhile isDigit⟩,
        after.dropWhile isDigit)
    else (⟨.integer, c :: rest.takeWhile isDigit⟩, d :: after)

/-- The lexeme that begins with `c`, which is no blank, and what follows it. -/
def lexeme (c : Char) (rest : Text) : Token × Text :=
  if isDigit c then number c rest
  else if beginsName c then
    (⟨.identifier, c :: rest.takeWhile continuesName⟩, rest.dropWhile continuesName)
  else (⟨kindOfChar c, [c]⟩, rest)

/-- Cutting off a lexeme loses no character. -/
theorem lexeme_text_append (c : Char) (rest : Text) :
    (lexeme c rest).1.text ++ (lexeme c rest).2 = c :: rest := by
  unfold lexeme
  split
  · have digits := List.takeWhile_append_dropWhile (p := isDigit) (l := rest)
    unfold number
    split
    · rename_i h
      rw [h, List.append_nil] at digits
      simp [digits]
    · rename_i d after h
      rw [h] at digits
      split <;> simp [digits, List.takeWhile_append_dropWhile]
  · split <;> simp [List.takeWhile_append_dropWhile]

theorem lexeme_text_ne_nil (c : Char) (rest : Text) : (lexeme c rest).1.text ≠ [] := by
  unfold lexeme number
  split
  · split
    · simp
    · split <;> simp
  · split <;> simp

theorem length_lexeme_rest (c : Char) (rest : Text) :
    (lexeme c rest).2.length ≤ rest.length := by
  have whole := congrArg List.length (lexeme_text_append c rest)
  have some := List.length_pos_iff.mpr (lexeme_text_ne_nil c rest)
  simp only [List.length_append, List.length_cons] at whole
  omega

/-! ## All lexemes -/

/-- The tokens of a text behind those in `done`, the last of which comes first. -/
def collect (done : List Token) : Text → List Token
  | [] => (endOfInput :: done).reverse
  | c :: rest =>
    if isBlank c then collect done rest
    else collect ((lexeme c rest).1 :: done) (lexeme c rest).2
  termination_by s => s.length
  decreasing_by
    · simp
    · have := length_lexeme_rest c rest
      simp only [List.length_cons]
      omega

/-- The tokens of a text, and `endOfInput` behind them. -/
def ofLine (s : Text) : List Token := collect [] s

theorem collect_append (done more : List Token) (s : Text) :
    collect (more ++ done) s = done.reverse ++ collect more s := by
  fun_induction collect more s with
  | case1 more => rw [collect]; simp
  | case2 more c rest hc ih => rw [collect, if_pos hc, ih]
  | case3 more c rest hc ih => rw [collect, if_neg hc, ← ih, List.cons_append]

theorem ofLine_nil : ofLine [] = [endOfInput] := by
  rw [ofLine, collect]
  rfl

theorem ofLine_blank {c : Char} (h : isBlank c = true) (rest : Text) :
    ofLine (c :: rest) = ofLine rest := by
  rw [ofLine, collect, if_pos h, ofLine]

theorem ofLine_lexeme {c : Char} (h : isBlank c = false) (rest : Text) :
    ofLine (c :: rest) = (lexeme c rest).1 :: ofLine (lexeme c rest).2 := by
  rw [ofLine, collect, if_neg (by simp [h]), ofLine]
  exact collect_append [(lexeme c rest).1] [] _

end LineCalc.Token
