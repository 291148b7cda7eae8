import LineCalc.Token.Lexeme

/-!
# Cuts

A cut of a text is a list of tokens whose texts make it up, with blanks before, between and behind
them, where no token could be longer.  `IsLexeme` says what a token of each kind looks like and
what cannot follow it, without a word on how it is found.
-/

namespace LineCalc.Token

open Text (isBlank isDigit)

/-- The token has the shape of its kind, and the text behind it does not lengthen it. -/
inductive IsLexeme : Token → Text → Prop
  | integer {digits after : Text} : digits ≠ [] → (∀ d ∈ digits, isDigit d = true) →
      (∀ c ∈ after.head?, isDigit c = false ∧ c ≠ '.') → IsLexeme ⟨.integer, digits⟩ after
  | float {whole fraction after : Text} : whole ≠ [] → (∀ d ∈ whole, isDigit d = true) →
      (∀ d ∈ fraction, isDigit d = true) → (∀ c ∈ after.head?, isDigit c = false) →
      IsLexeme ⟨.float, whole ++ '.' :: fraction⟩ after
  | identifier {c : Char} {rest after : Text} : beginsName c = true →
      (∀ d ∈ rest, continuesName d = true) → (∀ d ∈ after.head?, continuesName d = false) →
      IsLexeme ⟨.identifier, c :: rest⟩ after
  | operator {c : Char} {after : Text} : c ∈ operatorChars → IsLexeme ⟨.operator, [c]⟩ after
  | parenthesis {c : Char} {after : Text} : c ∈ parenthesisChars →
      IsLexeme ⟨.parenthesis, [c]⟩ after
  | invalid {c : Char} {after : Text} : isBlank c = false → isDigit c = false →
      beginsName c = false → c ∉ operatorChars → c ∉ parenthesisChars →
      IsLexeme ⟨.invalid, [c]⟩ after

/-- The text consists of blanks and of the tokens, in order, each as long as it can be. -/
inductive Cut : Text → List Token → Prop
  | nil : Cut [] []
  | blank {c : Char} {rest : Text} {ts : List Token} : isBlank c = true → Cut rest ts →
      Cut (c :: rest) ts
  | lexeme {t : Token} {after : Text} {ts : List Token} : IsLexeme t after → Cut after ts →
      Cut (t.text ++ after) (t :: ts)

end LineCalc.Token
