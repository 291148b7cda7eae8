import LineCalc.Token.Label

/-!
# Tokens

A token is a lexeme and what kind of lexeme it is.  A list of tokens may pair any kind with any
text.
-/

namespace LineCalc

namespace Token

/-- What a lexeme is; the kind `endOfInput` belongs to none. -/
inductive Kind
  | integer
  | float
  | identifier
  | operator
  | parenthesis
  | endOfInput
  | invalid
  deriving DecidableEq

namespace Kind

/-- All kinds, in the order in which they are listed. -/
def all : List Kind :=
  [integer, float, identifier, operator, parenthesis, endOfInput, invalid]

/-- The name of a kind, in capitals. -/
def name : Kind → Text
  | integer => "INTEGER".toList
  | float => "FLOAT".toList
  | identifier => "IDENTIFIER".toList
  | operator => "OPERATOR".toList
  | parenthesis => "PARENTHESIS".toList
  | endOfInput => "END_OF_INPUT".toList
  | invalid => "INVALID".toList

/-- What a kind is shown as. -/
def label (k : Kind) : Text := Label.ofName k.name

end Kind

end Token

/-- A lexeme and its kind. -/
structure Token where
  kind : Token.Kind
  text : Text
  deriving DecidableEq

namespace Token

/-- The token behind the last lexeme of a line. -/
def endOfInput : Token := ⟨.endOfInput, "EOF".toList⟩

/-- The line that shows a token. -/
def line (t : Token) : Text := t.kind.label ++ ": ".toList ++ t.text

end Token

end LineCalc
