import LineCalc.Token.Basic

/-!
# Cursors

A place in a list of tokens.  Behind the last token every further one is `Token.endOfInput`.
-/

namespace LineCalc

/-- The tokens that are still to come, and how many went before them. -/
structure Cursor where
  pos : Nat
  rest : List Token
  deriving DecidableEq

namespace Cursor

/-- The place before the first token. -/
def start (tokens : List Token) : Cursor := ⟨0, tokens⟩

/-- The next token. -/
def current (c : Cursor) : Token := c.rest.headD Token.endOfInput

/-- Whether the next token ends the input. -/
def AtEnd (c : Cursor) : Prop := c.current.kind = .endOfInput

instance (c : Cursor) : Decidable c.AtEnd := inferInstanceAs (Decidable (_ = _))

end Cursor

end LineCalc
