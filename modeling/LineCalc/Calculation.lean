import LineCalc.Failure
import LineCalc.Token.Lexeme

/-!
# Calculation

The way from tokens to a value: the names are declared in order, an expression is read from the
tokens, and the expression is evaluated.  The first failure ends it.  Tokens behind the expression
are ignored.
-/

namespace LineCalc

/-- The expression that a list of tokens begins with, where the given names may occur. -/
def parse (tokens : List Token) (declared : List Text) : Except Failure Expr :=
  match Names.empty.declareAll declared with
  | .error e => .error (.names e)
  | .ok names =>
    match (Cursor.start tokens).parseLevel names .expression with
    | .error e => .error (.parse e)
    | .ok (e, _) => .ok e

/-- The value of an expression. -/
def Expr.calculate (e : Expr) : Except Failure Binary64 :=
  match e.evaluate with
  | .error err => .error (.evaluation err)
  | .ok x => .ok x

/-- The value of the expression that a list of tokens begins with. -/
def calculate (tokens : List Token) (declared : List Text) : Except Failure Binary64 :=
  match parse tokens declared with
  | .error e => .error e
  | .ok e => e.calculate

end LineCalc
