import LineCalc.Expr.Value
import LineCalc.Parse.Basic
import LineCalc.Text.Quoted

/-!
# Failures

All that can go wrong between a line and its value, and the wording of each failure.  A name or a
numeral is quoted in a message; the text of a token or an operator is put in as it is.
-/

namespace LineCalc

def AlreadyDeclared.message (e : AlreadyDeclared) : Text :=
  "Variable ".toList ++ Text.quote e.name ++ " already declared.".toList

def ParseError.message : ParseError → Text
  | undeclared name _ => "Variable ".toList ++ Text.quote name ++ " is undeclared.".toList
  | unmatched _ => "Expected closing parenthesis".toList
  | unexpected text _ => "Unexpected token: ".toList ++ text
  | tooDeep => "Expression is nested too deeply".toList

def EvalError.message : EvalError → Text
  | malformedNumber text => "Malformed number: ".toList ++ Text.quote text
  | identifier => "Identifier evaluation not implemented.".toList
  | unknownOperator operator => "Unknown operator: ".toList ++ operator
  | divisionByZero => "Division by zero.".toList

/-- Why a line has no value. -/
inductive Failure
  | names (e : AlreadyDeclared)
  | parse (e : ParseError)
  | evaluation (e : EvalError)
  deriving DecidableEq

/-- What is said about a failure. -/
def Failure.message : Failure → Text
  | names e => e.message
  | parse e => e.message
  | evaluation e => e.message

end LineCalc
