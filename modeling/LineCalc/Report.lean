import LineCalc.Calculation
import LineCalc.Display
import LineCalc.Expr.Outline

/-!
# Reports

The report on a line has a section for its tokens, a section for its tree if there is one, and a
last line with the value or the first failure.
-/

namespace LineCalc.Report

def tokensHeader : Text := "Tokens:".toList

def treeHeader : Text := "Abstract Syntax Tree (AST):".toList

def resultMark : Text := "Final Output: User, your final output is: ".toList

def errorMark : Text := "Error: ".toList

/-- The last line where something failed. -/
def failureLine (e : Failure) : Text := errorMark ++ e.message

/-- The last line where there is a tree. -/
def resultLine : Except Failure Binary64 → Text
  | .ok x => resultMark ++ x.display
  | .error e => failureLine e

/-- The lines behind the tokens. -/
def outcomeLines : Except Failure Expr → List Text
  | .error e => [failureLine e]
  | .ok e => treeHeader :: (e.outline ++ [[], resultLine e.calculate])

/-- The lines of the report on a line, where the given names are declared. -/
def lines (line : Text) (declared : List Text) : List Text :=
  tokensHeader ::
    ((Token.ofLine line).map Token.line ++ [] :: outcomeLines (parse (Token.ofLine line) declared))

/-- The report, its lines separated by line feeds. -/
def run (line : Text) (declared : List Text) : Text :=
  ['\n'].intercalate (lines line declared)

end LineCalc.Report
