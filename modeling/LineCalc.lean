import LineCalc.Text.Basic
import LineCalc.Text.Blank
import LineCalc.Text.Digit
import LineCalc.Text.Letter
import LineCalc.Text.Printable
import LineCalc.Text.Quoted
import LineCalc.Grid
import LineCalc.Binary64.Basic
import LineCalc.Binary64.Rounding
import LineCalc.Binary64.Arithmetic
import LineCalc.Binary64.Bits
import LineCalc.Decimal.Basic
import LineCalc.Decimal.Shortest
import LineCalc.Decimal.Layout
import LineCalc.Display
import LineCalc.Numeral
import LineCalc.Token.Label
import LineCalc.Token.Basic
import LineCalc.Token.Lexeme
import LineCalc.Token.Cut
import LineCalc.Expr.Basic
import LineCalc.Expr.Context
import LineCalc.Expr.Outline
import LineCalc.Expr.Value
import LineCalc.Names.Basic
import LineCalc.Names.Registry
import LineCalc.Grammar
import LineCalc.Parse.Cursor
import LineCalc.Parse.Basic
import LineCalc.Parse.Session
import LineCalc.Failure
import LineCalc.Calculation
import LineCalc.Report
import LineCalc.Console
import LineCalc.Samples
import LineCalc.Main
import LineCalc.Proofs.Calculation
import LineCalc.Proofs.Parse.Taking
import LineCalc.Proofs.Parse.Derivation
import LineCalc.Proofs.Parse.Reading
import LineCalc.Proofs.Parse.Earliest
import LineCalc.Proofs.Text.Classes
import LineCalc.Proofs.Token.Munch
import LineCalc.Proofs.Spelling
import LineCalc.Proofs.Parse.Declared
import LineCalc.Proofs.Parse.Shift
import LineCalc.Proofs.Expr.Context
import LineCalc.Proofs.Parse.Substitution
import LineCalc.Proofs.Parse.Nesting
import LineCalc.Proofs.Grid
import LineCalc.Proofs.Binary64.Rounding
import LineCalc.Proofs.Binary64.Denotation
import LineCalc.Proofs.Binary64.Arithmetic
import LineCalc.Proofs.Decimal.Integer
import LineCalc.Proofs.Expr.Integers
import LineCalc.Proofs.Session
import LineCalc.Proofs.Session.Progress
import LineCalc.Proofs.Expr.Fault
import LineCalc.Proofs.Text.Lines
import LineCalc.Proofs.Text.Quoted
import LineCalc.Proofs.Display
import LineCalc.Proofs.Expr.Outline
import LineCalc.Proofs.Report
import LineCalc.Proofs.Parse.Ending
import LineCalc.Proofs.Session.Ending
import LineCalc.Proofs.Console
import LineCalc.Proofs.Names.History
import LineCalc.Proofs.Expr.Evaluation
import LineCalc.Proofs.Expr.Machine
import LineCalc.Proofs.Expr.Walk
import LineCalc.Proofs.Token.Border
import LineCalc.Proofs.Expr.Number
import LineCalc.Proofs.Expr.Parentheses
import LineCalc.Proofs.Parse.Unclosed
import LineCalc.Proofs.Binary64.Nearest
import LineCalc.Proofs.Decimal.Fraction
import LineCalc.Proofs.Expr.Nearest
import LineCalc.Proofs.Decimal.Shortest
import LineCalc.Proofs.Decimal.Layout
import LineCalc.Proofs.Display.Reading
import LineCalc.Proofs.Display.RoundTrip
import LineCalc.Proofs.Binary64.Interval
import LineCalc.Proofs.Token.Label
import LineCalc.Proofs.Failure
import LineCalc.Proofs.Decimal.Fewest
import LineCalc.Proofs.Display.Shortest
