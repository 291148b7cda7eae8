import LineCalc.Report

/-!
# The console

The calculator prompts for one line and answers with the report on it.  A line ends at a line feed
or a carriage return, and what comes behind it is not looked at.
-/

namespace LineCalc.Console

def prompt : Text := "Enter values:".toList

/-- The first line of the input, without its end. -/
def firstLine (input : Text) : Text := input.takeWhile fun c => c ≠ '\n' && c ≠ '\r'

/-- What is answered to the input. -/
def answer (input : Text) : Text := Report.run (firstLine input) []

/-- All that is printed when the input is given. -/
def transcript (input : Text) : Text := prompt ++ '\n' :: (answer input ++ ['\n'])

end LineCalc.Console
