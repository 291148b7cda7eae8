import LineCalc.Console
import LineCalc.Samples

/-!
# Command line

Without arguments the calculator prompts for a line and reports on it; `samples` prints the reports
on the samples.
-/

open LineCalc in
def main (args : List String) : IO Unit := do
  if args = ["samples"] then
    IO.print (String.ofList Samples.transcript)
  else
    IO.println (String.ofList Console.prompt)
    let input ← (← IO.getStdin).getLine
    IO.println (String.ofList (Console.answer input.toList))
