import LineCalc.Text.Basic

/-!
# Labels

A name in capitals, its words joined by underscores, is shown by its words run together, each with
a capital first letter: `END_OF_INPUT` is shown as `EndOfInput`.  Names are ASCII.

`ofName` makes the label word by word and `spell` character by character; `toName` finds the words
of a label by their capitals.
-/

namespace LineCalc.Label

/-- The first letter in upper case and the others in lower case. -/
def capitalize : Text → Text
  | [] => []
  | c :: rest => c.toUpper :: rest.map Char.toLower

/-- The words of a name; an underscore at either end, or next to another, bounds an empty one. -/
def words (name : Text) : List Text := name.splitOn '_'

def ofName (name : Text) : Text := (words name).flatMap capitalize

/-- The label from one character to the next, `atStart` telling whether a word begins here. -/
def spell (atStart : Bool) : Text → Text
  | [] => []
  | c :: rest =>
    if c = '_' then spell true rest
    else (if atStart then c.toUpper else c.toLower) :: spell false rest

/-- The name that has a label, if its words are made of letters. -/
def toName : Text → Text
  | [] => []
  | c :: rest => c :: rest.flatMap fun d => if d.isUpper then ['_', d] else [d.toUpper]

end LineCalc.Label
