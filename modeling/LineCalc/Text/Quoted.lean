import LineCalc.Text.Printable

/-!
# Quoted text

How a message shows a name or a numeral: between quote marks, on one line, every character
printable.  The mark is `'`, or `"` when the text holds `'` and no `"`.  The mark in use and the
backslash are written after a backslash, line feed, carriage return and tab as `\n`, `\r`, `\t`,
and any other unprintable character as `\x`, `\u` or `\U` with two, four or eight lower-case
hexadecimal digits, the fewest that suffice.

`quote` writes that form and `unquote?` reads it.
-/

namespace LineCalc.Text

/-! ## Writing -/

/-- The last `width` hexadecimal digits of `n`. -/
def hexDigits : Nat → Nat → Text
  | 0, _ => []
  | width + 1, n => hexDigits width (n / 16) ++ [Nat.digitChar (n % 16)]

/-- The shortest numbered escape of a character. -/
def hexEscape (c : Char) : Text :=
  if c.toNat < 0x100 then '\\' :: 'x' :: hexDigits 2 c.toNat
  else if c.toNat < 0x10000 then '\\' :: 'u' :: hexDigits 4 c.toNat
  else '\\' :: 'U' :: hexDigits 8 c.toNat

/-- One character as it stands between two quote marks `mark`. -/
def escape (mark c : Char) : Text :=
  if c = mark ∨ c = '\\' then ['\\', c]
  else if c = '\n' then ['\\', 'n']
  else if c = '\r' then ['\\', 'r']
  else if c = '\t' then ['\\', 't']
  else if isPrintable c then [c]
  else hexEscape c

/-- The mark around a text. -/
def quoteMark (s : Text) : Char := if '\'' ∈ s ∧ '"' ∉ s then '"' else '\''

/-- The text between quote marks, with its escapes. -/
def quote (s : Text) : Text :=
  quoteMark s :: (s.flatMap (escape (quoteMark s)) ++ [quoteMark s])

/-! ## Reading -/

/-- The value of a lower-case hexadecimal digit. -/
def hexValue? (c : Char) : Option Nat :=
  if '0' ≤ c ∧ c ≤ '9' then some (c.toNat - '0'.toNat)
  else if 'a' ≤ c ∧ c ≤ 'f' then some (c.toNat - 'a'.toNat + 10)
  else none

/-- Where a reader of quoted text stands. -/
inductive Reading
  /-- Between two escapes. -/
  | plain
  /-- Behind a backslash. -/
  | escaped
  /-- Inside a numbered escape: so many digits are to come, and those read have this value. -/
  | numbered (digits value : Nat)

/-- Reads up to the closing mark, which ends the text. -/
def unescape? (mark : Char) : Reading → Text → Option Text
  | _, [] => none
  | .plain, c :: rest =>
    if c = mark then (if rest = [] then some [] else none)
    else if c = '\\' then unescape? mark .escaped rest
    else (unescape? mark .plain rest).map (c :: ·)
  | .escaped, c :: rest =>
    match c with
    | 'n' => (unescape? mark .plain rest).map ('\n' :: ·)
    | 'r' => (unescape? mark .plain rest).map ('\r' :: ·)
    | 't' => (unescape? mark .plain rest).map ('\t' :: ·)
    | 'x' => unescape? mark (.numbered 2 0) rest
    | 'u' => unescape? mark (.numbered 4 0) rest
    | 'U' => unescape? mark (.numbered 8 0) rest
    | c => (unescape? mark .plain rest).map (c :: ·)
  | .numbered digits value, c :: rest =>
    match hexValue? c with
    | none => none
    | some d =>
      if digits ≤ 1 then (unescape? mark .plain rest).map (Char.ofNat (16 * value + d) :: ·)
      else unescape? mark (.numbered (digits - 1) (16 * value + d)) rest

/-- The text that a quoted form stands for. -/
def unquote? : Text → Option Text
  | [] => none
  | mark :: rest => unescape? mark .plain rest

end LineCalc.Text
