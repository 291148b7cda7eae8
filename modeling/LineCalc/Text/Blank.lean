import LineCalc.Text.Basic

/-!
# Blanks

The characters that separate lexemes and are otherwise ignored: the white space of Unicode and the
four ASCII separators U+001C to U+001F.  Every character at which a text breaks into lines is one
of them (`isBlank_of_mem_lineBreaks`).
-/

namespace LineCalc.Text

/-- The code points of the blanks. -/
def blanks : Intervals :=
  [(0x9, 0xD), (0x1C, 0x20), (0x85, 0x85), (0xA0, 0xA0), (0x1680, 0x1680), (0x2000, 0x200A),
    (0x2028, 0x2029), (0x202F, 0x202F), (0x205F, 0x205F), (0x3000, 0x3000)]

def isBlank (c : Char) : Bool := blanks.contains c.toNat

/-- The characters that end a line where a text is shown: line feed, vertical tab, form feed,
carriage return, the file, group and record separators, next line, and the line and paragraph
separators. -/
def lineBreaks : Text :=
  ['\n', '\x0b', '\x0c', '\r', '\x1c', '\x1d', '\x1e', '\u0085', '\u2028', '\u2029']

theorem isBlank_of_mem_lineBreaks {c : Char} (h : c ∈ lineBreaks) : isBlank c = true := by
  have all : lineBreaks.all isBlank = true := by decide
  exact List.all_eq_true.mp all c h

end LineCalc.Text
