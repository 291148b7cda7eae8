import LineCalc.Report

/-!
# Samples

Some lines with declared names, and the reports on them.
-/

namespace LineCalc.Samples

/-- A line, and the names that are declared for it. -/
structure Sample where
  line : Text
  declared : List Text

def all : List Sample :=
  [⟨"5".toList, []⟩,
    ⟨"12.34".toList, []⟩,
    ⟨"12.".toList, []⟩,
    ⟨"1 + 1".toList, []⟩,
    ⟨"4 + 6 * 3".toList, []⟩,
    ⟨"(4 + 6)".toList, []⟩,
    ⟨"(4+6) * 3".toList, []⟩,
    ⟨"7/6/2000".toList, []⟩,
    ⟨"10 / 5/ 2".toList, []⟩,
    ⟨"5/0".toList, []⟩,
    ⟨"(1+2".toList, []⟩,
    ⟨")".toList, []⟩,
    ⟨"-1".toList, []⟩,
    ⟨".5".toList, []⟩,
    ⟨"x + 1".toList, []⟩,
    ⟨"x + 1".toList, ["x".toList]⟩,
    ⟨"1 2".toList, []⟩,
    ⟨"a = 1".toList, []⟩]

/-- Names, quoted, between brackets. -/
def nameList (names : List Text) : Text :=
  '[' :: ([',', ' '].intercalate (names.map Text.quote) ++ [']'])

def rule : Text := List.replicate 10 '='

def heading (s : Sample) : Text :=
  "code: ".toList ++ Text.quote s.line ++ ", declared: ".toList ++ nameList s.declared

/-- The reports on all samples, each behind a rule and a heading. -/
def transcript : Text :=
  (all.flatMap fun s => [rule, heading s, Report.run s.line s.declared]).flatMap (· ++ ['\n'])

end LineCalc.Samples
