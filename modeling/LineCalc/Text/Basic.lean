/-!
# Text

A text is a list of characters, so that reading it is recursion on its first character.  Nothing
is normalised: two texts are equal exactly when they have the same characters.

A property of characters that a standard fixes by a table is a list of intervals of code points.

    n ∈ intervals  ⟸  contains intervals n      (exists_of_contains)
-/

namespace LineCalc

/-- The characters of a line, a name or a message, first to last. -/
abbrev Text := List Char

namespace Text

/-- Closed intervals of code points, in ascending order. -/
abbrev Intervals := List (Nat × Nat)

/-- Whether `n` lies in one of the intervals.  The search ends at the first interval above `n`. -/
def Intervals.contains : Intervals → Nat → Bool
  | [], _ => false
  | (lo, hi) :: rest, n => if n < lo then false else n ≤ hi || Intervals.contains rest n

theorem Intervals.exists_of_contains {intervals : Intervals} {n : Nat}
    (h : intervals.contains n = true) : ∃ i ∈ intervals, i.1 ≤ n ∧ n ≤ i.2 := by
  induction intervals with
  | nil => simp [contains] at h
  | cons i rest ih =>
    obtain ⟨lo, hi⟩ := i
    rw [contains] at h
    split at h
    · cases h
    · rename_i hlo
      rcases Bool.or_eq_true_iff.mp h with hn | hr
      · exact ⟨_, List.mem_cons_self, Nat.le_of_not_lt hlo, of_decide_eq_true hn⟩
      · obtain ⟨i, hi, hb⟩ := ih hr
        exact ⟨i, List.mem_cons_of_mem _ hi, hb⟩

end Text

end LineCalc
