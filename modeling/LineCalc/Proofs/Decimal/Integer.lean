import Mathlib.Data.Nat.Digits.Lemmas
import LineCalc.Display
import LineCalc.Proofs.Binary64.Denotation
import LineCalc.Proofs.Numeral

/-!
# Integers in decimal

A text of decimal digits is read as the natural number that it denotes, zeros in front of it or
not, and an integer is shown with no zero in front, behind a minus sign exactly if it is negative:

    s.natural? = some n → ofText? s denotes n                 (exists_ofText?_of_natural?)
    s.DecimalOf i ↔ s = integerText i                         (decimalOf_iff)
    x.Denotes i → |i| < 10 ^ 16 → x.display = integerText i   (Denotes.display)
-/

namespace LineCalc

/-! ## Reading -/

/-- The natural number that a text of decimal digits denotes, of whatever scripts they are. -/
def Text.natural? (s : Text) : Option Nat :=
  if s ≠ [] ∧ s.all isDigit then some (Nat.ofDigits 10 (s.filterMap digitValue?).reverse) else none

namespace Numeral

theorem ofDigits_eq (digits : List Nat) : ofDigits digits = Nat.ofDigits 10 digits.reverse := by
  rw [Nat.ofDigits_eq_foldr, List.foldr_reverse, ofDigits]
  congr 1
  funext n d
  exact Nat.add_comm _ _

theorem exists_ofText?_of_natural? {s : Text} {n : Nat} (h : s.natural? = some n) :
    ∃ m, ofText? s = some m ∧ m.toRat = n := by
  unfold Text.natural? at h
  split at h
  · rename_i hs
    refine ⟨_, ofText?_of_digits hs.1 (List.all_eq_true.mp hs.2), ?_⟩
    rw [toRat, List.append_nil, ofDigits_eq, Option.some.inj h, Rat.mkRat_eq_div]
    simp
  · cases h

end Numeral

/-! ## Writing -/

namespace Text

/-- The digits denote `n`, and the first of them is zero only if it is the only one. -/
structure DigitsOf (digits : List Nat) (n : Nat) : Prop where
  ne_nil : digits ≠ []
  lt_ten : ∀ d ∈ digits, d < 10
  first : digits.head? = some 0 → digits = [0]
  value : Nat.ofDigits 10 digits.reverse = n

/-- The text is the decimal of the integer: its digits, behind a minus sign if it is negative. -/
def DecimalOf (s : Text) (i : Int) : Prop :=
  ∃ digits, DigitsOf digits i.natAbs ∧
    s = (if i < 0 then ['-'] else []) ++ digits.map Nat.digitChar

/-- The digits of a number, first digit first. -/
def digitsOf (n : Nat) : List Nat := if n = 0 then [0] else (Nat.digits 10 n).reverse

theorem digitsOf_of_pos {n : Nat} (h : 0 < n) : digitsOf n = (Nat.digits 10 n).reverse :=
  if_neg h.ne'

theorem digitsOf_spec (n : Nat) : DigitsOf (digitsOf n) n := by
  rcases Nat.eq_zero_or_pos n with rfl | hn
  · exact ⟨by decide, by decide, fun _ => rfl, by decide⟩
  · have hne : Nat.digits 10 n ≠ [] := Nat.digits_ne_nil_iff_ne_zero.mpr hn.ne'
    rw [digitsOf_of_pos hn]
    refine ⟨List.reverse_ne_nil_iff.mpr hne, fun d hd => ?_, fun hfirst => ?_, ?_⟩
    · exact Nat.digits_lt_base (by decide) (List.mem_reverse.mp hd)
    · rw [List.head?_reverse, List.getLast?_eq_some_getLast hne] at hfirst
      exact absurd (Option.some.inj hfirst) (Nat.getLast_digit_ne_zero 10 hn.ne')
    · rw [List.reverse_reverse, Nat.ofDigits_digits]

/-- No other digits denote the number in that way. -/
theorem DigitsOf.eq {digits : List Nat} {n : Nat} (h : DigitsOf digits n) :
    digits = digitsOf n := by
  obtain ⟨hne, hlt, hfirst, rfl⟩ := h
  by_cases hzero : digits.head? = some 0
  · rw [hfirst hzero]
    rfl
  · have hlast (hr : digits.reverse ≠ []) : digits.reverse.getLast hr ≠ 0 := by
      intro h0
      rw [← List.getLast?_reverse, List.getLast?_eq_some_getLast hr, h0] at hzero
      exact hzero rfl
    have hdigits : Nat.digits 10 (Nat.ofDigits 10 digits.reverse) = digits.reverse :=
      Nat.digits_ofDigits 10 (by decide) _ (fun d hd => hlt d (List.mem_reverse.mp hd)) hlast
    have hpos : Nat.ofDigits 10 digits.reverse ≠ 0 := by
      rw [← Nat.digits_ne_nil_iff_ne_zero (b := 10), hdigits]
      exact List.reverse_ne_nil_iff.mpr hne
    rw [digitsOf_of_pos (Nat.pos_of_ne_zero hpos), hdigits, List.reverse_reverse]

theorem toDigits_eq (n : Nat) : Nat.toDigits 10 n = (digitsOf n).map Nat.digitChar := by
  induction n using Nat.strong_induction_on with
  | h n ih =>
    rw [Nat.toDigits_eq_if (by decide)]
    split
    · rename_i hlt
      rcases Nat.eq_zero_or_pos n with rfl | hn
      · rfl
      · rw [digitsOf_of_pos hn, Nat.digits_of_lt 10 n hn.ne' hlt]
        rfl
    · rename_i hle
      have hn : 0 < n := by omega
      rw [ih (n / 10) (by omega), digitsOf_of_pos (by omega), digitsOf_of_pos hn,
        Nat.digits_def' (by decide) hn, List.reverse_cons, List.map_append]
      rfl

end Text

namespace Binary64

/-- An integer has one decimal, which is its text. -/
theorem decimalOf_iff {s : Text} {i : Int} : s.DecimalOf i ↔ s = integerText i := by
  have hsign : signText (i < 0) = if i < 0 then ['-'] else [] := by
    unfold signText
    simp only [decide_eq_true_eq]
  rw [integerText, hsign, Text.toDigits_eq]
  constructor
  · rintro ⟨digits, hdigits, rfl⟩
    rw [hdigits.eq]
  · rintro rfl
    exact ⟨_, Text.digitsOf_spec _, rfl⟩

/-- A number that stands for an integer below `10 ^ 16` is shown as that integer, a zero of either
sign as zero. -/
theorem Denotes.display {x : Binary64} {i : Int} (h : x.Denotes i) (hi : i.natAbs < 10 ^ 16) :
    x.display = integerText i := by
  obtain ⟨z, rfl, hz⟩ := h
  rw [Binary64.display, hz, Rat.den_intCast, Rat.num_intCast, if_pos ⟨rfl, hi⟩]

end Binary64

end LineCalc
