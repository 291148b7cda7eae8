import LineCalc.Proofs.Decimal.Layout

/-!
# Reading results

The text of a finite result is read as the number that it is a way to write, and what is no such
text is not read as anything:

    readMagnitude? s = some r  ↔  s.MagnitudeOf r                   (readMagnitude?_eq_some_iff)
    readDisplay? s = some r    ↔  s.NumberOf r                      (readDisplay?_eq_some_iff)
-/

namespace LineCalc

open Text (digitValue? isDigit)
open Numeral (Digits ofDigits)

/-- The text is a way to write the number: its magnitude, behind a minus sign or not. -/
inductive Text.NumberOf : Text → Rat → Prop
  | unsigned {s : Text} {r : Rat} : s.MagnitudeOf r → NumberOf s r
  | negated {s : Text} {r : Rat} : s.MagnitudeOf r → NumberOf ('-' :: s) (-r)

/-! ## Numerals -/

namespace Numeral

variable {n : Numeral} {s t : Text} {values : List Nat}

theorem Digits.isDigit (h : Digits s values) : ∀ c ∈ s, isDigit c = true := (digits_iff.mp h).1

/-- A numeral is made of digits and points, and begins with a digit. -/
theorem Writes.eq_cons (h : n.Writes s) :
    ∃ c t, s = c :: t ∧ Text.isDigit c = true ∧ ∀ d ∈ t, Text.isDigit d = true ∨ d = '.' := by
  cases h with
  | @integer s _ hne hd =>
    obtain ⟨c, t, rfl⟩ := List.exists_cons_of_ne_nil hne
    obtain ⟨hc, ht⟩ := List.forall_mem_cons.mp hd.isDigit
    exact ⟨c, t, rfl, hc, fun d hd => .inl (ht d hd)⟩
  | @float s t _ _ hne hd hf =>
    obtain ⟨c, s, rfl⟩ := List.exists_cons_of_ne_nil hne
    obtain ⟨hc, hs⟩ := List.forall_mem_cons.mp hd.isDigit
    refine ⟨c, s ++ '.' :: t, rfl, hc, fun d hd => ?_⟩
    rcases List.mem_append.mp hd with hd | hd
    · exact .inl (hs d hd)
    · rcases List.mem_cons.mp hd with hd | hd
      · exact .inr hd
      · exact .inl (hf.isDigit d hd)

theorem Writes.ne_e (h : n.Writes s) : ∀ c ∈ s, decide (c ≠ 'e') = true := by
  have hdigit (c : Char) (hc : Text.isDigit c = true) : decide (c ≠ 'e') = true := by
    refine decide_eq_true ?_
    rintro rfl
    revert hc
    decide
  obtain ⟨c, t, rfl, hc, ht⟩ := h.eq_cons
  refine List.forall_mem_cons.mpr ⟨hdigit c hc, fun d hd => ?_⟩
  rcases ht d hd with hd | rfl
  · exact hdigit d hd
  · decide

end Numeral

/-! ## Magnitudes -/

namespace Binary64

variable {n : Numeral} {s t : Text} {values : List Nat} {r : Rat}

theorem readMagnitude?_of_writes (h : n.Writes s) : readMagnitude? s = some n.toRat := by
  have htake : s.takeWhile (· ≠ 'e') = s := List.takeWhile_eq_self_iff.mpr h.ne_e
  have hdrop : s.dropWhile (· ≠ 'e') = [] := List.dropWhile_eq_nil_iff.mpr fun c hc => by
    simpa using h.ne_e c hc
  simp only [readMagnitude?, htake, hdrop, h.ofText?]

/-- What is read behind a numeral and an `e`. -/
theorem readMagnitude?_exponent (h : n.Writes s) (hne : t ≠ []) (ht : Digits t values)
    (mark : Char) :
    readMagnitude? (s ++ 'e' :: mark :: t) =
      if mark = '+' then some (n.toRat * 10 ^ (ofDigits values : Int))
      else if mark = '-' then some (n.toRat * 10 ^ (-(ofDigits values : Int))) else none := by
  have hletter : ∀ c ∈ ('e' :: mark :: t).head?, decide (c ≠ 'e') = false := by
    rintro c ⟨⟩
    decide
  have htake : (s ++ 'e' :: mark :: t).takeWhile (· ≠ 'e') = s := Token.takeWhile_run h.ne_e hletter
  have hdrop : (s ++ 'e' :: mark :: t).dropWhile (· ≠ 'e') = 'e' :: mark :: t :=
    Token.dropWhile_run h.ne_e hletter
  obtain ⟨hall, hvalues⟩ := Numeral.digits_iff.mp ht
  have hdigits : ¬ (t = [] ∨ (!t.all isDigit) = true) := by
    simp [hne, List.all_eq_true.mpr hall]
  simp only [readMagnitude?, htake, hdrop, h.ofText?, hvalues, if_neg hdigits, Decimal.toRat_eq,
    Nat.cast_one, one_mul]

theorem readMagnitude?_of_magnitudeOf (h : s.MagnitudeOf r) : readMagnitude? s = some r := by
  cases h with
  | numeral h => exact readMagnitude?_of_writes h
  | raised h hne ht => rw [readMagnitude?_exponent h hne ht '+', if_pos rfl]
  | lowered h hne ht => rw [readMagnitude?_exponent h hne ht '-', if_neg (by decide), if_pos rfl]

theorem magnitudeOf_of_readMagnitude? (h : readMagnitude? s = some r) : s.MagnitudeOf r := by
  have hsplit := List.takeWhile_append_dropWhile (p := (· ≠ 'e')) (l := s)
  have hhead := Token.of_mem_head_dropWhile (p := (· ≠ 'e')) (s := s)
  unfold readMagnitude? at h
  split at h
  · cases h
  · rename_i n hn
    have hwrites := Numeral.writes_of_ofText? hn
    split at h
    · rename_i hnil
      rw [hnil, List.append_nil] at hsplit
      rw [hsplit] at hwrites
      obtain rfl := Option.some.inj h
      exact .numeral hwrites
    · rename_i c mark e hcons
      rw [hcons] at hsplit hhead
      obtain rfl : c = 'e' := by simpa using hhead c rfl
      dsimp only at h
      split_ifs at h with hdigits hplus hminus
      · obtain ⟨hne, hall⟩ := not_or.mp hdigits
        have ht : Digits e _ := Numeral.digits_iff.mpr ⟨by simpa using hall, rfl⟩
        obtain rfl := Option.some.inj h
        rw [← hsplit, hplus, Decimal.toRat_eq, Nat.cast_one, one_mul]
        exact .raised hwrites hne ht
      · obtain ⟨hne, hall⟩ := not_or.mp hdigits
        have ht : Digits e _ := Numeral.digits_iff.mpr ⟨by simpa using hall, rfl⟩
        obtain rfl := Option.some.inj h
        rw [← hsplit, hminus, Decimal.toRat_eq, Nat.cast_one, one_mul]
        exact .lowered hwrites hne ht
    · cases h

/-- A text without a sign is read as the magnitude that it is a way to write. -/
theorem readMagnitude?_eq_some_iff : readMagnitude? s = some r ↔ s.MagnitudeOf r :=
  ⟨magnitudeOf_of_readMagnitude?, readMagnitude?_of_magnitudeOf⟩

/-! ## Numbers -/

/-- No magnitude begins with a minus sign. -/
theorem exists_cons_of_magnitudeOf (h : s.MagnitudeOf r) : ∃ c t, s = c :: t ∧ c ≠ '-' := by
  have hdigit (c : Char) (hc : isDigit c = true) : c ≠ '-' := by
    rintro rfl
    revert hc
    decide
  cases h with
  | numeral h =>
    obtain ⟨c, t, rfl, hc, -⟩ := h.eq_cons
    exact ⟨c, t, rfl, hdigit c hc⟩
  | raised h _ _ =>
    obtain ⟨c, t, rfl, hc, -⟩ := h.eq_cons
    exact ⟨c, _, rfl, hdigit c hc⟩
  | lowered h _ _ =>
    obtain ⟨c, t, rfl, hc, -⟩ := h.eq_cons
    exact ⟨c, _, rfl, hdigit c hc⟩

/-- **Reading.**  The text of a result is read as the number that it is a way to write, and no
other text is read. -/
theorem readDisplay?_eq_some_iff : readDisplay? s = some r ↔ s.NumberOf r := by
  constructor
  · intro h
    cases s with
    | nil => cases h
    | cons c t =>
      rw [readDisplay?] at h
      split at h
      · rename_i hc
        obtain ⟨q, hq, rfl⟩ := Option.map_eq_some_iff.mp h
        exact hc ▸ .negated (readMagnitude?_eq_some_iff.mp hq)
      · exact .unsigned (readMagnitude?_eq_some_iff.mp h)
  · rintro (h | h)
    · obtain ⟨c, t, rfl, hc⟩ := exists_cons_of_magnitudeOf h
      rw [readDisplay?, if_neg hc, readMagnitude?_eq_some_iff.mpr h]
    · rw [readDisplay?, if_pos rfl, readMagnitude?_eq_some_iff.mpr h]
      rfl

end Binary64

end LineCalc
