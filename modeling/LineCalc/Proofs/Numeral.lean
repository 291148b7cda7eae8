import Mathlib.Data.List.Forall2
import Mathlib.Data.List.TakeWhile
import LineCalc.Numeral
import LineCalc.Proofs.Token.Munch

/-!
# How numerals are written

A numeral is written with a digit for each of its digits, and a point before the fraction; there
need be no point if there is no fraction.  A text is read as the numeral that is written so, and
these texts are, as a whole, the lexemes of the two kinds of number:

    ofText? s = some n   ↔  n.Writes s                                   (ofText?_eq_some_iff)
    (ofText? s).isSome   ↔  ⟨.integer, s⟩ or ⟨.float, s⟩ is a lexeme     (isSome_ofText?_iff)
-/

namespace LineCalc.Numeral

open Text (digitValue? isDigit)
open Token (IsLexeme)

/-- The characters are digits of the given values. -/
def Digits (s : Text) (values : List Nat) : Prop :=
  List.Forall₂ (fun c d => digitValue? c = some d) s values

/-- The text is a way to write the numeral: digits, and a point and more digits unless there is no
fraction. -/
inductive Writes : Numeral → Text → Prop
  | integer {s : Text} {whole : List Nat} : s ≠ [] → Digits s whole → Writes ⟨whole, []⟩ s
  | float {s t : Text} {whole fraction : List Nat} : s ≠ [] → Digits s whole →
      Digits t fraction → Writes ⟨whole, fraction⟩ (s ++ '.' :: t)

variable {s : Text} {values : List Nat} {n : Numeral}

/-! ## Digits -/

theorem digits_iff :
    Digits s values ↔ (∀ c ∈ s, isDigit c = true) ∧ s.filterMap digitValue? = values := by
  induction s generalizing values with
  | nil => simp [Digits, List.forall₂_nil_left_iff, eq_comm (b := values)]
  | cons c s ih =>
    cases hc : digitValue? c with
    | none =>
      have hnot : ¬ Digits (c :: s) values := by
        rintro (_ | ⟨hd, -⟩)
        rw [hc] at hd
        cases hd
      simp [hnot, isDigit, hc]
    | some d =>
      have hd : isDigit c = true := by simp [isDigit, hc]
      cases values with
      | nil => simp [Digits, hc]
      | cons e values =>
        simp only [Digits] at ih
        simp [Digits, ih, hc, hd, and_left_comm]

/-- Digits alone are all whole. -/
theorem ofText?_of_digits (hne : s ≠ []) (hd : ∀ c ∈ s, isDigit c = true) :
    ofText? s = some ⟨s.filterMap digitValue?, []⟩ := by
  have hwhole : s.takeWhile isDigit = s := List.takeWhile_eq_self_iff.mpr hd
  have hrest : s.dropWhile isDigit = [] := List.dropWhile_eq_nil_iff.mpr hd
  simp [ofText?, hwhole, hrest, hne]

theorem ofText?_of_point {t : Text} (hne : s ≠ []) (hs : ∀ c ∈ s, isDigit c = true)
    (ht : ∀ c ∈ t, isDigit c = true) :
    ofText? (s ++ '.' :: t) = some ⟨s.filterMap digitValue?, t.filterMap digitValue?⟩ := by
  have hpoint := Token.not_digit_of_point t
  have hall : t.all isDigit = true := List.all_eq_true.mpr ht
  simp [ofText?, Token.takeWhile_run hs hpoint, Token.dropWhile_run hs hpoint, hne, hall]

/-! ## Numerals -/

theorem Writes.ofText? (h : n.Writes s) : ofText? s = some n := by
  cases h with
  | integer hne hd =>
    obtain ⟨hwhole, rfl⟩ := digits_iff.mp hd
    exact ofText?_of_digits hne hwhole
  | float hne hd ht =>
    obtain ⟨hwhole, rfl⟩ := digits_iff.mp hd
    obtain ⟨hfraction, rfl⟩ := digits_iff.mp ht
    exact ofText?_of_point hne hwhole hfraction

theorem writes_of_ofText? (h : ofText? s = some n) : n.Writes s := by
  have hsplit := List.takeWhile_append_dropWhile (p := isDigit) (l := s)
  have hwhole : Digits (s.takeWhile isDigit) ((s.takeWhile isDigit).filterMap digitValue?) :=
    digits_iff.mpr ⟨fun d hd => List.mem_takeWhile_imp hd, rfl⟩
  unfold Numeral.ofText? at h
  by_cases hne : s.takeWhile isDigit = []
  · simp [hne] at h
  · cases hd : s.dropWhile isDigit with
    | nil =>
      rw [hd, List.append_nil] at hsplit
      simp only [hne, hd, if_false] at h
      obtain rfl := Option.some.inj h
      rw [hsplit] at hne hwhole ⊢
      exact .integer hne hwhole
    | cons c fraction =>
      simp only [hne, hd, if_false] at h
      by_cases hc : c = '.' ∧ fraction.all isDigit = true
      · rw [if_pos hc] at h
        obtain rfl := Option.some.inj h
        obtain ⟨rfl, hall⟩ := hc
        have hfraction := digits_iff.mpr ⟨List.all_eq_true.mp hall, rfl⟩
        have hwrites := Writes.float hne hwhole hfraction
        rwa [← hd, hsplit] at hwrites
      · rw [if_neg hc] at h
        cases h

/-- A text is read as the numeral that it is a way to write. -/
theorem ofText?_eq_some_iff : ofText? s = some n ↔ n.Writes s :=
  ⟨writes_of_ofText?, Writes.ofText?⟩

theorem ofText?_eq_none_iff : ofText? s = none ↔ ∀ n : Numeral, ¬ n.Writes s := by
  simp only [← ofText?_eq_some_iff]
  exact Option.eq_none_iff_forall_ne_some

theorem Writes.isLexeme (h : n.Writes s) :
    IsLexeme ⟨.integer, s⟩ [] ∨ IsLexeme ⟨.float, s⟩ [] := by
  cases h with
  | integer hne hd => exact .inl (.integer hne (digits_iff.mp hd).1 (by simp))
  | float hne hd ht =>
    exact .inr (.float hne (digits_iff.mp hd).1 (digits_iff.mp ht).1 (by simp))

theorem exists_writes (h : IsLexeme ⟨.integer, s⟩ [] ∨ IsLexeme ⟨.float, s⟩ []) :
    ∃ n : Numeral, n.Writes s := by
  rcases h with h | h
  · cases h with
    | integer hne hd => exact ⟨_, .integer hne (digits_iff.mpr ⟨hd, rfl⟩)⟩
  · cases h with
    | float hne hw hf =>
      exact ⟨_, .float hne (digits_iff.mpr ⟨hw, rfl⟩) (digits_iff.mpr ⟨hf, rfl⟩)⟩

theorem exists_writes_iff :
    (∃ n : Numeral, n.Writes s) ↔ IsLexeme ⟨.integer, s⟩ [] ∨ IsLexeme ⟨.float, s⟩ [] :=
  ⟨fun ⟨_, h⟩ => h.isLexeme, exists_writes⟩

/-- A text is a numeral exactly if it is a number by itself. -/
theorem isSome_ofText?_iff :
    (ofText? s).isSome = true ↔ IsLexeme ⟨.integer, s⟩ [] ∨ IsLexeme ⟨.float, s⟩ [] := by
  simp only [Option.isSome_iff_exists, ofText?_eq_some_iff]
  exact exists_writes_iff

end LineCalc.Numeral
