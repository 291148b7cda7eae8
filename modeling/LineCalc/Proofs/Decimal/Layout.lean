import LineCalc.Decimal.Layout
import LineCalc.Proofs.Decimal.Fraction

/-!
# Written decimals

A number is written as a numeral, which may be followed by a power of ten: an `e`, a sign, and one
or more digits.  However a decimal is laid out, what stands there is a number in this sense, and it
is the decimal; where it is laid out positionally, it is a numeral:

    (l.write d).MagnitudeOf d.toRat                                    (Layout.magnitudeOf_write)
    l.plainFrom ≤ d.leading → d.leading < l.plainBelow → ∃ n, n.Writes (l.write d)
                                                                       (Layout.exists_writes)
-/

namespace LineCalc

open Text (digitValue?)
open Numeral (Digits ofDigits)

/-- The text is a way to write the magnitude: a numeral alone, or times a power of ten. -/
inductive Text.MagnitudeOf : Text → Rat → Prop
  | numeral {n : Numeral} {s : Text} : n.Writes s → MagnitudeOf s n.toRat
  | raised {n : Numeral} {s t : Text} {values : List Nat} : n.Writes s → t ≠ [] →
      Digits t values → MagnitudeOf (s ++ 'e' :: '+' :: t) (n.toRat * 10 ^ (ofDigits values : Int))
  | lowered {n : Numeral} {s t : Text} {values : List Nat} : n.Writes s → t ≠ [] →
      Digits t values →
      MagnitudeOf (s ++ 'e' :: '-' :: t) (n.toRat * 10 ^ (-(ofDigits values : Int)))

/-! ## Digits -/

namespace Numeral

variable {s t : Text} {values others : List Nat}

theorem digits_append (hs : Digits s values) (ht : Digits t others) :
    Digits (s ++ t) (values ++ others) := List.rel_append hs ht

theorem digits_zeros (k : Nat) : Digits (List.replicate k '0') (List.replicate k 0) := by
  induction k with
  | zero => exact .nil
  | succ k ih => exact .cons rfl ih

end Numeral

theorem Text.digitValue?_digitChar {d : Nat} (h : d < 10) :
    digitValue? (Nat.digitChar d) = some d := by
  have all : ∀ d < 10, digitValue? (Nat.digitChar d) = some d := by decide
  exact all d h

theorem Text.digits_toDigits (n : Nat) : Digits (Nat.toDigits 10 n) (digitsOf n) := by
  rw [toDigits_eq, Digits, List.forall₂_map_left_iff]
  exact List.forall₂_same.mpr fun d hd => digitValue?_digitChar ((digitsOf_spec n).lt_ten d hd)

theorem Numeral.ofDigits_digitsOf (n : Nat) : ofDigits (Text.digitsOf n) = n := by
  rw [ofDigits_eq, (Text.digitsOf_spec n).value]

/-! ## Positions of the point -/

namespace Decimal

/-- Digits with the point before digit number `point`, wherever that is. -/
theorem exists_writes_positional {s : Text} {values : List Nat} (h : Digits s values)
    (hs : s ≠ []) (point : Int) :
    ∃ n : Numeral, n.Writes (positional s point) ∧
      n.toRat = toRat ⟨ofDigits values, point - s.length⟩ := by
  have hlength : s.length = values.length := h.length_eq
  have hpositive := List.length_pos_iff.mpr hs
  unfold positional
  split
  · -- zeros between the point and the digits
    refine ⟨⟨[0], List.replicate (-point).toNat 0 ++ values⟩, ?_, ?_⟩
    · have hfraction := Numeral.digits_append (Numeral.digits_zeros (-point).toNat) h
      have hwrites := Numeral.Writes.float (by simp) (Numeral.digits_zeros 1) hfraction
      simpa using hwrites
    · have hdigits : ofDigits ([0] ++ (List.replicate (-point).toNat 0 ++ values)) =
          ofDigits values := by
        rw [← Numeral.ofDigits_zeros_append ((-point).toNat + 1) values, ← List.append_assoc]
        rfl
      rw [Numeral.toRat_eq_decimal, hdigits]
      congr 2
      simp only [List.length_append, List.length_replicate]
      omega
  · split
    · -- the point among the digits
      refine ⟨⟨values.take point.toNat, values.drop point.toNat⟩, ?_, ?_⟩
      · refine .float ?_ (List.forall₂_take _ h) (List.forall₂_drop _ h)
        simp only [ne_eq, List.take_eq_nil_iff, hs, or_false]
        omega
      · rw [Numeral.toRat_eq_decimal, List.take_append_drop]
        congr 2
        simp only [List.length_drop]
        omega
    · -- zeros between the digits and the point
      have hwhole := Numeral.digits_append h (Numeral.digits_zeros (point.toNat - s.length))
      refine ⟨⟨values ++ List.replicate (point.toNat - s.length) 0, [0]⟩,
        .float (by simp [hs]) hwhole (Numeral.digits_zeros 1), ?_⟩
      have hdigits : ofDigits (values ++ List.replicate (point.toNat - s.length) 0 ++ [0]) =
          ofDigits values * 10 ^ (point.toNat - s.length + 1) := by
        rw [← Numeral.ofDigits_append_zeros, List.append_assoc, ← List.replicate_succ']
      have hexponent : point - s.length = (point.toNat - s.length : Nat) := by omega
      rw [Numeral.toRat_eq_decimal, hdigits, toRat_eq, toRat_eq, hexponent, zpow_natCast,
        List.length_singleton, Nat.cast_one, zpow_neg_one, Nat.cast_mul, Nat.cast_pow,
        Nat.cast_ofNat, pow_succ]
      field_simp

/-! ## Exponents -/

/-- A point among the digits stands behind the first one. -/
theorem writes_mantissa {s : Text} {values : List Nat} (h : Digits s values) (hs : s ≠ []) :
    Numeral.Writes ⟨values.take 1, values.drop 1⟩
      (s.take 1 ++ if s.length ≤ 1 then [] else '.' :: s.drop 1) := by
  have htake : s.take 1 ≠ [] := by simpa using hs
  have hwhole : Digits (s.take 1) (values.take 1) := List.forall₂_take _ h
  split
  · rename_i hle
    rw [List.drop_eq_nil_iff.mpr (h.length_eq ▸ hle), List.append_nil]
    exact .integer htake hwhole
  · exact .float htake hwhole (List.forall₂_drop _ h)

theorem toRat_mantissa {s : Text} {values : List Nat} (h : Digits s values) (hs : s ≠ [])
    (e : Int) :
    Numeral.toRat ⟨values.take 1, values.drop 1⟩ * (10 : Rat) ^ e =
      toRat ⟨ofDigits values, e + 1 - s.length⟩ := by
  have hlength : s.length = values.length := h.length_eq
  have hpositive := List.length_pos_iff.mpr hs
  have hexponent : e + 1 - s.length = -((values.drop 1).length : Int) + e := by
    rw [List.length_drop]
    omega
  rw [Numeral.toRat_eq_decimal, List.take_append_drop, toRat_eq, toRat_eq, hexponent,
    zpow_add₀ (by decide), mul_assoc]

/-- Digits with an exponent for the first of them. -/
theorem magnitudeOf_exponential {s : Text} {values : List Nat} (h : Digits s values)
    (hs : s ≠ []) (width : Nat) (e : Int) :
    (exponential width s e).MagnitudeOf (toRat ⟨ofDigits values, e + 1 - s.length⟩) := by
  have hmantissa := writes_mantissa h hs
  have hdigits := Numeral.digits_append
    (Numeral.digits_zeros (width - (Nat.toDigits 10 e.natAbs).length))
    (Text.digits_toDigits e.natAbs)
  have hne : List.replicate (width - (Nat.toDigits 10 e.natAbs).length) '0' ++
      Nat.toDigits 10 e.natAbs ≠ [] := by
    simp
  rw [← toRat_mantissa h hs]
  unfold exponential
  by_cases he : e < 0
  · have hlowered := Text.MagnitudeOf.lowered hmantissa hne hdigits
    rw [Numeral.ofDigits_zeros_append, Numeral.ofDigits_digitsOf,
      show -(e.natAbs : Int) = e by omega] at hlowered
    simpa [he] using hlowered
  · have hraised := Text.MagnitudeOf.raised hmantissa hne hdigits
    rw [Numeral.ofDigits_zeros_append, Numeral.ofDigits_digitsOf,
      show (e.natAbs : Int) = e by omega] at hraised
    simpa [he] using hraised

/-! ## Layouts -/

variable {l : Layout} {d : Decimal}

theorem toRat_digits (d : Decimal) :
    toRat ⟨ofDigits (Text.digitsOf d.coefficient), d.leading + 1 - d.digits.length⟩ = d.toRat := by
  rw [Numeral.ofDigits_digitsOf, leading, show
    d.exponent + d.digits.length - 1 + 1 - d.digits.length = d.exponent by omega]

/-- What is laid out positionally is a numeral. -/
theorem Layout.exists_writes (hfrom : l.plainFrom ≤ d.leading) (hbelow : d.leading < l.plainBelow) :
    ∃ n : Numeral, n.Writes (l.write d) ∧ n.toRat = d.toRat := by
  rw [write, if_pos ⟨hfrom, hbelow⟩, ← toRat_digits]
  exact exists_writes_positional (Text.digits_toDigits _) Nat.toDigits_ne_nil _

/-- **Written decimals.**  In every layout a decimal is written as the number that it is. -/
theorem Layout.magnitudeOf_write (l : Layout) (d : Decimal) :
    (l.write d).MagnitudeOf d.toRat := by
  by_cases h : l.plainFrom ≤ d.leading ∧ d.leading < l.plainBelow
  · obtain ⟨n, hwrites, hrat⟩ := l.exists_writes h.1 h.2
    exact hrat ▸ .numeral hwrites
  · rw [write, if_neg h, ← toRat_digits]
    exact magnitudeOf_exponential (Text.digits_toDigits _) Nat.toDigits_ne_nil _ _

end Decimal

end LineCalc
