import LineCalc.Proofs.Binary64.Interval
import LineCalc.Proofs.Decimal.Shortest
import LineCalc.Proofs.Display.Reading
import LineCalc.Proofs.Expr.Nearest
import LineCalc.Proofs.Expr.Number

/-!
# Results round trip

What is shown of a finite number is a decimal that no other number is nearest to, so reading it
gives the number back; the one thing that is not shown is the sign of zero.  From `0.0001` to below
`10 ^ 16`, and for zero, what is shown is a number of the language itself:

    ofRat z.toRat = z.shown                                          (ofRat_toRat)
    display (.finite z) is a way to write some r with ofRat r = z.shown
                                                                     (exists_numberOf_display)
    0.0001 ≤ z < 10 ^ 16 → display (.finite z) is a numeral of such a value
                                                                     (exists_writes_display)
-/

namespace LineCalc.Binary64

variable {r : Rat} {z w : Finite} {t : Text}

/-! ## All that is shown -/

/-- All of a number that is shown: zero has no sign. -/
def Finite.shown (z : Finite) : Binary64 := if z.significand = 0 then zero false else .finite z

theorem ofRat_zero : ofRat 0 = zero false := round_zero false

/-- All that is shown of a number is what its exact value is rounded to. -/
theorem ofRat_toRat (z : Finite) : ofRat z.toRat = z.shown := by
  unfold Finite.shown
  split
  · rename_i hzero
    rw [Finite.toRat_eq, Finite.magnitude_eq_zero.mpr hzero, mul_zero, ofRat_zero]
  · rename_i hne
    rw [Finite.toRat_eq, ofRat_sign_mul _ (Finite.magnitude_pos hne)]
    exact round_of_magnitude (abs_of_nonneg z.magnitude_nonneg) z.negative

/-! ## Texts -/

theorem numberOf_signText (negative : Bool) (h : t.MagnitudeOf r) :
    (signText negative ++ t).NumberOf (sign negative * r) := by
  cases negative with
  | false =>
    rw [sign_false_mul]
    exact .unsigned h
  | true =>
    rw [sign_true_mul]
    exact .negated h

/-- The decimal of a natural is a numeral. -/
theorem exists_writes_toDigits (n : Nat) :
    ∃ m : Numeral, m.Writes (Nat.toDigits 10 n) ∧ m.toRat = n := by
  refine ⟨⟨_, []⟩, .integer Nat.toDigits_ne_nil (Text.digits_toDigits n), ?_⟩
  rw [Numeral.toRat_eq, Numeral.ofDigits_digitsOf]
  simp [Numeral.ofDigits]

theorem numberOf_integerText (i : Int) : (integerText i).NumberOf i := by
  obtain ⟨m, hwrites, hrat⟩ := exists_writes_toDigits i.natAbs
  have hnumber := numberOf_signText (i < 0) (.numeral hwrites)
  have hsign := sign_mul_abs i
  rw [Rat.num_intCast, ← Int.cast_abs, Int.abs_eq_natAbs, Int.cast_natCast] at hsign
  rw [hrat, hsign] at hnumber
  exact hnumber

/-! ## Shortest decimals -/

theorem shortest_pos (h : z.significand ≠ 0) : 0 < (Decimal.shortest z).toRat :=
  (Decimal.readsBack_shortest h).pos h

theorem ofRat_shortest (h : z.significand ≠ 0) :
    ofRat (sign z.negative * (Decimal.shortest z).toRat) = .finite z := by
  rw [ofRat_sign_mul _ (shortest_pos h)]
  exact Decimal.readsBack_shortest h

theorem numberOf_shortestText (z : Finite) :
    (shortestText (.finite z)).NumberOf (sign z.negative * (Decimal.shortest z).toRat) :=
  numberOf_signText z.negative (layout.magnitudeOf_write _)

/-! ## Results -/

/-- A result is shown as an integer or by its shortest decimal, zero always as an integer. -/
theorem display_cases (z : Finite) :
    (∃ i : Int, z.toRat = i ∧ display (.finite z) = integerText i) ∨
      (z.significand ≠ 0 ∧ display (.finite z) = shortestText (.finite z)) := by
  by_cases h : z.toRat.den = 1 ∧ z.toRat.num.natAbs < 10000000000000000
  · exact .inl ⟨_, (Rat.coe_int_num_of_den_eq_one h.1).symm, if_pos h⟩
  · refine .inr ⟨fun hzero => h ?_, if_neg h⟩
    rw [Finite.toRat_eq, Finite.magnitude_eq_zero.mpr hzero, mul_zero]
    decide

/-- What is shown is rounded to all that is shown of the number. -/
theorem exists_numberOf_display (z : Finite) :
    ∃ r, (display (.finite z)).NumberOf r ∧ ofRat r = z.shown := by
  rcases display_cases z with ⟨i, hi, htext⟩ | ⟨hne, htext⟩
  · rw [htext]
    exact ⟨_, numberOf_integerText i, hi ▸ ofRat_toRat z⟩
  · rw [htext]
    refine ⟨_, numberOf_shortestText z, ?_⟩
    rw [ofRat_shortest hne, Finite.shown, if_neg hne]

theorem denotes_shown (z : Finite) : z.shown.Denotes z.toRat := by
  unfold Finite.shown
  split
  · rename_i hzero
    rw [Finite.toRat_eq, Finite.magnitude_eq_zero.mpr hzero, mul_zero]
    exact denotes_zero false
  · exact ⟨z, rfl, rfl⟩

theorem toRat_eq_of_shown_eq (h : z.shown = w.shown) : z.toRat = w.toRat := by
  obtain ⟨z', hz', hz⟩ := denotes_shown z
  obtain ⟨w', hw', hw⟩ := denotes_shown w
  obtain rfl : z' = w' := Binary64.finite.inj (hz'.symm.trans (h.trans hw'))
  rw [← hz, ← hw]

/-! ## Results that are numerals -/

/-- `10 ^ 16` is the magnitude of a number, so it is the decimal of no smaller one. -/
theorem shortest_lt (hne : z.significand ≠ 0) (h : z.magnitude < 10 ^ 16) :
    (Decimal.shortest z).toRat < 10 ^ 16 := by
  have hle : (Decimal.shortest z).toRat ≤ (10 : Rat) ^ (16 : Int) :=
    Decimal.shortest_le_zpow hne (by rwa [zpow_ofNat])
  rw [zpow_ofNat] at hle
  refine lt_of_le_of_ne hle fun heq => ?_
  have hten : |(10 : Rat) ^ 16| = Finite.magnitude ⟨false, 5000000000000000, 1, by decide⟩ := by
    rw [Finite.magnitude_eq]
    norm_num
  have hreads := Decimal.readsBack_shortest hne
  rw [Decimal.ReadsBack, heq, round_of_magnitude hten] at hreads
  rw [← Binary64.finite.inj hreads] at h
  have hlt : Finite.magnitude ⟨false, 5000000000000000, 1, by decide⟩ < 10 ^ 16 := h
  rw [← hten, abs_of_nonneg (by norm_num)] at hlt
  exact lt_irrefl _ hlt

theorem leading_shortest (hne : z.significand ≠ 0) (hlow : 1 / 10000 ≤ z.magnitude)
    (hhigh : z.magnitude < 10 ^ 16) :
    -4 ≤ (Decimal.shortest z).leading ∧ (Decimal.shortest z).leading < 16 := by
  have hpos := shortest_pos hne
  have hlow' : (10 : Rat) ^ (-4 : Int) ≤ z.magnitude := by
    norm_num at hlow ⊢
    exact hlow
  have hhigh' := shortest_lt hne hhigh
  rw [Decimal.leading_eq_log (Decimal.toRat_pos_iff.mp hpos)]
  constructor
  · refine (Int.zpow_le_iff_le_log (by decide) hpos).mp ?_
    exact_mod_cast Decimal.zpow_le_shortest hne hlow'
  · refine (Int.lt_zpow_iff_log_lt (by decide) hpos).mp ?_
    rw [zpow_ofNat, Nat.cast_ofNat]
    exact hhigh'

theorem exists_writes_display (h : z.significand = 0 ∨ 1 / 10000 ≤ z.toRat ∧ z.toRat < 10 ^ 16) :
    ∃ n : Numeral, n.Writes (display (.finite z)) ∧ ofRat n.toRat = z.shown := by
  have hnonneg : 0 ≤ z.toRat := by
    rcases h with hzero | ⟨hlow, -⟩
    · rw [Finite.toRat_eq, Finite.magnitude_eq_zero.mpr hzero, mul_zero]
    · exact le_trans (by norm_num) hlow
  rcases display_cases z with ⟨i, hi, htext⟩ | ⟨hne, htext⟩
  · have hi0 : 0 ≤ i := by
      rw [hi] at hnonneg
      exact_mod_cast hnonneg
    obtain ⟨m, hwrites, hrat⟩ := exists_writes_toDigits i.natAbs
    refine ⟨m, ?_, ?_⟩
    · rw [htext, integerText, decide_eq_false hi0.not_gt]
      exact hwrites
    · rw [hrat, ← ofRat_toRat, hi, ← Int.cast_natCast, Int.natAbs_of_nonneg hi0]
  · obtain ⟨hlow, hhigh⟩ := h.resolve_left hne
    have hmagnitude : z.toRat = z.magnitude := by rw [← z.abs_toRat, abs_of_nonneg hnonneg]
    have hsign : z.negative = false := by
      refine Bool.eq_false_iff.mpr fun hnegative => ?_
      rw [Finite.toRat_eq, hnegative, sign_true_mul] at hmagnitude
      linarith [Finite.magnitude_pos hne]
    rw [hmagnitude] at hlow hhigh
    obtain ⟨hfrom, hbelow⟩ := leading_shortest hne hlow hhigh
    obtain ⟨n, hwrites, hrat⟩ := layout.exists_writes hfrom hbelow
    refine ⟨n, ?_, ?_⟩
    · rw [htext, shortestText, hsign]
      exact hwrites
    · have hshortest := ofRat_shortest hne
      rw [hsign, sign_false_mul] at hshortest
      rw [hrat, hshortest, Finite.shown, if_neg hne]

/-- **Round trip of results.**  What is shown of a finite number is a way to write one exact number,
and that number, correctly rounded, is the one that was shown, up to the sign of zero; so two
numbers of which the same is shown are equal.  If the number is zero, or from `0.0001` to below
`10 ^ 16`, then what is shown is, to its last character, a number of the language, with that
value. -/
theorem display_round_trip (z : Finite) :
    (∃ r, (∀ q, (display (.finite z)).NumberOf q ↔ q = r) ∧
      readDisplay? (display (.finite z)) = some r ∧ Rounds r z.shown) ∧
    (∀ w : Finite, display (.finite z) = display (.finite w) → z.toRat = w.toRat) ∧
    (z.significand = 0 ∨ 1 / 10000 ≤ z.toRat ∧ z.toRat < 10 ^ 16 →
      (∀ names, ∃ c,
        (Cursor.start (Token.ofLine (display (.finite z)))).parseLevel names .expression =
          .ok (.number (display (.finite z)), c) ∧ c.AtEnd) ∧
      parse (Token.ofLine (display (.finite z))) [] = .ok (.number (display (.finite z))) ∧
      (Expr.number (display (.finite z))).evaluate = .ok z.shown) := by
  refine ⟨?_, fun w h => ?_, fun h => ?_⟩
  · obtain ⟨r, hnumber, hr⟩ := exists_numberOf_display z
    have hread := readDisplay?_eq_some_iff.mpr hnumber
    refine ⟨r, fun q => ?_, hread, rounds_iff.mpr hr⟩
    rw [← readDisplay?_eq_some_iff, hread, Option.some.injEq]
    exact eq_comm
  · obtain ⟨r, hr, hz⟩ := exists_numberOf_display z
    obtain ⟨s, hs, hw⟩ := exists_numberOf_display w
    rw [← readDisplay?_eq_some_iff] at hr hs
    rw [h, hs] at hr
    obtain rfl := Option.some.inj hr
    exact toRat_eq_of_shown_eq (hz.symm.trans hw)
  · obtain ⟨n, hwrites, hr⟩ := exists_writes_display h
    refine ⟨fun names => hwrites.exists_parseLevel names, hwrites.parse .nil, ?_⟩
    rw [Expr.evaluate_number_of_writes hwrites, hr]

/-- The text `0.1` of the number nearest to a tenth. -/
theorem display_round_trip_tenth :
    let z : Finite := ⟨false, 0x1999999999999A, -56, by decide⟩
    (z.significand = 0 ∨ 1 / 10000 ≤ z.toRat ∧ z.toRat < 10 ^ 16) ∧
      display (.finite z) = "0.1".toList ∧
      parse (Token.ofLine (display (.finite z))) [] = .ok (.number "0.1".toList) ∧
      (Expr.number (display (.finite z))).evaluate = .ok (.finite z) := by
  intro z
  have htext : display (.finite z) = "0.1".toList := by decide +kernel
  have hrange : z.significand = 0 ∨ 1 / 10000 ≤ z.toRat ∧ z.toRat < 10 ^ 16 := by decide +kernel
  obtain ⟨-, -, hlanguage⟩ := display_round_trip z
  obtain ⟨-, hparse, hvalue⟩ := hlanguage hrange
  exact ⟨hrange, htext, htext ▸ hparse, hvalue⟩

end LineCalc.Binary64
