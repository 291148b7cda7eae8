import LineCalc.Proofs.Decimal.Fewest
import LineCalc.Proofs.Display.RoundTrip

/-!
# Integers and shortest forms

A number below `10 ^ 16` without a fraction is shown as an integer, by another way than that of the
shortest decimals.  It comes to the same.  On a grid of tens or more only even integers are to be
found, and up to `10 ^ 16`, which is below `2 ^ 54`, they are all numbers themselves, so none of
them is shorter and reads back.  So the shortest decimal of an integer is the integer, without the
zeros at its end:

    x is an integer n < 10 ^ 16 → IsShortest x d → the digits of n are those of d and zeros
                                                            (IsShortest.digits_integer)
    x is not an integer → IsShortest x d → d.exponent < 0   (IsShortest.exponent_neg)
    v.ShortestForm s ↔ s = v.shortestText                   (shortestForm_iff)
    v.ShortestForm s → s ends with .0 → v is an integer below 10 ^ 16
                                                            (ShortestForm.integer_of_pointZero)
-/

namespace LineCalc

/-! ## Zeros at the end -/

namespace Text

theorem toDigits_mul_pow {n : Nat} (h : 0 < n) (k : Nat) :
    Nat.toDigits 10 (n * 10 ^ k) = Nat.toDigits 10 n ++ List.replicate k '0' := by
  induction k with
  | zero => rw [Nat.pow_zero, Nat.mul_one, List.replicate_zero, List.append_nil]
  | succ k ih =>
    have hpos : 0 < n * 10 ^ k := Nat.mul_pos h (Nat.pow_pos (by decide))
    have hzero := Nat.toDigits_append_toDigits (by decide : 1 < 10) hpos (by decide : 0 < 10)
    rw [Nat.add_zero, ih, List.append_assoc] at hzero
    rw [Nat.pow_succ, ← Nat.mul_assoc, Nat.mul_comm _ 10, ← hzero, List.replicate_succ']
    rfl

theorem getLast?_toDigits (n : Nat) :
    (Nat.toDigits 10 n).getLast? = some (Nat.digitChar (n % 10)) := by
  rw [Nat.toDigits_eq_if (by decide)]
  split
  · rename_i hlt
    rw [Nat.mod_eq_of_lt hlt]
    rfl
  · exact List.getLast?_concat

/-- The text without a `.0` at its end. -/
def withoutPointZero (s : Text) : Text :=
  if ".0".toList <:+ s then s.take (s.length - 2) else s

theorem withoutPointZero_append (s : Text) : withoutPointZero (s ++ ".0".toList) = s := by
  rw [withoutPointZero, if_pos (List.suffix_append _ _), List.length_append]
  exact List.take_left

/-- What ends with `.0` ends with a zero. -/
theorem not_pointZero_suffix_of_getLast? {s t : Text} {c : Char} (ht : t.getLast? = some c)
    (hc : c ≠ '0') : ¬ ".0".toList <:+ s ++ t := by
  rintro ⟨u, hu⟩
  have hlast := congrArg List.getLast? hu
  rw [List.getLast?_append, List.getLast?_append, ht] at hlast
  exact hc (Option.some.inj hlast).symm

/-- And has a point next to it. -/
theorem not_pointZero_suffix_append {s t : Text} (hlength : 2 ≤ t.length) (ht : '.' ∉ t) :
    ¬ ".0".toList <:+ s ++ t := fun h =>
  ht ((List.suffix_of_suffix_length_le h (List.suffix_append s t) hlength).subset (by decide))

end Text

namespace Decimal

open Binary64 (Finite Representable representable_iff)

variable {x : Finite} {d : Decimal} {n : Nat}

/-! ## Integers -/

/-- What can be represented reads back as itself only. -/
theorem ReadsBack.magnitude_eq (h : ReadsBack x d) (hd : Representable d.toRat) :
    x.magnitude = d.toRat := by
  obtain ⟨z, hz, hrat⟩ := Binary64.denotes_round hd x.negative
  obtain rfl : x = z := Binary64.finite.inj (h.symm.trans hz)
  rw [abs_of_nonneg d.toRat_nonneg, Finite.toRat_eq] at hrat
  have hsign : Binary64.sign x.negative ≠ 0 := by cases x.negative <;> decide
  exact mul_left_cancel₀ hsign hrat

theorem toRat_natCast (n : Nat) : toRat ⟨n, 0⟩ = n := by
  rw [toRat_eq, zpow_zero, mul_one]

/-- Without a fraction there is an integer. -/
theorem toRat_of_exponent_nonneg (h : 0 ≤ d.exponent) :
    d.toRat = (d.coefficient * 10 ^ d.exponent.toNat : Nat) := by
  rw [← toRat_natCast, ← sub_zero d.exponent, toRat_finer d.coefficient h]

/-- Doubles of the naturals up to `2 ^ 53` are numbers. -/
theorem representable_two_mul (h : n ≤ 2 ^ 53) : Representable (2 * n) := by
  obtain ⟨y, hy⟩ := Binary64.exists_magnitude_eq_mul_pow h (by decide : 1 ≤ 970)
  refine representable_iff.mpr ⟨y, ?_⟩
  rw [hy, pow_one, mul_comm, abs_of_nonneg (by positivity)]

/-- The shortest decimal of an integer below `10 ^ 16` is that integer. -/
theorem toRat_shortest_of_integer (hx : x.significand ≠ 0) (hn : x.magnitude = n)
    (hlt : n < 10 ^ 16) : (shortest x).toRat = n := by
  obtain ⟨d, -, h, -, -, hrat, -⟩ := exists_found_shortest hx
  rcases le_or_gt d.exponent 0 with hle | hgt
  · -- the number is on the grid, and nothing is closer
    have hpoint := (toRat_finer n hle).trans (toRat_natCast n)
    have hclosest := h.best.closest _ (readsBack_of_toRat (hpoint.trans hn.symm))
    rw [hpoint, hn, sub_self, abs_zero, abs_nonpos_iff, sub_eq_zero] at hclosest
    rw [hrat, ← hclosest]
  · -- all of the grid is even
    have hbound : (shortest x).toRat ≤ (10 : Rat) ^ (16 : Int) := by
      refine shortest_le_zpow hx ?_
      rw [hn, zpow_ofNat]
      exact_mod_cast hlt
    obtain ⟨k, hk⟩ : ∃ k : Nat, d.exponent = k + 1 := ⟨(d.exponent - 1).toNat, by omega⟩
    have heven : d.toRat = 2 * (d.coefficient * 10 ^ k * 5 : Nat) := by
      rw [toRat_eq, hk, zpow_add_one₀ (by decide), zpow_natCast]
      push_cast
      ring
    rw [hrat, heven, zpow_ofNat] at hbound
    have hhalf : d.coefficient * 10 ^ k * 5 ≤ 2 ^ 53 := by
      have hnat : 2 * (d.coefficient * 10 ^ k * 5) ≤ 10 ^ 16 := by exact_mod_cast hbound
      omega
    rw [hrat, ← h.best.readsBack.magnitude_eq (heven ▸ representable_two_mul hhalf), hn]

/-- Zeros at the end are all that the digits of an integer below `10 ^ 16` have in addition to
those of its shortest decimal. -/
theorem IsShortest.digits_integer (h : IsShortest x d) (hn : x.magnitude = n) (hlt : n < 10 ^ 16) :
    0 ≤ d.exponent ∧ Nat.toDigits 10 n = d.digits ++ List.replicate d.exponent.toNat '0' := by
  by_cases hx : x.significand = 0
  · obtain rfl := (isShortest_zero_iff hx).mp h
    obtain rfl : n = 0 := by
      rw [Finite.magnitude_eq_zero.mpr hx] at hn
      exact_mod_cast hn.symm
    decide
  · have hrat : d.toRat = n := (h.toRat_eq hx).trans (toRat_shortest_of_integer hx hn hlt)
    have hexponent := exponent_le_of_toRat_eq (h.not_dvd hx) ((toRat_natCast n).trans hrat.symm)
    have hcoefficient := toRat_pos_iff.mp (h.readsBack.pos hx)
    rw [toRat_of_exponent_nonneg hexponent, Nat.cast_inj] at hrat
    refine ⟨hexponent, ?_⟩
    rw [← hrat, Text.toDigits_mul_pow hcoefficient]
    rfl

/-- Any other number below `2 ^ 53` keeps a fraction, for between it and an integer that reads back
there would be none.  From `2 ^ 53` on all numbers are integers. -/
theorem IsShortest.exponent_neg (h : IsShortest x d) (hx : ∀ n : Nat, x.magnitude ≠ n) :
    d.exponent < 0 := by
  have hne : x.significand ≠ 0 := fun hzero =>
    hx 0 (by rw [Finite.magnitude_eq_zero.mpr hzero, Nat.cast_zero])
  have hbelow : x.magnitude < (2 ^ 53 : Nat) := by
    have hsignificand : (x.significand : Rat) < (2 ^ 53 : Nat) := by exact_mod_cast x.canonical.1
    rcases le_or_gt 0 x.exponent with hle | hlt
    · obtain ⟨k, hk⟩ := Int.eq_ofNat_of_zero_le hle
      refine absurd ?_ (hx (x.significand * 2 ^ k))
      rw [x.magnitude_eq, hk, zpow_natCast, Nat.cast_mul, Nat.cast_pow, Nat.cast_two]
    · have hplace : (2 : Rat) ^ x.exponent ≤ 1 := zpow_le_one_of_nonpos₀ (by decide) hlt.le
      rw [x.magnitude_eq]
      exact (mul_le_of_le_one_right (Nat.cast_nonneg _) hplace).trans_lt hsignificand
  by_contra hexponent
  have hrat := toRat_of_exponent_nonneg (not_lt.mp hexponent)
  generalize d.coefficient * 10 ^ d.exponent.toNat = m at hrat
  have hreads : ReadsBack x ⟨min m (2 ^ 53), 0⟩ := by
    rcases le_total m (2 ^ 53) with hle | hge
    · rw [ReadsBack, min_eq_left hle, toRat_natCast, ← hrat]
      exact h.readsBack
    · rw [min_eq_right hge]
      refine h.readsBack.of_ge hne ?_ ?_
      · rw [toRat_natCast, hrat]
        exact_mod_cast hge
      · rw [toRat_natCast]
        exact hbelow.le
  refine hx (min m (2 ^ 53)) ((hreads.magnitude_eq ?_).trans (toRat_natCast _))
  obtain ⟨y, hy⟩ := Binary64.exists_magnitude_eq (min_le_right m (2 ^ 53))
  refine representable_iff.mpr ⟨y, ?_⟩
  rw [toRat_natCast, hy, abs_of_nonneg (Nat.cast_nonneg _)]

/-- From `10 ^ 16` on the first digit has an exponent of `16` or more. -/
theorem IsShortest.magnitude_lt (h : IsShortest x d) (hto : d.leading ≤ 15) :
    x.magnitude < 10 ^ 16 := by
  by_contra hge
  have hle : (10 : Rat) ^ (16 : Int) ≤ x.magnitude := by rwa [zpow_ofNat, ← not_lt]
  have hx : x.significand ≠ 0 := fun hzero => by
    rw [Finite.magnitude_eq_zero.mpr hzero] at hge
    exact hge (by positivity)
  have hpos := h.readsBack.pos hx
  have hrat : (10 : Rat) ^ (16 : Int) ≤ d.toRat := h.toRat_eq hx ▸ zpow_le_shortest hx hle
  have hlog : 16 ≤ Int.log 10 d.toRat := (Int.zpow_le_iff_le_log (by decide) hpos).mp hrat
  rw [← leading_eq_log (toRat_pos_iff.mp hpos)] at hlog
  omega

/-! ## Forms that end with `.0` -/

theorem exists_getLast?_digits (h : ¬ 10 ∣ d.coefficient) :
    ∃ c, d.digits.getLast? = some c ∧ c ≠ '0' := by
  refine ⟨_, Text.getLast?_toDigits _, fun hzero => h ?_⟩
  have hvalue := Text.digitValue?_digitChar (Nat.mod_lt d.coefficient (by decide : 0 < 10))
  rw [hzero] at hvalue
  exact Nat.dvd_of_mod_eq_zero (Option.some.inj hvalue).symm

/-- An integer is laid out with its zeros, and a last one behind the point. -/
theorem positional_of_exponent_nonneg (h : 0 ≤ d.exponent) :
    positional d.digits (d.leading + 1) =
      d.digits ++ List.replicate d.exponent.toNat '0' ++ ".0".toList := by
  have hlength := length_digits_pos d
  have hleading : d.leading + 1 = d.exponent + d.digits.length := by
    rw [leading]
    omega
  rw [positional, if_neg (by omega), if_neg (by omega), hleading]
  congr 3
  omega

/-- If there is a fraction then the digits end the text. -/
theorem getLast?_positional (h : d.exponent < 0) :
    (positional d.digits (d.leading + 1)).getLast? = d.digits.getLast? := by
  have hne : d.digits ≠ [] := List.length_pos_iff.mp (length_digits_pos d)
  have hleading : d.leading + 1 = d.exponent + d.digits.length := by
    rw [leading]
    omega
  unfold positional
  split
  · exact List.getLast?_append_of_ne_nil _ hne
  · have hdrop : d.digits.drop (d.leading + 1).toNat ≠ [] := by
      rw [ne_eq, List.drop_eq_nil_iff]
      omega
    rw [if_pos (by omega), List.append_cons, List.getLast?_append_of_ne_nil _ hdrop,
      List.getLast?_drop, if_neg (by omega)]

/-- Behind the sign of an exponent there are digits only. -/
theorem not_pointZero_suffix_exponential (s digits : Text) (width : Nat) (e : Int) :
    ¬ ".0".toList <:+ s ++ exponential width digits e := by
  have hform : s ++ exponential width digits e =
      s ++ (digits.take 1 ++ (if digits.length ≤ 1 then [] else '.' :: digits.drop 1) ++ ['e']) ++
        ((if e < 0 then '-' else '+') ::
          (List.replicate (width - (Nat.toDigits 10 e.natAbs).length) '0' ++
            Nat.toDigits 10 e.natAbs)) := by
    simp [exponential]
  have hlength : 0 < (Nat.toDigits 10 e.natAbs).length :=
    List.length_pos_iff.mpr Nat.toDigits_ne_nil
  rw [hform]
  refine Text.not_pointZero_suffix_append ?_ fun hpoint => ?_
  · rw [List.length_cons, List.length_append]
    omega
  rcases List.mem_cons.mp hpoint with hsign | hexponent
  · split at hsign <;> exact absurd hsign (by decide)
  · rcases List.mem_append.mp hexponent with hzero | hdigit
    · exact absurd (List.eq_of_mem_replicate hzero) (by decide)
    · exact absurd (Nat.isDigit_of_mem_toDigits (by decide) (by decide) hdigit) (by decide)

end Decimal

namespace Binary64

variable {v : Binary64} {x : Finite} {s : Text}

/-! ## Shortest forms -/

/-- The text is the shortest form of the number: its shortest decimal, positional with a digit on
either side of the point while the exponent of the first digit is from `-4` to `15`, and with an
exponent of two digits or more otherwise. -/
inductive ShortestForm : Binary64 → Text → Prop
  | positional {x d} : Decimal.IsShortest x d → -4 ≤ d.leading → d.leading ≤ 15 →
      ShortestForm (.finite x) (signText x.negative ++ Decimal.positional d.digits (d.leading + 1))
  | exponential {x d} : Decimal.IsShortest x d → d.leading < -4 ∨ 15 < d.leading →
      ShortestForm (.finite x) (signText x.negative ++ Decimal.exponential 2 d.digits d.leading)
  | infinity (negative) : ShortestForm (.infinity negative) (signText negative ++ "inf".toList)
  | nan : ShortestForm .nan "nan".toList

/-- A number has one shortest form. -/
theorem shortestForm_iff : v.ShortestForm s ↔ s = v.shortestText := by
  constructor
  · rintro (⟨h, hfrom, hto⟩ | ⟨h, hout⟩ | - | -)
    · obtain rfl := Decimal.isShortest_iff.mp h
      rw [shortestText, Decimal.Layout.write, if_pos ⟨hfrom, Int.lt_add_one_iff.mpr hto⟩]
    · obtain rfl := Decimal.isShortest_iff.mp h
      rw [shortestText, Decimal.Layout.write, if_neg]
      · rfl
      · rintro ⟨hfrom, hbelow⟩
        exact hout.elim hfrom.not_gt (Int.lt_add_one_iff.mp hbelow).not_gt
    · rfl
    · rfl
  · rintro rfl
    cases v with
    | finite x =>
      rw [shortestText, Decimal.Layout.write]
      split
      · rename_i hplain
        exact .positional (Decimal.isShortest x) hplain.1 (Int.lt_add_one_iff.mp hplain.2)
      · rename_i hplain
        refine .exponential (Decimal.isShortest x) ?_
        by_contra hnot
        rw [not_or, not_lt, not_lt] at hnot
        exact hplain ⟨hnot.1, Int.lt_add_one_iff.mpr hnot.2⟩
    | infinity negative => exact .infinity negative
    | nan => exact .nan

theorem shortestForm (v : Binary64) : v.ShortestForm v.shortestText := shortestForm_iff.mpr rfl

/-! ## Results -/

theorem Finite.magnitude_of_den_eq_one (h : x.toRat.den = 1) :
    x.magnitude = x.toRat.num.natAbs := by
  rw [← x.abs_toRat, abs_eq_natAbs_div, h, Nat.cast_one, div_one]

theorem Finite.den_eq_one_of_magnitude {n : Nat} (h : x.magnitude = n) : x.toRat.den = 1 := by
  rw [Finite.toRat_eq, h]
  cases x.negative with
  | false => rw [sign_false_mul, Rat.den_natCast]
  | true => rw [sign_true_mul, Rat.den_neg_eq_den, Rat.den_natCast]

theorem Finite.natAbs_num_lt_iff (h : x.toRat.den = 1) (n : Nat) :
    x.toRat.num.natAbs < n ↔ |x.toRat| < n := by
  rw [x.abs_toRat, magnitude_of_den_eq_one h, Nat.cast_lt]

/-- The sign of a number is that of its value, unless it is the negative zero. -/
theorem Finite.negative_eq (h : Binary64.finite x ≠ zero true) :
    x.negative = decide (x.toRat.num < 0) := by
  by_cases hx : x.significand = 0
  · have hmagnitude := Finite.magnitude_eq_zero.mpr hx
    rw [x.toRat_eq, hmagnitude, mul_zero]
    refine Bool.eq_false_iff.mpr fun hnegative => h (congrArg Binary64.finite ?_)
    exact Finite.eq_of_magnitude hnegative (hmagnitude.trans (magnitude_eq_zero.mpr rfl).symm)
  · have hpos := magnitude_pos hx
    rw [x.toRat_eq]
    cases x.negative with
    | false =>
      rw [sign_false_mul]
      exact (decide_eq_false fun hnum => hpos.not_gt (Rat.num_neg.mp hnum)).symm
    | true =>
      rw [sign_true_mul]
      exact (decide_eq_true (Rat.num_neg.mpr (neg_lt_zero.mpr hpos))).symm

/-- The shortest form of an integer below `10 ^ 16` is that integer and `.0`. -/
theorem shortestText_integer (hden : x.toRat.den = 1) (hlt : x.toRat.num.natAbs < 10 ^ 16) :
    shortestText (.finite x) =
      signText x.negative ++ Nat.toDigits 10 x.toRat.num.natAbs ++ ".0".toList := by
  have h := Decimal.isShortest x
  obtain ⟨hexponent, hdigits⟩ := h.digits_integer (Finite.magnitude_of_den_eq_one hden) hlt
  have hlength := Nat.toDigits_length 10 _ 16 (by decide) hlt
  have hpos := Decimal.length_digits_pos (Decimal.shortest x)
  rw [hdigits, List.length_append, List.length_replicate] at hlength
  have hform : ShortestForm (.finite x) _ :=
    .positional h (by rw [Decimal.leading]; omega) (by rw [Decimal.leading]; omega)
  rw [← shortestForm_iff.mp hform, Decimal.positional_of_exponent_nonneg hexponent, hdigits]
  simp only [List.append_assoc]

/-- A number that is not an integer ends with a digit that is not zero, and from `10 ^ 16` on there
is an exponent. -/
theorem ShortestForm.integer_of_pointZero (h : v.ShortestForm s) (hs : ".0".toList <:+ s) :
    ∃ x, v = .finite x ∧ x.toRat.den = 1 ∧ |x.toRat| < 10 ^ 16 := by
  cases h with
  | @positional x d h _ hto =>
    refine ⟨x, rfl, ?_, x.abs_toRat ▸ h.magnitude_lt hto⟩
    by_contra hden
    have hx (n : Nat) : x.magnitude ≠ n := fun hn => hden (Finite.den_eq_one_of_magnitude hn)
    have hne : x.significand ≠ 0 := fun hzero =>
      hx 0 (by rw [Finite.magnitude_eq_zero.mpr hzero, Nat.cast_zero])
    obtain ⟨c, hlast, hc⟩ := Decimal.exists_getLast?_digits (h.not_dvd hne)
    rw [← Decimal.getLast?_positional (h.exponent_neg hx)] at hlast
    exact Text.not_pointZero_suffix_of_getLast? hlast hc hs
  | exponential => exact absurd hs (Decimal.not_pointZero_suffix_exponential _ _ _ _)
  | infinity negative =>
    exact absurd hs (Text.not_pointZero_suffix_of_getLast? (rfl : _ = some 'f') (by decide))
  | nan => exact absurd hs (by decide)

/-- What is shown of an integer below `10 ^ 16` is its shortest form up to the point, and of any
other number all of it. -/
theorem display_eq_withoutPointZero (hv : v ≠ zero true) :
    v.display = Text.withoutPointZero v.shortestText := by
  by_cases h : ∃ x, v = .finite x ∧ x.toRat.den = 1 ∧ x.toRat.num.natAbs < 10 ^ 16
  · obtain ⟨x, rfl, hshort⟩ := h
    rw [shortestText_integer hshort.1 hshort.2, Text.withoutPointZero_append, Finite.negative_eq hv]
    exact if_pos hshort
  · have hnot : ¬ ".0".toList <:+ v.shortestText := fun hs => by
      obtain ⟨x, hx, hden, hlt⟩ := (shortestForm v).integer_of_pointZero hs
      exact h ⟨x, hx, hden, (Finite.natAbs_num_lt_iff hden _).mpr (by exact_mod_cast hlt)⟩
    rw [Text.withoutPointZero, if_neg hnot]
    cases v with
    | finite x => exact if_neg fun hshort => h ⟨x, rfl, hshort⟩
    | infinity negative => rfl
    | nan => rfl

/-- **Shortest forms.**  Every number has exactly one shortest form, and apart from the negative
zero what is shown of a number is its shortest form without a `.0` at its end.  The shortest forms
that end with `.0` are those of the integers below `10 ^ 16`.  The shortest form of a finite number
denotes its shortest decimal, and the digits of such an integer are those of that decimal and
zeros. -/
theorem display_shortestForm (hv : v ≠ zero true) :
    ∃ s, (∀ t, v.ShortestForm t ↔ t = s) ∧ v.display = Text.withoutPointZero s ∧
      (".0".toList <:+ s ↔ ∃ x, v = .finite x ∧ x.toRat.den = 1 ∧ |x.toRat| < 10 ^ 16) ∧
      ∀ x, v = .finite x → ∃ d, Decimal.IsShortest x d ∧
        s.NumberOf (sign x.negative * d.toRat) ∧
        (x.toRat.den = 1 → |x.toRat| < 10 ^ 16 → 0 ≤ d.exponent ∧
          Nat.toDigits 10 x.toRat.num.natAbs =
            d.digits ++ List.replicate d.exponent.toNat '0') := by
  refine ⟨_, fun t => shortestForm_iff, display_eq_withoutPointZero hv, ⟨?_, ?_⟩, ?_⟩
  · exact (shortestForm v).integer_of_pointZero
  · rintro ⟨x, rfl, hden, hlt⟩
    rw [shortestText_integer hden ((Finite.natAbs_num_lt_iff hden _).mpr (by exact_mod_cast hlt))]
    exact List.suffix_append _ _
  · rintro x rfl
    have h := Decimal.isShortest x
    refine ⟨_, h, numberOf_shortestText x, fun hden hlt => ?_⟩
    exact h.digits_integer (Finite.magnitude_of_den_eq_one hden)
      ((Finite.natAbs_num_lt_iff hden _).mpr (by exact_mod_cast hlt))

/-- An integer above `2 ^ 53`, where there are even ones only, keeps all its digits. -/
theorem display_shortestForm_even :
    let v : Binary64 := .finite ⟨false, 4503599627370500, 1, by decide⟩
    v ≠ zero true ∧ v.ShortestForm "9007199254741000.0".toList ∧
      v.display = "9007199254741000".toList := by
  intro v
  have hv : v ≠ zero true := by decide
  have htext : v.shortestText = "9007199254741000.0".toList := by decide +kernel
  have hform := htext ▸ shortestForm v
  obtain ⟨s, hunique, hdisplay, -⟩ := display_shortestForm hv
  rw [← (hunique _).mp hform] at hdisplay
  exact ⟨hv, hform, hdisplay⟩

/-- The negative zero is the exception. -/
example : (zero true).shortestText = "-0.0".toList ∧ (zero true).display = "0".toList := by
  decide +kernel

end Binary64

end LineCalc
