import LineCalc.Decimal.Shortest
import LineCalc.Proofs.Decimal.Fraction

/-!
# Shortest decimals read back

The last grid that is tried holds the number itself, so the search ends with a decimal that reads
back.  What is tried on a grid are its points next to the number, so powers of ten, which are on
all the grids, are never passed:

    x.significand ≠ 0 → ReadsBack x (shortest x)                         (readsBack_shortest)
    x.significand ≠ 0 → 10 ^ e ≤ x.magnitude → 10 ^ e ≤ (shortest x).toRat
                                                                         (zpow_le_shortest)
    x.significand ≠ 0 → x.magnitude < 10 ^ e → (shortest x).toRat ≤ 10 ^ e
                                                                         (shortest_le_zpow)
-/

namespace LineCalc

/-! ## Decimal logarithms -/

theorem Text.length_toDigits {n : Nat} (h : 0 < n) :
    (Nat.toDigits 10 n).length = Nat.log 10 n + 1 := by
  rw [toDigits_eq, List.length_map, digitsOf_of_pos h, List.length_reverse,
    Nat.length_digits 10 n (by decide) h.ne']

namespace Decimal

open Binary64 (Finite)

theorem magnitudeOf_eq_log {r : Rat} (hr : 0 < r) : magnitudeOf r = Int.log 10 r := by
  have hn : 0 < r.num.natAbs := Int.natAbs_pos.mpr (Rat.num_ne_zero.mpr hr.ne')
  have hlog := fractionLog_eq (b := 10) (by decide) hr.ne'
  rw [abs_of_pos hr] at hlog
  rw [← hlog, magnitudeOf, fractionLog]
  split
  · rename_i h
    rw [Text.length_toDigits (Nat.div_pos h r.den_pos)]
    omega
  · rename_i h
    rw [Text.length_toDigits (Nat.div_pos (by omega) hn)]

/-- The exponent of the first digit is the logarithm. -/
theorem leading_eq_log {d : Decimal} (h : 0 < d.coefficient) : d.leading = Int.log 10 d.toRat := by
  have hpos : (0 : Rat) < 10 ^ d.exponent := zpow_pos (by decide) _
  have hle : ((10 ^ Nat.log 10 d.coefficient : Nat) : Rat) ≤ d.coefficient :=
    Nat.cast_le.mpr (Nat.pow_log_le_self 10 h.ne')
  have hlt : (d.coefficient : Rat) < (10 ^ (Nat.log 10 d.coefficient + 1) : Nat) :=
    Nat.cast_lt.mpr (Nat.lt_pow_succ_log_self (by decide) _)
  have hrat : 0 < d.toRat := toRat_pos_iff.mpr h
  have hleading : d.leading = Nat.log 10 d.coefficient + d.exponent := by
    rw [leading, digits, Text.length_toDigits h]
    omega
  refine le_antisymm ((Int.zpow_le_iff_le_log (by decide) hrat).mp ?_)
    (Int.lt_add_one_iff.mp ((Int.lt_zpow_iff_log_lt (by decide) hrat).mp ?_))
  · rw [hleading, toRat_eq, Nat.cast_ofNat, zpow_add₀ (by decide), zpow_natCast]
    rw [Nat.cast_pow, Nat.cast_ofNat] at hle
    exact mul_le_mul_of_nonneg_right hle hpos.le
  · rw [hleading, toRat_eq, Nat.cast_ofNat, add_right_comm, zpow_add₀ (by decide),
      ← Nat.cast_add_one, zpow_natCast]
    rw [Nat.cast_pow, Nat.cast_ofNat] at hlt
    exact mul_lt_mul_of_pos_right hlt hpos

variable {x : Finite} {d : Decimal} {e : Int}

/-! ## The search -/

/-- On the grid of the decimal nothing lies between it and the number. -/
structure Beside (x : Finite) (d : Decimal) : Prop where
  le_coefficient : ∀ k, Grid.point ⟨10, d.exponent⟩ k ≤ x.magnitude → k ≤ d.coefficient
  coefficient_le : ∀ k, x.magnitude < Grid.point ⟨10, d.exponent⟩ k → d.coefficient ≤ k

theorem beside_of_mem_neighbours (h : d ∈ neighbours x e) : d.exponent = e ∧ Beside x d := by
  have hbase := base_pos e
  have habs := abs_of_nonneg x.magnitude_nonneg
  have hfloor (k : Nat) :
      k ≤ Grid.floor ⟨10, e⟩ x.magnitude ↔ Grid.point ⟨10, e⟩ k ≤ x.magnitude := by
    rw [Grid.le_floor_iff hbase, habs]
  have hlt (k : Nat) (hk : x.magnitude < Grid.point ⟨10, e⟩ k) :
      Grid.floor ⟨10, e⟩ x.magnitude < k :=
    Nat.lt_of_not_le fun hle => hk.not_ge ((hfloor k).mp hle)
  simp only [neighbours, List.mem_cons, List.not_mem_nil, or_false] at h
  rcases h with rfl | rfl | rfl
  · refine ⟨rfl, fun k hk => ?_, fun k hk => ?_⟩
    · exact Grid.le_nearest_of_le hbase (by rwa [habs])
    · exact Grid.nearest_le_of_le hbase (by rw [habs]; exact hk.le)
  · exact ⟨rfl, fun k => (hfloor k).mpr, fun k hk => (hlt k hk).le⟩
  · exact ⟨rfl, fun k hk => Nat.le_succ_of_le ((hfloor k).mpr hk), hlt⟩

/-- A power of ten is on all the grids below it. -/
theorem point_pow {e' : Int} (h : e' ≤ e) :
    Grid.point ⟨10, e'⟩ (10 ^ (e - e').toNat) = (10 : Rat) ^ e := by
  have hsum : e = (e - e').toNat + e' := by omega
  rw [Grid.point_eq, Grid.unit, Nat.cast_pow, Nat.cast_ofNat, ← zpow_natCast,
    ← zpow_add₀ (by decide), ← hsum]

theorem Beside.zpow_le (h : Beside x d) (hd : d.exponent ≤ e) (he : (10 : Rat) ^ e ≤ x.magnitude) :
    (10 : Rat) ^ e ≤ d.toRat := by
  rw [← point_pow hd] at he ⊢
  exact Grid.point_le_point (base_pos _) (h.le_coefficient _ he)

theorem Beside.le_zpow (h : Beside x d) (hd : d.exponent ≤ e) (he : x.magnitude < (10 : Rat) ^ e) :
    d.toRat ≤ (10 : Rat) ^ e := by
  rw [← point_pow hd] at he ⊢
  exact Grid.point_le_point (base_pos _) (h.coefficient_le _ he)

/-- The search stays below the grid that it starts from, and ends with the last grid if nothing
reads back. -/
theorem search_spec (x : Finite) (grids : Nat) (e : Int) :
    (search x grids e).exponent ≤ e ∧ Beside x (search x grids e) ∧
      (ReadsBack x (search x grids e) ∨
        search x grids e = ⟨Grid.floor ⟨10, e - grids⟩ x.magnitude, e - grids⟩) := by
  induction grids generalizing e with
  | zero =>
    have hmem : search x 0 e ∈ neighbours x e := by simp [search, neighbours]
    obtain ⟨hexponent, hbeside⟩ := beside_of_mem_neighbours hmem
    exact ⟨hexponent.le, hbeside, .inr (by rw [Nat.cast_zero, sub_zero, search])⟩
  | succ grids ih =>
    rw [search]
    split
    · rename_i d hfound
      obtain ⟨hexponent, hbeside⟩ := beside_of_mem_neighbours (List.mem_of_find?_eq_some hfound)
      have hreads := List.find?_some hfound
      exact ⟨hexponent.le, hbeside, .inl (of_decide_eq_true hreads)⟩
    · obtain ⟨hexponent, hbeside, hlast⟩ := ih (e - 1)
      rw [show e - 1 - grids = e - (grids + 1 : Nat) by omega] at hlast
      exact ⟨by omega, hbeside, hlast⟩

/-! ## What reads back -/

theorem readsBack_of_toRat (h : d.toRat = x.magnitude) : ReadsBack x d := by
  have habs : |d.toRat| = x.magnitude := by rw [h, abs_of_nonneg x.magnitude_nonneg]
  exact Binary64.round_of_magnitude habs x.negative

theorem ReadsBack.pos (hx : x.significand ≠ 0) (h : ReadsBack x d) : 0 < d.toRat := by
  refine lt_of_le_of_ne d.toRat_nonneg fun hzero => hx ?_
  rw [ReadsBack, ← hzero, Binary64.round_zero] at h
  rw [← Binary64.finite.inj h]

/-! ## The last grid -/

/-- A number is on the decimal grid of its own exponent, for half a unit is five units of the next
decimal grid. -/
theorem exists_point (x : Finite) : ∃ k, x.magnitude = Grid.point ⟨10, min x.exponent 0⟩ k := by
  rw [x.magnitude_eq]
  rcases le_total 0 x.exponent with h | h
  · obtain ⟨q, hq⟩ := Int.eq_ofNat_of_zero_le h
    refine ⟨x.significand * 2 ^ q, ?_⟩
    rw [min_eq_right h, hq, Grid.point_eq, Grid.unit, zpow_zero, mul_one, zpow_natCast,
      Nat.cast_mul, Nat.cast_pow, Nat.cast_ofNat]
  · obtain ⟨k, hk⟩ := Int.eq_ofNat_of_zero_le (by omega : 0 ≤ -x.exponent)
    have hten : (10 : Rat) ^ k = 2 ^ k * 5 ^ k := by rw [← mul_pow]; norm_num
    have hfive : (5 : Rat) ^ k ≠ 0 := pow_ne_zero _ (by decide)
    refine ⟨x.significand * 5 ^ k, ?_⟩
    rw [min_eq_left h, show x.exponent = -(k : Int) by omega, Grid.point_eq, Grid.unit,
      Nat.cast_ofNat, zpow_neg, zpow_neg, zpow_natCast, zpow_natCast, hten]
    push_cast
    field_simp

/-- The last grid is not above that of the first digit. -/
theorem min_exponent_le (h : x.significand ≠ 0) : min x.exponent 0 ≤ Int.log 10 x.magnitude := by
  have hpos := Finite.magnitude_pos h
  obtain ⟨k, hk⟩ := exists_point x
  have hk1 : 1 ≤ k := by
    refine Nat.one_le_iff_ne_zero.mpr ?_
    rintro rfl
    rw [Grid.point_eq, Nat.cast_zero, zero_mul] at hk
    exact hpos.ne' hk
  refine (Int.zpow_le_iff_le_log (by decide) hpos).mp ?_
  rw [hk]
  calc ((10 : Nat) : Rat) ^ min x.exponent 0 = Grid.point ⟨10, min x.exponent 0⟩ 1 := by
        rw [Grid.point_eq, Nat.cast_one, one_mul, Grid.unit]
    _ ≤ Grid.point ⟨10, min x.exponent 0⟩ k := Grid.point_le_point (base_pos _) hk1

/-! ## The shortest decimal -/

theorem toRat_carry (d : Decimal) :
    toRat (if d.coefficient = 10 then ⟨1, d.exponent + 1⟩ else d) = d.toRat := by
  split
  · rename_i h
    rw [toRat_eq, toRat_eq, h, zpow_add_one₀ (by decide)]
    push_cast
    ring
  · rfl

/-- The shortest decimal is as large as what the search found. -/
theorem shortest_spec (h : x.significand ≠ 0) :
    ∃ d, (shortest x).toRat = d.toRat ∧ ReadsBack x d ∧ Beside x d ∧
      d.exponent ≤ Int.log 10 x.magnitude := by
  have hfirst := magnitudeOf_eq_log (Finite.magnitude_pos h)
  have hle := min_exponent_le h
  obtain ⟨hexponent, hbeside, hends⟩ := search_spec x
    (Int.log 10 x.magnitude - min x.exponent 0).toNat (Int.log 10 x.magnitude)
  refine ⟨_, ?_, ?_, hbeside, hexponent⟩
  · rw [shortest, if_neg h, hfirst]
    exact toRat_carry _
  · rcases hends with hreads | hlast
    · exact hreads
    · obtain ⟨k, hk⟩ := exists_point x
      rw [show Int.log 10 x.magnitude - (Int.log 10 x.magnitude - min x.exponent 0).toNat =
        min x.exponent 0 by omega, Grid.floor_eq (base_pos _)
        ((abs_of_nonneg x.magnitude_nonneg).trans hk)] at hlast
      rw [hlast]
      exact readsBack_of_toRat hk.symm

/-- **Shortest decimals read back.**  Rounding the shortest decimal of a number that is not zero
gives that number. -/
theorem readsBack_shortest (h : x.significand ≠ 0) : ReadsBack x (shortest x) := by
  obtain ⟨d, hrat, hreads, -, -⟩ := shortest_spec h
  rwa [ReadsBack, hrat]

theorem zpow_le_shortest (h : x.significand ≠ 0) (he : (10 : Rat) ^ e ≤ x.magnitude) :
    (10 : Rat) ^ e ≤ (shortest x).toRat := by
  have hpos := Finite.magnitude_pos h
  obtain ⟨d, hrat, -, hbeside, hexponent⟩ := shortest_spec h
  have hlog : e ≤ Int.log 10 x.magnitude := (Int.zpow_le_iff_le_log (by decide) hpos).mp he
  rw [hrat]
  calc (10 : Rat) ^ e ≤ 10 ^ Int.log 10 x.magnitude := zpow_le_zpow_right₀ (by decide) hlog
    _ ≤ d.toRat := hbeside.zpow_le hexponent (Int.zpow_log_le_self (by decide) hpos)

theorem shortest_le_zpow (h : x.significand ≠ 0) (he : x.magnitude < (10 : Rat) ^ e) :
    (shortest x).toRat ≤ (10 : Rat) ^ e := by
  have hpos := Finite.magnitude_pos h
  obtain ⟨d, hrat, -, hbeside, hexponent⟩ := shortest_spec h
  have hlog : Int.log 10 x.magnitude < e := (Int.lt_zpow_iff_log_lt (by decide) hpos).mp he
  rw [hrat]
  exact hbeside.le_zpow (by omega) he

end Decimal

end LineCalc
