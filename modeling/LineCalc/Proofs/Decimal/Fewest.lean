import LineCalc.Proofs.Binary64.Interval
import LineCalc.Proofs.Decimal.Shortest

/-!
# The fewest digits that read back

On each grid the search asks the neighbours of the number only.  That is enough, for what reads
back is an interval: if any point of a grid reads back a neighbour does, and the first neighbour
that does is the closest such point.  So the search ends on the coarsest grid with a point that
reads back.  A decimal of `n + 1` digits that reads back has a point to take its place on the grid
`n` steps below the first one, hence the coarsest grid is the one of the fewest digits:

    the last grid holds x → Found x first (search x grids first) (found_search)
    e reads back with n + 1 digits → a point of that grid is e, or closer
                                                                 (exists_point_of_length_le)
    IsShortest x d ↔ d = shortest x                              (isShortest_iff)

A `10` that is found becomes `1` on the next grid, and `1` is odd.  It has no rival to be even for:
`9` would have to be as close as `10`, and half of `19` is no binary number of so few digits
(`BestOnGrid.ne_tie`).
-/

namespace LineCalc.Decimal

open Binary64 (Finite)

variable {x : Finite} {d e : Decimal} {k : Nat} {first q : Int}

/-! ## The interval that reads back -/

theorem readsBack_magnitude (x : Finite) :
    Binary64.round x.negative x.magnitude = .finite x :=
  Binary64.round_of_magnitude (abs_of_nonneg x.magnitude_nonneg) x.negative

/-- On the way from a decimal that reads back up to the number all of them do. -/
theorem ReadsBack.of_le (hx : x.significand ≠ 0) (h : ReadsBack x d) (hde : d.toRat ≤ e.toRat)
    (he : e.toRat ≤ x.magnitude) : ReadsBack x e :=
  Binary64.round_between (h.pos hx) hde he h (readsBack_magnitude x)

/-- And on the way down to it. -/
theorem ReadsBack.of_ge (hx : x.significand ≠ 0) (h : ReadsBack x d) (hed : e.toRat ≤ d.toRat)
    (he : x.magnitude ≤ e.toRat) : ReadsBack x e :=
  Binary64.round_between (Finite.magnitude_pos hx) he hed (readsBack_magnitude x) h

/-! ## The best on a grid -/

/-- Of the points of its grid that read back the decimal is the closest to the number, and the even
one of two. -/
structure BestOnGrid (x : Finite) (d : Decimal) : Prop where
  readsBack : ReadsBack x d
  closest : ∀ k, ReadsBack x ⟨k, d.exponent⟩ →
    |x.magnitude - d.toRat| ≤ |x.magnitude - toRat ⟨k, d.exponent⟩|
  even : ∀ k, ReadsBack x ⟨k, d.exponent⟩ → k ≠ d.coefficient →
    |x.magnitude - toRat ⟨k, d.exponent⟩| = |x.magnitude - d.toRat| →
    Even d.coefficient ∧ ¬ Even k

theorem coefficient_eq (h : toRat ⟨k, d.exponent⟩ = d.toRat) : k = d.coefficient := by
  rcases Nat.lt_trichotomy k d.coefficient with hlt | heq | hgt
  · exact absurd h (Grid.point_lt_point (base_pos _) hlt).ne
  · exact heq
  · exact absurd h (Grid.point_lt_point (base_pos _) hgt).ne'

/-- On the way from `c` to `a` distances to `a` get smaller. -/
theorem eq_or_closer {a b c : Rat} (h : c ≤ b ∧ b ≤ a ∨ a ≤ b ∧ b ≤ c) :
    b = c ∨ |a - b| < |a - c| := by
  refine or_iff_not_imp_left.mpr fun hne => ?_
  rcases h with ⟨hcb, hba⟩ | ⟨hab, hbc⟩
  · have hlt := lt_of_le_of_ne hcb (Ne.symm hne)
    rw [abs_of_nonneg (sub_nonneg.mpr hba), abs_of_nonneg (sub_nonneg.mpr (hcb.trans hba))]
    linarith
  · have hlt := lt_of_le_of_ne hbc hne
    rw [abs_of_nonpos (sub_nonpos.mpr hab), abs_of_nonpos (sub_nonpos.mpr (hab.trans hbc))]
    linarith

/-- Where all that reads back lies beyond the decimal, seen from the number, there is no choice. -/
theorem bestOnGrid_of_between (h : ReadsBack x d)
    (hall : ∀ k, ReadsBack x ⟨k, d.exponent⟩ →
      toRat ⟨k, d.exponent⟩ ≤ d.toRat ∧ d.toRat ≤ x.magnitude ∨
        x.magnitude ≤ d.toRat ∧ d.toRat ≤ toRat ⟨k, d.exponent⟩) :
    BestOnGrid x d := by
  refine ⟨h, fun k hk => ?_, fun k hk hne htie => ?_⟩
  · rcases eq_or_closer (hall k hk) with heq | hlt
    · rw [heq]
    · exact hlt.le
  · rcases eq_or_closer (hall k hk) with heq | hlt
    · exact absurd (coefficient_eq heq.symm) hne
    · exact absurd htie hlt.ne'

/-- The nearest point of a grid is the best one, if it reads back. -/
theorem bestOnGrid_nearest (h : ReadsBack x ⟨Grid.nearest ⟨10, q⟩ x.magnitude, q⟩) :
    BestOnGrid x ⟨Grid.nearest ⟨10, q⟩ x.magnitude, q⟩ := by
  have habs := abs_of_nonneg x.magnitude_nonneg
  refine ⟨h, fun k _ => ?_, fun k _ hne htie => ?_⟩
  · have hclose := Grid.abs_sub_nearest_le (base_pos q) x.magnitude k
    rwa [habs] at hclose
  · refine Grid.even_nearest_of_tie (base_pos q) hne ?_
    rw [habs]
    exact htie

/-! ## The neighbours of the number -/

theorem le_floor_iff (x : Finite) (q : Int) :
    k ≤ Grid.floor ⟨10, q⟩ x.magnitude ↔ toRat ⟨k, q⟩ ≤ x.magnitude := by
  rw [Grid.le_floor_iff (base_pos q), abs_of_nonneg x.magnitude_nonneg]
  rfl

theorem floor_le (x : Finite) (q : Int) :
    toRat ⟨Grid.floor ⟨10, q⟩ x.magnitude, q⟩ ≤ x.magnitude :=
  (le_floor_iff x q).mp le_rfl

theorem lt_succ_floor (x : Finite) (q : Int) :
    x.magnitude < toRat ⟨Grid.floor ⟨10, q⟩ x.magnitude + 1, q⟩ :=
  lt_of_not_ge fun hge => absurd ((le_floor_iff x q).mpr hge) (Nat.not_succ_le_self _)

theorem toRat_le_toRat {m : Nat} (h : k ≤ m) : toRat ⟨k, q⟩ ≤ toRat ⟨m, q⟩ :=
  Grid.point_le_point (base_pos q) h

/-- The nearest point is one of the two next to the number. -/
theorem nearest_eq_or (x : Finite) (q : Int) :
    Grid.nearest ⟨10, q⟩ x.magnitude = Grid.floor ⟨10, q⟩ x.magnitude ∨
      Grid.nearest ⟨10, q⟩ x.magnitude = Grid.floor ⟨10, q⟩ x.magnitude + 1 := by
  have habs := abs_of_nonneg x.magnitude_nonneg
  have hlow : Grid.floor ⟨10, q⟩ x.magnitude ≤ Grid.nearest ⟨10, q⟩ x.magnitude :=
    Grid.le_nearest_of_le (base_pos q) (habs.symm ▸ floor_le x q)
  have hhigh : Grid.nearest ⟨10, q⟩ x.magnitude ≤ Grid.floor ⟨10, q⟩ x.magnitude + 1 :=
    Grid.nearest_le_of_le (base_pos q) (habs.symm ▸ (lt_succ_floor x q).le)
  omega

/-- What the search asks of one grid. -/
theorem find?_neighbours (x : Finite) (q : Int) :
    (neighbours x q).find? (ReadsBack x ·) =
      if ReadsBack x ⟨Grid.nearest ⟨10, q⟩ x.magnitude, q⟩ then
        some ⟨Grid.nearest ⟨10, q⟩ x.magnitude, q⟩
      else if ReadsBack x ⟨Grid.floor ⟨10, q⟩ x.magnitude, q⟩ then
        some ⟨Grid.floor ⟨10, q⟩ x.magnitude, q⟩
      else if ReadsBack x ⟨Grid.floor ⟨10, q⟩ x.magnitude + 1, q⟩ then
        some ⟨Grid.floor ⟨10, q⟩ x.magnitude + 1, q⟩
      else none := by
  simp only [neighbours, List.find?_cons, List.find?_nil]
  split_ifs <;> simp_all

section
variable (hx : x.significand ≠ 0)
include hx

/-- If a point of the grid reads back that is not beyond the number, the last such point does. -/
theorem readsBack_floor (h : ReadsBack x ⟨k, q⟩) (hle : toRat ⟨k, q⟩ ≤ x.magnitude) :
    ReadsBack x ⟨Grid.floor ⟨10, q⟩ x.magnitude, q⟩ :=
  h.of_le hx (toRat_le_toRat ((le_floor_iff x q).mpr hle)) (floor_le x q)

/-- If one beyond the number does, the first such point does. -/
theorem readsBack_succ_floor (h : ReadsBack x ⟨k, q⟩) (hlt : x.magnitude < toRat ⟨k, q⟩) :
    ReadsBack x ⟨Grid.floor ⟨10, q⟩ x.magnitude + 1, q⟩ := by
  refine h.of_ge hx (toRat_le_toRat ?_) (lt_succ_floor x q).le
  exact Nat.lt_of_not_le fun hle => hlt.not_ge ((le_floor_iff x q).mp hle)

theorem not_readsBack_of_find?_none (h : (neighbours x q).find? (ReadsBack x ·) = none) (k : Nat) :
    ¬ ReadsBack x ⟨k, q⟩ := by
  intro hk
  rw [find?_neighbours] at h
  split_ifs at h with hnearest hfloor hsucc
  rcases le_or_gt (toRat ⟨k, q⟩) x.magnitude with hle | hlt
  · exact hfloor (readsBack_floor hx hk hle)
  · exact hsucc (readsBack_succ_floor hx hk hlt)

theorem bestOnGrid_of_find?_some (h : (neighbours x q).find? (ReadsBack x ·) = some d) :
    d.exponent = q ∧ BestOnGrid x d := by
  rw [find?_neighbours] at h
  split_ifs at h with hnearest hfloor hsucc
  · obtain rfl := Option.some.inj h
    exact ⟨rfl, bestOnGrid_nearest hnearest⟩
  · -- the nearest point is beyond the number, so nothing there reads back
    obtain rfl := Option.some.inj h
    refine ⟨rfl, bestOnGrid_of_between hfloor fun k hk => .inl ⟨?_, floor_le x q⟩⟩
    rcases le_or_gt (toRat ⟨k, q⟩) x.magnitude with hle | hlt
    · exact toRat_le_toRat ((le_floor_iff x q).mpr hle)
    · have hsucc := readsBack_succ_floor hx hk hlt
      rcases nearest_eq_or x q with heq | heq
      · exact absurd (heq ▸ hfloor) hnearest
      · exact absurd (heq ▸ hsucc) hnearest
  · -- neither the nearest point nor anything else up to the number reads back
    obtain rfl := Option.some.inj h
    refine ⟨rfl, bestOnGrid_of_between hsucc fun k hk => .inr ⟨(lt_succ_floor x q).le, ?_⟩⟩
    rcases le_or_gt (toRat ⟨k, q⟩) x.magnitude with hle | hlt
    · exact absurd (readsBack_floor hx hk hle) hfloor
    · exact toRat_le_toRat (Nat.lt_of_not_le fun hle => hlt.not_ge ((le_floor_iff x q).mp hle))

end

/-! ## The search -/

/-- The decimal is on the coarsest grid from that of `10 ^ first` downward on which anything reads
back, and the best there. -/
structure Found (x : Finite) (first : Int) (d : Decimal) : Prop where
  exponent_le : d.exponent ≤ first
  coarsest : ∀ q, d.exponent < q → q ≤ first → ∀ k, ¬ ReadsBack x ⟨k, q⟩
  best : BestOnGrid x d

/-- The search ends at the first grid that has an answer, for the last one holds the number. -/
theorem found_search (hx : x.significand ≠ 0) (grids : Nat) (first : Int)
    (hlast : ∃ k, x.magnitude = toRat ⟨k, first - grids⟩) :
    Found x first (search x grids first) := by
  induction grids generalizing first with
  | zero =>
    obtain ⟨k, hk⟩ := hlast
    rw [Nat.cast_zero, sub_zero] at hk
    have hfloor : Grid.floor ⟨10, first⟩ x.magnitude = k :=
      Grid.floor_eq (base_pos first) ((abs_of_nonneg x.magnitude_nonneg).trans hk)
    rw [search, hfloor]
    refine ⟨le_rfl, fun q hlt hle => absurd hlt hle.not_gt, ?_⟩
    refine bestOnGrid_of_between (readsBack_of_toRat hk.symm) fun m _ => ?_
    rcases le_total (toRat ⟨m, first⟩) (toRat ⟨k, first⟩) with hle | hge
    · exact .inl ⟨hle, hk.ge⟩
    · exact .inr ⟨hk.le, hge⟩
  | succ grids ih =>
    rw [search]
    cases hfind : (neighbours x first).find? (ReadsBack x ·) with
    | some d =>
      obtain ⟨rfl, hbest⟩ := bestOnGrid_of_find?_some hx hfind
      exact ⟨le_rfl, fun q hlt hle => absurd hlt hle.not_gt, hbest⟩
    | none =>
      rw [show first - (grids + 1 : Nat) = first - 1 - grids by omega] at hlast
      obtain ⟨hexponent, hcoarsest, hbest⟩ := ih (first - 1) hlast
      refine ⟨hexponent.trans (Int.sub_le_self first Int.one_nonneg), fun q hlt hle => ?_, hbest⟩
      rcases Int.lt_or_eq_of_le hle with hbelow | rfl
      · exact hcoarsest q hlt (by omega)
      · exact not_readsBack_of_find?_none hx hfind

/-- What the search finds is next to the number, so it has as many digits as its grid asks for. -/
theorem exists_found (hx : x.significand ≠ 0) :
    ∃ d, Found x (Int.log 10 x.magnitude) d ∧ Beside x d ∧
      shortest x = if d.coefficient = 10 then ⟨1, d.exponent + 1⟩ else d := by
  have hfirst := magnitudeOf_eq_log (Finite.magnitude_pos hx)
  have hle := min_exponent_le hx
  obtain ⟨k, hk⟩ := exists_point x
  obtain ⟨-, hbeside, -⟩ := search_spec x
    (Int.log 10 x.magnitude - min x.exponent 0).toNat (Int.log 10 x.magnitude)
  refine ⟨_, found_search hx _ _ ⟨k, ?_⟩, hbeside, ?_⟩
  · rw [show Int.log 10 x.magnitude - (Int.log 10 x.magnitude - min x.exponent 0).toNat =
      min x.exponent 0 by omega]
    exact hk
  · rw [shortest, if_neg hx, hfirst]

/-! ## Digits -/

theorem length_digits (h : 0 < d.coefficient) :
    d.digits.length = Nat.log 10 d.coefficient + 1 := Text.length_toDigits h

theorem length_digits_pos (d : Decimal) : 0 < d.digits.length :=
  List.length_pos_iff.mpr Nat.toDigits_ne_nil

/-- A decimal on a finer grid. -/
theorem toRat_finer {q' : Int} (k : Nat) (h : q' ≤ q) :
    toRat ⟨k * 10 ^ (q - q').toNat, q'⟩ = toRat ⟨k, q⟩ := by
  have hsum : q = (q - q').toNat + q' := by omega
  rw [toRat_eq, toRat_eq, Nat.cast_mul, Nat.cast_pow, Nat.cast_ofNat, mul_assoc, ← zpow_natCast,
    ← zpow_add₀ (by decide), ← hsum]

theorem toRat_one (q : Int) : toRat ⟨1, q⟩ = 10 ^ q := by
  rw [toRat_eq, Nat.cast_one, one_mul]

/-- Whatever reads back with `n + 1` digits at most has on the grid for `n + 1` digits a point to
take its place, which is as large or closer to the number. -/
theorem exists_point_of_length_le (hx : x.significand ≠ 0) (h : ReadsBack x e) {n : Nat}
    (hq : q = Int.log 10 x.magnitude - n) (hlength : e.digits.length ≤ n + 1) :
    ∃ k, ReadsBack x ⟨k, q⟩ ∧ (toRat ⟨k, q⟩ = e.toRat ∨
      |x.magnitude - toRat ⟨k, q⟩| < |x.magnitude - e.toRat|) := by
  subst hq
  have hpos := h.pos hx
  have hmagnitude := Finite.magnitude_pos hx
  have hlead := leading_eq_log (toRat_pos_iff.mp hpos)
  have hlow : (10 : Rat) ^ Int.log 10 x.magnitude ≤ x.magnitude :=
    Int.zpow_log_le_self (by decide) hmagnitude
  have hhigh : x.magnitude < (10 : Rat) ^ (Int.log 10 x.magnitude + 1) :=
    Int.lt_zpow_succ_log_self (by decide) x.magnitude
  generalize Int.log 10 x.magnitude = first at *
  have hpow (q : Int) (hq : first ≤ q) : ∃ k, toRat ⟨k, first - n⟩ = 10 ^ q :=
    ⟨_, (toRat_finer 1 (by omega)).trans (toRat_one q)⟩
  rcases lt_trichotomy (Int.log 10 e.toRat) first with hlt | heq | hgt
  · -- below the first power of ten, which the number has reached
    have hbelow : e.toRat < 10 ^ first :=
      (Int.lt_zpow_iff_log_lt (b := 10) (by decide) hpos).mpr hlt
    obtain ⟨k, hk⟩ := hpow first le_rfl
    rw [← hk] at hbelow hlow
    exact ⟨k, h.of_le hx hbelow.le hlow, eq_or_closer (.inl ⟨hbelow.le, hlow⟩)⟩
  · -- as many places as the number, so on the grid itself
    have hexponent : first - n ≤ e.exponent := by
      rw [leading] at hlead
      omega
    have hsame : toRat ⟨e.coefficient * 10 ^ (e.exponent - (first - n)).toNat, first - n⟩ =
        e.toRat := toRat_finer e.coefficient hexponent
    exact ⟨_, by rwa [ReadsBack, hsame], .inl hsame⟩
  · -- beyond the next power of ten, which the number has not reached
    have habove : (10 : Rat) ^ (first + 1) ≤ e.toRat :=
      (Int.zpow_le_iff_le_log (b := 10) (by decide) hpos).mpr (by omega)
    obtain ⟨k, hk⟩ := hpow (first + 1) (by omega)
    rw [← hk] at habove hhigh
    exact ⟨k, h.of_ge hx habove hhigh.le, eq_or_closer (.inr ⟨hhigh.le, habove⟩)⟩

/-! ## The number of digits -/

theorem toRat_ten_mul (k : Nat) (q : Int) : toRat ⟨10 * k, q⟩ = toRat ⟨k, q + 1⟩ := by
  rw [toRat_eq, toRat_eq, zpow_add_one₀ (by decide), Nat.cast_mul, Nat.cast_ofNat]
  ring

/-- A zero at the end could have been left out, on the next grid. -/
theorem Found.not_dvd (h : Found x first d) (hlt : d.exponent < first) : ¬ 10 ∣ d.coefficient := by
  rintro ⟨k, hk⟩
  refine h.coarsest (d.exponent + 1) (Int.lt_succ _) hlt k ?_
  rw [ReadsBack, ← toRat_ten_mul, ← hk]
  exact h.best.readsBack

/-- There is one digit for each grid that was tried. -/
theorem Found.length_digits (h : Found x (Int.log 10 x.magnitude) d) (hx : x.significand ≠ 0)
    (hbeside : Beside x d) (hten : d.coefficient ≠ 10) {n : Nat}
    (hn : d.exponent = Int.log 10 x.magnitude - n) : d.digits.length = n + 1 := by
  have hlow : (10 : Rat) ^ Int.log 10 x.magnitude ≤ x.magnitude :=
    Int.zpow_log_le_self (by decide) (Finite.magnitude_pos hx)
  have hhigh : x.magnitude < (10 : Rat) ^ (Int.log 10 x.magnitude + 1) :=
    Int.lt_zpow_succ_log_self (by decide) x.magnitude
  have hnot := h.not_dvd
  generalize Int.log 10 x.magnitude = first at *
  rw [← point_pow (by omega : d.exponent ≤ first)] at hlow
  rw [← point_pow (by omega : d.exponent ≤ first + 1)] at hhigh
  have hle := hbeside.le_coefficient _ hlow
  have hge := hbeside.coefficient_le _ hhigh
  rw [show (first - d.exponent).toNat = n by omega] at hle
  rw [show (first + 1 - d.exponent).toNat = n + 1 by omega] at hge
  have hlt : d.coefficient < 10 ^ (n + 1) := by
    refine lt_of_le_of_ne hge fun heq => ?_
    rcases Nat.eq_zero_or_pos n with rfl | hpos
    · exact hten heq
    · exact hnot (by omega) (heq ▸ Dvd.intro_left _ rfl)
  rw [Decimal.length_digits (lt_of_lt_of_le (Nat.pow_pos (by decide)) hle),
    Nat.log_eq_of_pow_le_of_lt_pow hle hlt]

/-- The shortest decimal is what the search finds, or `1` with the next exponent instead of `10`,
which is found on the first grid only. -/
theorem exists_found_shortest (hx : x.significand ≠ 0) :
    ∃ d n, Found x (Int.log 10 x.magnitude) d ∧ d.exponent = Int.log 10 x.magnitude - (n : Nat) ∧
      (shortest x).digits.length = n + 1 ∧ (shortest x).toRat = d.toRat ∧
      (shortest x = d ∨ d.coefficient = 10 ∧ n = 0) := by
  obtain ⟨d, h, hbeside, hshortest⟩ := exists_found hx
  have hexponent := h.exponent_le
  obtain ⟨n, hn⟩ := Int.eq_ofNat_of_zero_le (Int.sub_nonneg_of_le hexponent)
  have hn' : d.exponent = Int.log 10 x.magnitude - n := by omega
  have hrat : (shortest x).toRat = d.toRat := by rw [hshortest, toRat_carry]
  by_cases hten : d.coefficient = 10
  · have hfirst : ¬ d.exponent < Int.log 10 x.magnitude := fun hlt => h.not_dvd hlt (by rw [hten])
    obtain rfl : n = 0 := by omega
    refine ⟨d, 0, h, hn', ?_, hrat, .inr ⟨hten, rfl⟩⟩
    rw [hshortest, if_pos hten, length_digits Nat.one_pos, Nat.log_one_right]
  · rw [if_neg hten] at hshortest
    refine ⟨d, n, h, hn', ?_, hrat, .inl hshortest⟩
    rw [hshortest, h.length_digits hx hbeside hten hn']

/-! ## Ties -/

/-- A number is at most half a unit of its last place away from what reads back. -/
theorem ReadsBack.two_mul_abs_sub_le (hx : x.significand ≠ 0) (h : ReadsBack x d) :
    2 * |d.toRat - x.magnitude| ≤ 2 ^ x.exponent := by
  have hpos := h.pos hx
  have hnearest := ((Binary64.round_eq_finite_iff hpos).mp h).two_mul_abs_sub_le
  have habs : |Binary64.sign x.negative * d.toRat| = d.toRat := by
    cases x.negative with
    | false => rw [Binary64.sign_false_mul, abs_of_pos hpos]
    | true => rw [Binary64.sign_true_mul, abs_neg, abs_of_pos hpos]
  rwa [habs] at hnearest

/-- Five divides the left side only. -/
theorem nineteen_mul_two_pow_ne (m n k : Nat) : 2 * m * 10 ^ (n + 1) ≠ 19 * 2 ^ k := by
  intro h
  have hfive : 5 ∣ 19 * 2 ^ k := by
    rw [← h, Nat.pow_succ]
    exact Dvd.dvd.mul_left (Dvd.dvd.mul_left (by decide) _) _
  have hcoprime : Nat.Coprime 5 (2 ^ k) := Nat.Coprime.pow_right k (by decide)
  exact absurd (hcoprime.dvd_of_dvd_mul_right hfive) (by decide)

/-- No number is half way between `9` and `10` on a grid and so imprecise that both read back. -/
theorem two_mul_magnitude_ne (hx : x.significand ≠ 0) (h : ReadsBack x ⟨9, q⟩) :
    2 * x.magnitude ≠ 19 * 10 ^ q := by
  intro hhalf
  have hwidth := h.two_mul_abs_sub_le hx
  have hunit : (0 : Rat) < 10 ^ q := zpow_pos (by decide) _
  have hplace : (0 : Rat) < 2 ^ x.exponent := zpow_pos (by decide) _
  obtain ⟨-, hleast, -, hfull⟩ := x.canonical
  rw [toRat_eq, Nat.cast_ofNat, abs_of_nonpos (by linarith)] at hwidth
  have hcoarse : (10 : Rat) ^ q ≤ 2 ^ x.exponent := by linarith
  have hsmall : x.significand ≤ 9 := by
    have hrat : (x.significand : Rat) * 2 ^ x.exponent < 10 * 2 ^ x.exponent := by
      rw [← x.magnitude_eq]
      linarith
    exact Nat.lt_succ_iff.mp (by exact_mod_cast lt_of_mul_lt_mul_right hrat hplace.le)
  -- so few digits there are among the least numbers only, and half of `19` is not such a number
  have hexponent : x.exponent = -1074 := by omega
  have hq : q < 0 := by
    have hone : (2 : Rat) ^ x.exponent < 10 ^ (0 : Int) :=
      zpow_lt_one_of_neg₀ (by decide) (by omega)
    exact (zpow_lt_zpow_iff_right₀ (by decide)).mp (hcoarse.trans_lt hone)
  obtain ⟨n, rfl⟩ : ∃ n : Nat, q = -(n + 1 : Nat) := ⟨(-q - 1).toNat, by omega⟩
  obtain ⟨k, hk⟩ : ∃ k : Nat, x.exponent = -(k : Int) := ⟨1074, hexponent⟩
  have hten : (10 : Rat) ^ (n + 1) ≠ 0 := pow_ne_zero _ (by decide)
  have htwo : (2 : Rat) ^ k ≠ 0 := pow_ne_zero _ (by decide)
  rw [x.magnitude_eq, hk, zpow_neg, zpow_neg, zpow_natCast, zpow_natCast, ← mul_assoc,
    ← div_eq_mul_inv, ← div_eq_mul_inv, div_eq_div_iff htwo hten] at hhalf
  exact nineteen_mul_two_pow_ne x.significand n k (by exact_mod_cast hhalf)

/-- So where `10` is the best on the grid, nothing else there is as close. -/
theorem BestOnGrid.ne_tie (hx : x.significand ≠ 0) (h : BestOnGrid x ⟨10, q⟩)
    (hlt : x.magnitude < toRat ⟨10, q⟩) (hk : ReadsBack x ⟨k, q⟩) (hne : k ≠ 10) :
    |x.magnitude - toRat ⟨k, q⟩| ≠ |x.magnitude - toRat ⟨10, q⟩| := by
  intro htie
  have hunit : (0 : Rat) < 10 ^ q := zpow_pos (by decide) _
  have hmiddle : 2 * x.magnitude = (k + 10) * 10 ^ q := by
    rw [toRat_eq, toRat_eq, Nat.cast_ofNat] at htie
    rcases abs_eq_abs.mp htie with heq | heq
    · have hcast : (k : Rat) = 10 := mul_right_cancel₀ hunit.ne' (by linarith)
      exact absurd (by exact_mod_cast hcast) hne
    · linarith
  have hbelow : k < 10 := by
    rw [toRat_eq, Nat.cast_ofNat] at hlt
    have hcast : (k + 10 : Rat) < 20 := lt_of_mul_lt_mul_right (by linarith) hunit.le
    exact_mod_cast (by linarith : (k : Rat) < 10)
  rcases Nat.lt_or_ge k 9 with hk9 | hk9
  · -- the next point is on the way to the number, and closer
    have hcast : (k : Rat) + 1 ≤ 9 := by exact_mod_cast hk9
    have hscaled := mul_le_mul_of_nonneg_right hcast hunit.le
    have hle : toRat ⟨k, q⟩ ≤ toRat ⟨k + 1, q⟩ := toRat_le_toRat (Nat.le_succ k)
    have hnext : toRat ⟨k + 1, q⟩ ≤ x.magnitude := by
      rw [toRat_eq, Nat.cast_succ]
      linarith
    have hclosest := h.closest (k + 1) (hk.of_le hx hle hnext)
    rcases eq_or_closer (.inl ⟨hle, hnext⟩) with heq | hcloser
    · have hsucc := coefficient_eq (d := ⟨k, q⟩) heq
      exact Nat.succ_ne_self k hsucc
    · exact hcloser.not_ge (htie ▸ hclosest)
  · obtain rfl : k = 9 := by omega
    refine two_mul_magnitude_ne hx hk ?_
    rw [hmiddle, Nat.cast_ofNat]
    norm_num

/-! ## The shortest decimal -/

/-- The decimal reads back, and no other one that does has fewer digits, nor as many and is closer;
where one is as close, the coefficient is even.  Zero is `0`. -/
structure IsShortest (x : Finite) (d : Decimal) : Prop where
  readsBack : ReadsBack x d
  fewest : ∀ e, ReadsBack x e → d.digits.length ≤ e.digits.length
  closest : ∀ e, ReadsBack x e → e.digits.length = d.digits.length →
    |x.magnitude - d.toRat| ≤ |x.magnitude - e.toRat|
  even : ∀ e, ReadsBack x e → e.digits.length = d.digits.length → e.toRat ≠ d.toRat →
    |x.magnitude - e.toRat| = |x.magnitude - d.toRat| → Even d.coefficient
  zero : d.coefficient = 0 → d.exponent = 0

/-- Zero, for which any decimal with one digit might do. -/
theorem isShortest_zero_iff (hx : x.significand = 0) : IsShortest x d ↔ d = ⟨0, 0⟩ := by
  have hmagnitude := Finite.magnitude_eq_zero.mpr hx
  have hrat (q : Int) : toRat ⟨0, q⟩ = 0 := by rw [toRat_eq, Nat.cast_zero, zero_mul]
  have hreads : ReadsBack x ⟨0, 0⟩ := readsBack_of_toRat (by rw [hrat, hmagnitude])
  constructor
  · intro h
    have hlength : (mk 0 0).digits.length = d.digits.length :=
      le_antisymm (length_digits_pos d) (h.fewest _ hreads)
    have hclosest := h.closest _ hreads hlength
    rw [hrat, hmagnitude, sub_self, abs_zero, zero_sub, abs_neg] at hclosest
    have hzero : d.coefficient = 0 := by
      refine Nat.eq_zero_of_not_pos fun hpos => ?_
      exact absurd (abs_nonpos_iff.mp hclosest) (toRat_pos_iff.mpr hpos).ne'
    have hexponent := h.zero hzero
    obtain ⟨coefficient, exponent⟩ := d
    obtain rfl : coefficient = 0 := hzero
    obtain rfl : exponent = 0 := hexponent
    rfl
  · rintro rfl
    refine ⟨hreads, fun e _ => length_digits_pos e, fun e _ _ => ?_, fun _ _ _ _ _ => ⟨0, rfl⟩,
      fun _ => rfl⟩
    rw [hrat, hmagnitude, sub_zero, abs_zero]
    exact abs_nonneg _

/-- What the search finds has the fewest digits. -/
theorem isShortest_shortest (hx : x.significand ≠ 0) : IsShortest x (shortest x) := by
  obtain ⟨d, n, h, hn, hlength, hrat, hcarry⟩ := exists_found_shortest hx
  have hreads : ReadsBack x (shortest x) := readsBack_shortest hx
  refine ⟨hreads, fun e he => ?_, fun e he hsame => ?_, fun e he hsame hne htie => ?_,
    fun hzero => ?_⟩
  · -- fewer digits would have been found on a coarser grid
    by_contra hlt
    rw [hlength, not_le] at hlt
    have hpos := length_digits_pos e
    obtain ⟨m, hm⟩ : ∃ m, e.digits.length = m + 1 := ⟨_, (Nat.succ_pred_eq_of_pos hpos).symm⟩
    obtain ⟨k, hk, -⟩ := exists_point_of_length_le hx he rfl hm.le
    exact h.coarsest _ (by omega) (by omega) k hk
  · rw [hrat]
    obtain ⟨k, hk, heq | hlt⟩ := exists_point_of_length_le hx he hn (hsame.trans hlength).le
    · exact heq ▸ h.best.closest k hk
    · exact (h.best.closest k hk).trans hlt.le
  · rw [hrat] at hne htie
    obtain ⟨k, hk, heq | hlt⟩ := exists_point_of_length_le hx he hn (hsame.trans hlength).le
    · rw [← heq] at hne htie
      have hkd : k ≠ d.coefficient := by
        rintro rfl
        exact hne rfl
      rcases hcarry with hshortest | ⟨hten, hfirst⟩
      · rw [hshortest]
        exact (h.best.even k hk hkd htie).1
      · -- `10` becomes `1`, which is odd, but has no rival
        obtain ⟨coefficient, q⟩ := d
        obtain rfl : coefficient = 10 := hten
        obtain rfl : q = Int.log 10 x.magnitude := by
          rwa [hfirst, Nat.cast_zero, sub_zero] at hn
        have hlt : x.magnitude < toRat ⟨10 * 1, Int.log 10 x.magnitude⟩ := by
          rw [toRat_ten_mul, toRat_one]
          exact Int.lt_zpow_succ_log_self (by decide) x.magnitude
        exact absurd htie (h.best.ne_tie hx hlt hk hkd)
    · exact absurd (h.best.closest k hk) (htie ▸ hlt).not_ge
  · exact absurd hzero (toRat_pos_iff.mp (hreads.pos hx)).ne'

/-! ## Uniqueness -/

/-- A decimal with the fewest digits does not end with a zero. -/
theorem IsShortest.not_dvd (hx : x.significand ≠ 0) (h : IsShortest x d) :
    ¬ 10 ∣ d.coefficient := by
  rintro ⟨k, hk⟩
  have hpos := toRat_pos_iff.mp (h.readsBack.pos hx)
  have hreads : ReadsBack x ⟨k, d.exponent + 1⟩ := by
    rw [ReadsBack, ← toRat_ten_mul, ← hk]
    exact h.readsBack
  have hfewest := h.fewest _ hreads
  have hkpos : 0 < k := by omega
  rw [length_digits hpos, length_digits (d := ⟨k, _⟩) hkpos, hk,
    Nat.mul_comm, Nat.log_mul_base (by decide) hkpos.ne'] at hfewest
  exact absurd hfewest (Nat.not_succ_le_self _)

/-- Without a zero at the end a decimal is on no coarser grid. -/
theorem exponent_le_of_toRat_eq (hd : ¬ 10 ∣ d.coefficient) (h : toRat ⟨k, q⟩ = d.toRat) :
    q ≤ d.exponent := by
  by_contra hlt
  have hcoefficient := coefficient_eq ((toRat_finer k (not_le.mp hlt).le).trans h)
  refine hd ?_
  rw [← hcoefficient]
  exact Dvd.dvd.mul_left (dvd_pow_self 10 (by omega)) k

/-- So it is known from its value. -/
theorem eq_of_toRat_eq (hd : ¬ 10 ∣ d.coefficient) (he : ¬ 10 ∣ e.coefficient)
    (h : d.toRat = e.toRat) : d = e := by
  have hexponent : d.exponent = e.exponent :=
    le_antisymm (exponent_le_of_toRat_eq he h) (exponent_le_of_toRat_eq hd h.symm)
  obtain ⟨c, q⟩ := d
  obtain ⟨c', q'⟩ := e
  obtain rfl : q = q' := hexponent
  rw [show c = c' from coefficient_eq (d := ⟨c', q⟩) h]

/-- Two decimals as close to the number would both have to be even, and one of them is odd. -/
theorem IsShortest.toRat_eq (hx : x.significand ≠ 0) (hd : IsShortest x d) :
    d.toRat = (shortest x).toRat := by
  have hs := isShortest_shortest hx
  obtain ⟨f, n, h, hn, hlength, hrat, -⟩ := exists_found_shortest hx
  have hsame : d.digits.length = (shortest x).digits.length :=
    le_antisymm (hd.fewest _ hs.readsBack) (hs.fewest _ hd.readsBack)
  have htie : |x.magnitude - d.toRat| = |x.magnitude - (shortest x).toRat| :=
    le_antisymm (hd.closest _ hs.readsBack hsame.symm) (hs.closest _ hd.readsBack hsame)
  by_contra hne
  have heven := hd.even _ hs.readsBack hsame.symm (Ne.symm hne) htie.symm
  rw [hrat] at hne htie
  obtain ⟨k, hk, heq | hlt⟩ :=
    exists_point_of_length_le hx hd.readsBack hn (hsame.trans hlength).le
  · have hkf : k ≠ f.coefficient := by
      rintro rfl
      exact hne heq.symm
    have hodd := (h.best.even k hk hkf (heq ▸ htie)).2
    have hnot : ¬ 10 ∣ k :=
      fun hdvd => hodd (even_iff_two_dvd.mpr ((by decide : 2 ∣ 10).trans hdvd))
    have hdk : d = ⟨k, f.exponent⟩ := eq_of_toRat_eq (hd.not_dvd hx) hnot heq.symm
    rw [hdk] at heven
    exact hodd heven
  · exact absurd (h.best.closest k hk) (htie ▸ hlt).not_ge

/-- **Shortest decimals.**  For every number exactly one decimal reads back with the fewest digits,
is the closest of those and has the even coefficient of two, and it is the one that is found. -/
theorem isShortest_iff : IsShortest x d ↔ d = shortest x := by
  by_cases hx : x.significand = 0
  · rw [isShortest_zero_iff hx, shortest, if_pos hx]
  · constructor
    · intro hd
      exact eq_of_toRat_eq (hd.not_dvd hx) ((isShortest_shortest hx).not_dvd hx) (hd.toRat_eq hx)
    · rintro rfl
      exact isShortest_shortest hx

theorem isShortest (x : Finite) : IsShortest x (shortest x) := isShortest_iff.mpr rfl

end LineCalc.Decimal
