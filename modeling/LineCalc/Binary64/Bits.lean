import LineCalc.Binary64.Basic

/-!
# Bit patterns

The interchange format: a sign bit, eleven bits of biased exponent and fifty-two bits of fraction.
`2 ^ 63`, `2 ^ 52` and `2 ^ 11` are written `0x8000000000000000`, `0x10000000000000` and `0x800`.

    ofBits (toBits x) = x      (ofBits_toBits)
-/

namespace LineCalc.Binary64

/-- The number that a pattern of 64 bits, read as a natural number, stands for. -/
def ofBits (bits : Nat) : Binary64 :=
  let negative := decide (0x8000000000000000 ≤ bits)
  let biased := bits / 0x10000000000000 % 0x800
  let fraction := bits % 0x10000000000000
  if _ : biased = 0x7FF then (if fraction = 0 then .infinity negative else .nan)
  else if _ : biased = 0 then .finite ⟨negative, fraction, -1074, by unfold Canonical; omega⟩
  else .finite ⟨negative, 0x10000000000000 + fraction, biased - 1075, by unfold Canonical; omega⟩

/-- The pattern of a number; of those that stand for no number, the one with the first fraction
bit set. -/
def toBits : Binary64 → Nat
  | .finite x =>
    (if x.negative then 0x8000000000000000 else 0) +
      (if x.significand < 0x10000000000000 then x.significand
       else (x.exponent + 1074).toNat * 0x10000000000000 + x.significand)
  | .infinity negative => (if negative then 0x8000000000000000 else 0) + 0x7FF0000000000000
  | .nan => 0x7FF8000000000000

theorem ofBits_eq_finite {bits m : Nat} {q : Int} {negative : Bool} (h : Canonical m q)
    (hs : decide (0x8000000000000000 ≤ bits) = negative)
    (hq : bits / 0x10000000000000 % 0x800 =
      if m < 0x10000000000000 then 0 else (q + 1075).toNat)
    (hm : bits % 0x10000000000000 = m % 0x10000000000000) :
    ofBits bits = .finite ⟨negative, m, q, h⟩ := by
  obtain ⟨hlt, hmin, hmax, hfull⟩ := h
  unfold ofBits
  split at hq
  · have hq0 : q = -1074 := by omega
    simp only [hq, hs, hm, Nat.mod_eq_of_lt ‹m < _›, hq0]
    rfl
  · have h1 : ¬ (q + 1075).toNat = 0x7FF := by omega
    have h2 : ¬ (q + 1075).toNat = 0 := by omega
    have h3 : 0x10000000000000 + m % 0x10000000000000 = m := by omega
    have h4 : (((q + 1075).toNat : Nat) : Int) - 1075 = q := by omega
    simp only [hq, hs, hm, h1, h2, h3, h4, dite_false]

theorem ofBits_toBits (x : Binary64) : ofBits (toBits x) = x := by
  cases x with
  | nan => decide
  | infinity negative => cases negative <;> decide
  | finite x =>
    obtain ⟨negative, m, q, h⟩ := x
    obtain ⟨hlt, hmin, hmax, hfull⟩ := h
    apply ofBits_eq_finite
    all_goals cases negative <;> by_cases hs : m < 0x10000000000000 <;>
      simp only [toBits, hs, if_true, if_false, decide_eq_true_eq, decide_eq_false_iff_not,
        Bool.false_eq_true] <;> omega

end LineCalc.Binary64
