import Mathlib.Control.Monad.Basic
import LineCalc.Proofs.Binary64.Nearest
import LineCalc.Proofs.Decimal.Fraction
import LineCalc.Proofs.Expr.Evaluation

/-!
# Numbers are read correctly rounded

A number of any length has the double-precision value that is nearest to what its digits denote, so
it is the fraction alone that matters, not how it is written; and a greater fraction never has a
smaller value:

    n.Writes s → ((number s).evaluate = .ok x  ↔  Rounds n.toRat x)      (evaluate_number_eq_ok_iff)
    n.Writes s → m.Writes t → n.toRat = m.toRat → s and t have one value (evaluate_number_congr)
    n.Writes s → m.Writes t → n.toRat ≤ m.toRat → s is at most t         (evaluate_number_atMost)
-/

namespace LineCalc.Expr

open Binary64 (Rounds overflow)

variable {n m : Numeral} {s t : Text} {x y : Binary64}

theorem evaluate_number_of_writes (h : n.Writes s) :
    (number s).evaluate = .ok (Binary64.ofRat n.toRat) :=
  evaluates_iff.mp (.number h)

theorem evaluate_number_eq_ok_iff (h : n.Writes s) :
    (number s).evaluate = .ok x ↔ Rounds n.toRat x := by
  rw [evaluate_number_of_writes h, Except.ok.injEq]
  exact Binary64.rounds_iff.symm

theorem evaluate_number_congr (h : n.Writes s) (h' : m.Writes t) (heq : n.toRat = m.toRat) :
    (number s).evaluate = (number t).evaluate := by
  rw [evaluate_number_of_writes h, evaluate_number_of_writes h', heq]

theorem evaluate_number_atMost (h : n.Writes s) (h' : m.Writes t) (hle : n.toRat ≤ m.toRat)
    (hx : (number s).evaluate = .ok x) (hy : (number t).evaluate = .ok y) : x.AtMost y :=
  ((evaluate_number_eq_ok_iff h).mp hx).atMost ((evaluate_number_eq_ok_iff h').mp hy) hle

/-- A number without a sign is out of range on one side only. -/
theorem evaluate_number_eq_infinity_iff (h : n.Writes s) :
    (number s).evaluate = .ok (.infinity false) ↔ overflow ≤ n.toRat := by
  have hsign : decide (n.toRat < 0) = false := decide_eq_false n.toRat_nonneg.not_gt
  rw [evaluate_number_eq_ok_iff h, Binary64.rounds_infinity_iff, abs_of_nonneg n.toRat_nonneg,
    hsign]
  exact and_iff_left rfl

/-- **Correctly rounded numerals.**  A text of digits, of whatever scripts and however many, with a
point among them or without, has a value: the number nearest to the fraction that it denotes, the
even one of two, and infinity from half way beyond the largest number on.  Texts that denote the
same fraction have the same value, so zeros at either end make no difference, nor does a point that
nothing follows; and the value does not fall where the fraction grows. -/
theorem evaluate_number_rounds (h : n.Writes s) :
    n.toRat = (Nat.ofDigits 10 n.whole.reverse : Nat) +
      (Nat.ofDigits 10 n.fraction.reverse : Nat) / 10 ^ n.fraction.length ∧
    (∃ x, (number s).evaluate = .ok x) ∧
    (∀ x, (number s).evaluate = .ok x ↔ Rounds n.toRat x) ∧
    ((number s).evaluate = .ok (.infinity false) ↔
      2 ^ (1024 : Int) - 2 ^ (970 : Int) ≤ n.toRat) ∧
    (∀ (m : Numeral) (t : Text), m.Writes t → n.toRat = m.toRat →
      (number s).evaluate = (number t).evaluate) ∧
    (∀ (k l : Nat) (t : Text),
      Numeral.Writes ⟨List.replicate k 0 ++ n.whole, n.fraction ++ List.replicate l 0⟩ t →
        (number s).evaluate = (number t).evaluate) ∧
    ∀ (m : Numeral) (t : Text), m.Writes t → n.toRat ≤ m.toRat →
      ∀ x y, (number s).evaluate = .ok x → (number t).evaluate = .ok y → x.AtMost y := by
  refine ⟨?_, ⟨_, evaluate_number_of_writes h⟩, fun x => evaluate_number_eq_ok_iff h,
    evaluate_number_eq_infinity_iff h, fun m t => evaluate_number_congr h, ?_, ?_⟩
  · rw [Numeral.toRat_eq, Numeral.ofDigits_eq, Numeral.ofDigits_eq]
  · intro k l t h'
    exact evaluate_number_congr h h' (n.toRat_zeros k l).symm
  · intro m t h' hle x y
    exact evaluate_number_atMost h h' hle

/-- Half way between `2 ^ 53` and `2 ^ 53 + 2` the even significand is that of `2 ^ 53`. -/
theorem evaluate_number_half_way :
    let n : Numeral := ⟨[9, 0, 0, 7, 1, 9, 9, 2, 5, 4, 7, 4, 0, 9, 9, 3], []⟩
    let x : Binary64 := .finite ⟨false, 2 ^ 52, 1, by decide⟩
    n.Writes "9007199254740993".toList ∧
      (number "9007199254740993".toList).evaluate = .ok x ∧ Rounds n.toRat x ∧
      (number "009007199254740993.0".toList).evaluate = .ok x := by
  intro n x
  have h : n.Writes "9007199254740993".toList := Numeral.writes_of_ofText? rfl
  have hx : (number "9007199254740993".toList).evaluate = .ok x := by decide +kernel
  obtain ⟨-, -, hrounds, -, -, hzeros, -⟩ := evaluate_number_rounds h
  have hpadded : (number "9007199254740993".toList).evaluate =
      (number "009007199254740993.0".toList).evaluate :=
    hzeros 2 1 _ (Numeral.writes_of_ofText? rfl)
  exact ⟨h, hx, (hrounds x).mp hx, hpadded ▸ hx⟩

end LineCalc.Expr
