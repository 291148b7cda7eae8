import LineCalc.Display
import LineCalc.Proofs.Text.Lines

/-!
# Results are printable

The text of a result is made of digits, signs, a point, the `e` of an exponent, and the letters of
`inf` and `nan`, all of which can be shown.
-/

namespace LineCalc

open Text (Printable isPrintable printable_append printable_cons)

/-! ## Digits -/

theorem Text.isPrintable_of_asciiDigit {c : Char} (h : c.isDigit = true) :
    isPrintable c = true := by
  have all : (List.range 10).all (fun d => !unprintable.contains (48 + d)) = true := by decide
  simp only [Char.isDigit, Bool.and_eq_true, decide_eq_true_eq, UInt32.le_iff_toNat_le] at h
  have hlo : 48 ≤ c.toNat := h.1
  have hhi : c.toNat ≤ 57 := h.2
  have hc := List.all_eq_true.mp all (c.toNat - 48) (List.mem_range.mpr (by omega))
  rwa [show 48 + (c.toNat - 48) = c.toNat by omega] at hc

theorem Text.printable_toDigits (n : Nat) : Printable (Nat.toDigits 10 n) :=
  fun _ hc => isPrintable_of_asciiDigit (Nat.isDigit_of_mem_toDigits (by decide) (by decide) hc)

theorem Text.printable_zeros (n : Nat) : Printable (List.replicate n '0') := by
  intro c hc
  obtain rfl := List.eq_of_mem_replicate hc
  decide

theorem Text.Printable.take {s : Text} (h : Printable s) (n : Nat) : Printable (s.take n) :=
  fun c hc => h c (List.mem_of_mem_take hc)

theorem Text.Printable.drop {s : Text} (h : Printable s) (n : Nat) : Printable (s.drop n) :=
  fun c hc => h c (List.mem_of_mem_drop hc)

/-! ## Decimals -/

namespace Decimal

theorem printable_positional {digits : Text} (h : Printable digits) (point : Int) :
    Printable (positional digits point) := by
  unfold positional
  split
  · exact printable_append.mpr ⟨printable_append.mpr ⟨by decide, Text.printable_zeros _⟩, h⟩
  · split
    · exact printable_append.mpr ⟨h.take _, printable_cons.mpr ⟨by decide, h.drop _⟩⟩
    · exact printable_append.mpr ⟨printable_append.mpr ⟨h, Text.printable_zeros _⟩, by decide⟩

theorem printable_exponential {digits : Text} (h : Printable digits) (width : Nat) (e : Int) :
    Printable (exponential width digits e) := by
  have hfraction : Printable (if digits.length ≤ 1 then [] else '.' :: digits.drop 1) := by
    split
    · exact List.forall_mem_nil _
    · exact printable_cons.mpr ⟨by decide, h.drop 1⟩
  have hsign : Printable ['e', if e < 0 then '-' else '+'] := by
    split
    · decide
    · decide
  unfold exponential
  simp only [printable_append]
  exact ⟨⟨⟨⟨h.take 1, hfraction⟩, hsign⟩, Text.printable_zeros _⟩, Text.printable_toDigits _⟩

theorem Layout.printable_write (l : Layout) (d : Decimal) : Printable (l.write d) := by
  unfold Layout.write
  split
  · exact printable_positional (Text.printable_toDigits _) _
  · exact printable_exponential (Text.printable_toDigits _) _ _

end Decimal

/-! ## Results -/

namespace Binary64

theorem printable_signText (negative : Bool) : Printable (signText negative) := by
  cases negative with
  | false => decide
  | true => decide

theorem printable_shortestText (x : Binary64) : Printable x.shortestText := by
  cases x with
  | finite x => exact printable_append.mpr ⟨printable_signText _, layout.printable_write _⟩
  | infinity negative => exact printable_append.mpr ⟨printable_signText _, by decide⟩
  | nan => decide

theorem printable_integerText (i : Int) : Printable (integerText i) :=
  printable_append.mpr ⟨printable_signText _, Text.printable_toDigits _⟩

theorem printable_display (x : Binary64) : Printable x.display := by
  unfold display
  split
  · split
    · exact printable_integerText _
    · exact printable_shortestText _
  · exact printable_shortestText _

end Binary64

end LineCalc
