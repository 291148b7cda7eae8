import Mathlib.Algebra.Group.Nat.Defs
import LineCalc.Text.Quoted
import LineCalc.Proofs.Text.Lines

/-!
# Quoted texts

A quoted text has no character that is not printable, whatever it quotes: an unprintable character
is written by letters and digits behind a backslash.  The text is read back from it, so no two texts
are quoted alike:

    Printable (quote s)                  (printable_quote)
    unquote? (quote s) = some s          (unquote?_quote)
    quote s = quote t ↔ s = t            (quote_inj)

An escape is undone whatever follows it, hexadecimal digits or another backslash included, because
the letter behind the backslash fixes the number of digits (`unescape?_escape`).
-/

namespace LineCalc.Text

/-! ## Characters of quoted texts -/

theorem isPrintable_digitChar {d : Nat} (h : d < 16) : isPrintable d.digitChar = true := by
  have all : (List.range 16).all (fun d => isPrintable d.digitChar) = true := by decide +kernel
  exact List.all_eq_true.mp all d (List.mem_range.mpr h)

theorem printable_hexDigits (width n : Nat) : Printable (hexDigits width n) := by
  induction width generalizing n with
  | zero => exact List.forall_mem_nil _
  | succ width ih =>
    have hdigit := isPrintable_digitChar (Nat.mod_lt n (by decide : 0 < 16))
    exact printable_append.mpr ⟨ih (n / 16), List.forall_mem_singleton.mpr hdigit⟩

/-- A numbered escape is a backslash, a letter and digits. -/
theorem printable_hexEscape (c : Char) : Printable (hexEscape c) := by
  have hescape (letter : Char) (h : isPrintable letter = true) (width : Nat) :
      Printable ('\\' :: letter :: hexDigits width c.toNat) :=
    printable_cons.mpr ⟨by decide, printable_cons.mpr ⟨h, printable_hexDigits width c.toNat⟩⟩
  unfold hexEscape
  split
  · exact hescape 'x' (by decide) 2
  · split
    · exact hescape 'u' (by decide) 4
    · exact hescape 'U' (by decide) 8

theorem printable_escape {mark : Char} (hmark : isPrintable mark = true) (c : Char) :
    Printable (escape mark c) := by
  unfold escape
  split
  · rename_i hc
    rcases hc with rfl | rfl
    · exact printable_cons.mpr ⟨by decide, List.forall_mem_singleton.mpr hmark⟩
    · decide
  · repeat' split
    · decide
    · decide
    · decide
    · exact List.forall_mem_singleton.mpr ‹_›
    · exact printable_hexEscape c

theorem isPrintable_quoteMark (s : Text) : isPrintable (quoteMark s) = true := by
  unfold quoteMark
  split
  · decide
  · decide

/-- Whatever a text holds, its quoted form can be shown. -/
theorem printable_quote (s : Text) : Printable (quote s) := by
  have hmark := isPrintable_quoteMark s
  refine printable_cons.mpr ⟨hmark, printable_append.mpr ⟨fun d hd => ?_, ?_⟩⟩
  · obtain ⟨c, -, hd⟩ := List.mem_flatMap.mp hd
    exact printable_escape hmark c d hd
  · exact List.forall_mem_singleton.mpr hmark

/-! ## Escapes undone -/

theorem hexValue?_digitChar {d : Nat} (h : d < 16) : hexValue? d.digitChar = some d := by
  have all : ∀ d < 16, hexValue? d.digitChar = some d := by decide
  exact all d h

variable {mark : Char}

/-- A digit of a numbered escape, not the last one. -/
theorem unescape?_digit {d : Nat} (hd : d < 16) (k value : Nat) (rest : Text) :
    unescape? mark (.numbered (k + 2) value) (d.digitChar :: rest) =
      unescape? mark (.numbered (k + 1) (16 * value + d)) rest := by
  rw [unescape?, hexValue?_digitChar hd]
  exact if_neg (by omega)

theorem unescape?_lastDigit {d : Nat} (hd : d < 16) (value : Nat) (rest : Text) :
    unescape? mark (.numbered 1 value) (d.digitChar :: rest) =
      (unescape? mark .plain rest).map (Char.ofNat (16 * value + d) :: ·) := by
  rw [unescape?, hexValue?_digitChar hd]
  exact if_pos (Nat.le_refl 1)

/-- All digits that come before another one. -/
theorem unescape?_hexDigits (width k n : Nat) (rest : Text) :
    unescape? mark (.numbered (width + (k + 1)) 0) (hexDigits width n ++ rest) =
      unescape? mark (.numbered (k + 1) (n % 16 ^ width)) rest := by
  induction width generalizing n k rest with
  | zero => rw [hexDigits, List.nil_append, Nat.zero_add, Nat.pow_zero, Nat.mod_one]
  | succ width ih =>
    have hvalue : 16 * (n / 16 % 16 ^ width) + n % 16 = n % 16 ^ (width + 1) := by
      rw [Nat.pow_succ', Nat.mod_mul, Nat.add_comm]
    rw [hexDigits, List.append_assoc, Nat.add_right_comm, Nat.add_assoc, ih (k + 1) (n / 16),
      List.singleton_append, unescape?_digit (Nat.mod_lt n (by decide)), hvalue]

/-- A numbered escape with enough digits, and nothing of what is behind it. -/
theorem unescape?_numbered {width : Nat} {c : Char} (h : c.toNat < 16 ^ (width + 1)) (rest : Text) :
    unescape? mark (.numbered (width + 1) 0) (hexDigits (width + 1) c.toNat ++ rest) =
      (unescape? mark .plain rest).map (c :: ·) := by
  have hvalue : 16 * (c.toNat / 16 % 16 ^ width) + c.toNat % 16 = c.toNat := by
    rw [Nat.pow_succ'] at h
    rw [Nat.mod_eq_of_lt (Nat.div_lt_of_lt_mul h)]
    omega
  rw [hexDigits, List.append_assoc, unescape?_hexDigits width 0, List.singleton_append,
    unescape?_lastDigit (Nat.mod_lt _ (by decide)), hvalue, Char.ofNat_toNat]

theorem toNat_lt_pow (c : Char) : c.toNat < 16 ^ (7 + 1) := by
  have h : c.toNat < 0x110000 := by
    rcases c.valid with h | ⟨-, h⟩
    · exact Nat.lt_trans h (by decide)
    · exact h
  exact Nat.lt_trans h (by decide)

section
variable (hmark : mark = '\'' ∨ mark = '"')
include hmark

theorem unescape?_backslash (rest : Text) :
    unescape? mark .plain ('\\' :: rest) = unescape? mark .escaped rest := by
  have hne : '\\' ≠ mark := by rcases hmark with rfl | rfl <;> decide
  rw [unescape?, if_neg hne, if_pos rfl]

theorem unescape?_hexEscape (c : Char) (rest : Text) :
    unescape? mark .plain (hexEscape c ++ rest) = (unescape? mark .plain rest).map (c :: ·) := by
  unfold hexEscape
  split
  · rename_i h
    rw [List.cons_append, unescape?_backslash hmark]
    exact unescape?_numbered h rest
  · split
    · rename_i h
      rw [List.cons_append, unescape?_backslash hmark]
      exact unescape?_numbered h rest
    · rw [List.cons_append, unescape?_backslash hmark]
      exact unescape?_numbered (toNat_lt_pow c) rest

/-- An escape is undone, whatever follows it. -/
theorem unescape?_escape (c : Char) (rest : Text) :
    unescape? mark .plain (escape mark c ++ rest) =
      (unescape? mark .plain rest).map (c :: ·) := by
  unfold escape
  split
  · -- the mark or a backslash stands for itself behind a backslash
    rename_i hc
    rw [List.cons_append, unescape?_backslash hmark]
    rcases hc with rfl | rfl
    · rcases hmark with rfl | rfl <;> rfl
    · rfl
  · rename_i hc
    obtain ⟨hcmark, hcbackslash⟩ := not_or.mp hc
    repeat' split
    · rename_i hn
      rw [List.cons_append, unescape?_backslash hmark, hn]
      rfl
    · rename_i hr
      rw [List.cons_append, unescape?_backslash hmark, hr]
      rfl
    · rename_i ht
      rw [List.cons_append, unescape?_backslash hmark, ht]
      rfl
    · rw [List.singleton_append, unescape?, if_neg hcmark, if_neg hcbackslash]
    · exact unescape?_hexEscape hmark c rest

theorem unescape?_escapes (s : Text) :
    unescape? mark .plain (s.flatMap (escape mark) ++ [mark]) = some s := by
  induction s with
  | nil => rw [List.flatMap_nil, List.nil_append, unescape?, if_pos rfl, if_pos rfl]
  | cons c s ih =>
    rw [List.flatMap_cons, List.append_assoc, unescape?_escape hmark, ih]
    rfl

end

/-- Whatever a text holds, it is read back from its quoted form. -/
theorem unquote?_quote (s : Text) : unquote? (quote s) = some s := by
  refine unescape?_escapes ?_ s
  unfold quoteMark
  split
  · exact .inr rfl
  · exact .inl rfl

theorem quote_inj {s t : Text} : quote s = quote t ↔ s = t := by
  constructor
  · intro h
    have hread := unquote?_quote s
    rw [h, unquote?_quote t] at hread
    exact (Option.some.inj hread).symm
  · rintro rfl
    rfl

end LineCalc.Text
