import LineCalc.Token.Lexeme

/-!
# Classes of characters

No character belongs to two of the classes that a lexeme can begin with.  Blanks, digits and
letters are ascending lists of intervals, and one pass over two of them shows that they are apart:

    apart a b → n in an interval of a → n in no interval of b        (Intervals.not_mem_of_apart)

The marks, which are operators and parentheses, belong to none of the three (`not_class_of_mark`).
-/

namespace LineCalc

namespace Text

namespace Intervals

/-- Whether the intervals follow each other, none of them empty, from `lo` on. -/
def ascendFrom (lo : Nat) : Intervals → Bool
  | [] => true
  | i :: rest => lo ≤ i.1 && i.1 ≤ i.2 && ascendFrom (i.2 + 1) rest

/-- Whether no two intervals meet, going up in both lists at a time. -/
def apart : Intervals → Intervals → Bool
  | [], _ => true
  | i :: a, b =>
    let above := b.dropWhile fun j => j.2 < i.1
    above.head?.all (i.2 < ·.1) && apart a above

theorem ascendFrom_cons {lo : Nat} {i : Nat × Nat} {rest : Intervals} :
    ascendFrom lo (i :: rest) = true ↔
      lo ≤ i.1 ∧ i.1 ≤ i.2 ∧ ascendFrom (i.2 + 1) rest = true := by
  rw [ascendFrom]
  simp only [Bool.and_eq_true, decide_eq_true_eq, and_assoc]

theorem le_of_ascendFrom {lo : Nat} {a : Intervals} (h : a.ascendFrom lo = true) :
    ∀ i ∈ a, lo ≤ i.1 := by
  induction a generalizing lo with
  | nil => simp
  | cons k rest ih =>
    obtain ⟨hlo, hk, hrest⟩ := ascendFrom_cons.mp h
    intro i hi
    rcases List.mem_cons.mp hi with rfl | hi
    · exact hlo
    · have := ih hrest i hi
      omega

theorem ascendFrom_dropWhile {lo : Nat} {a : Intervals} (h : a.ascendFrom lo = true)
    (p : Nat × Nat → Bool) : ∃ lo', ascendFrom lo' (a.dropWhile p) = true := by
  induction a generalizing lo with
  | nil => exact ⟨lo, rfl⟩
  | cons k rest ih =>
    rw [List.dropWhile_cons]
    split
    · exact ih (ascendFrom_cons.mp h).2.2
    · exact ⟨lo, h⟩

theorem mem_dropWhile {α : Type} {p : α → Bool} {l : List α} {x : α} (h : x ∈ l)
    (hx : p x = false) : x ∈ l.dropWhile p := by
  induction l with
  | nil => cases h
  | cons y rest ih =>
    rw [List.dropWhile_cons]
    rcases List.mem_cons.mp h with rfl | h
    · simp [hx]
    · split
      · exact ih h
      · exact List.mem_cons_of_mem _ h

theorem not_mem_of_apart {a b : Intervals} {lo lo' : Nat} (ha : a.ascendFrom lo = true)
    (hb : b.ascendFrom lo' = true) (h : a.apart b = true) {n : Nat}
    (hi : ∃ i ∈ a, i.1 ≤ n ∧ n ≤ i.2) (hj : ∃ j ∈ b, j.1 ≤ n ∧ n ≤ j.2) : False := by
  obtain ⟨i, hi, hi₁, hi₂⟩ := hi
  obtain ⟨j, hj, hj₁, hj₂⟩ := hj
  induction a generalizing b lo lo' with
  | nil => cases hi
  | cons k a ih =>
    obtain ⟨-, hk, hrest⟩ := ascendFrom_cons.mp ha
    have hki : k.1 ≤ i.1 := by
      rcases List.mem_cons.mp hi with rfl | hi
      · exact Nat.le_refl _
      · have := le_of_ascendFrom hrest i hi
        omega
    -- what lies below `k` holds no `n`, so the interval of `b` is not dropped
    have hmem : j ∈ b.dropWhile fun j => j.2 < k.1 := mem_dropWhile hj (by simp; omega)
    obtain ⟨low, hlow⟩ := ascendFrom_dropWhile hb fun j => j.2 < k.1
    simp only [apart, Bool.and_eq_true] at h
    rcases List.mem_cons.mp hi with rfl | hi
    · cases hd : b.dropWhile fun j => j.2 < i.1 with
      | nil =>
        rw [hd] at hmem
        cases hmem
      | cons first above =>
        rw [hd] at h hmem hlow
        have hfirst : i.2 < first.1 := by simpa using h.1
        obtain ⟨-, hle, habove⟩ := ascendFrom_cons.mp hlow
        rcases List.mem_cons.mp hmem with rfl | hmem
        · omega
        · have := le_of_ascendFrom habove j hmem
          omega
    · exact ih hrest hlow h.2 hi hmem

end Intervals

/-- The runs of digits from zero to nine. -/
def digits : Intervals := zeros.map fun z => (z, z + 9)

theorem exists_of_isDigit {c : Char} (h : isDigit c = true) :
    ∃ i ∈ digits, i.1 ≤ c.toNat ∧ c.toNat ≤ i.2 := by
  rw [isDigit, digitValue?, Option.isSome_map] at h
  obtain ⟨z, hz⟩ := Option.isSome_iff_exists.mp h
  have hb := List.find?_some hz
  simp only [Bool.and_eq_true, decide_eq_true_eq] at hb
  exact ⟨(z, z + 9), List.mem_map.mpr ⟨z, List.mem_of_find?_eq_some hz, rfl⟩, hb.1, by
    show c.toNat ≤ z + 9
    omega⟩

theorem blanks_ascend : blanks.ascendFrom 0 = true := by decide

theorem digits_ascend : digits.ascendFrom 0 = true := by decide +kernel

theorem letters_ascend : letters.ascendFrom 0 = true := by decide +kernel

theorem blanks_apart_digits : blanks.apart digits = true := by decide +kernel

theorem blanks_apart_letters : blanks.apart letters = true := by decide +kernel

theorem digits_apart_letters : digits.apart letters = true := by decide +kernel

theorem isBlank_of_isDigit {c : Char} (h : isDigit c = true) : isBlank c = false := by
  refine Bool.eq_false_iff.mpr fun hb => ?_
  exact Intervals.not_mem_of_apart blanks_ascend digits_ascend blanks_apart_digits
    (Intervals.exists_of_contains hb) (exists_of_isDigit h)

theorem isBlank_of_isLetter {c : Char} (h : isLetter c = true) : isBlank c = false := by
  refine Bool.eq_false_iff.mpr fun hb => ?_
  exact Intervals.not_mem_of_apart blanks_ascend letters_ascend blanks_apart_letters
    (Intervals.exists_of_contains hb) (Intervals.exists_of_contains h)

theorem isDigit_of_isLetter {c : Char} (h : isLetter c = true) : isDigit c = false := by
  refine Bool.eq_false_iff.mpr fun hd => ?_
  exact Intervals.not_mem_of_apart digits_ascend letters_ascend digits_apart_letters
    (exists_of_isDigit hd) (Intervals.exists_of_contains h)

end Text

namespace Token

open Text (isBlank isDigit isLetter)

/-! ## What a lexeme begins with -/

theorem isBlank_of_continuesName {c : Char} (h : continuesName c = true) : isBlank c = false := by
  simp only [continuesName, Bool.or_eq_true, beq_iff_eq] at h
  rcases h with (hl | hd) | rfl
  · exact Text.isBlank_of_isLetter hl
  · exact Text.isBlank_of_isDigit hd
  · decide

theorem continuesName_of_beginsName {c : Char} (h : beginsName c = true) :
    continuesName c = true := by
  simp only [beginsName, continuesName, Bool.or_eq_true] at h ⊢
  exact h.elim (fun hl => .inl (.inl hl)) .inr

theorem continuesName_of_isDigit {c : Char} (h : isDigit c = true) : continuesName c = true := by
  simp [continuesName, h]

theorem isDigit_of_beginsName {c : Char} (h : beginsName c = true) : isDigit c = false := by
  simp only [beginsName, Bool.or_eq_true, beq_iff_eq] at h
  rcases h with hl | rfl
  · exact Text.isDigit_of_isLetter hl
  · decide

/-- An operator or a parenthesis neither separates lexemes nor belongs to a number or a name. -/
theorem not_class_of_mark {c : Char} (h : c ∈ operatorChars ∨ c ∈ parenthesisChars) :
    isBlank c = false ∧ continuesName c = false ∧ c ≠ '.' := by
  have all : (operatorChars ++ parenthesisChars).all
      (fun c => !isBlank c && !continuesName c && c != '.') = true := by decide +kernel
  have hc := List.all_eq_true.mp all c (List.mem_append.mpr h)
  simpa [and_assoc] using hc

end Token

end LineCalc
