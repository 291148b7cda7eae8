import LineCalc.Text.Blank
import LineCalc.Text.Printable

/-!
# Lines of a text

A text breaks into lines at any of the line breaks, not at line feeds alone.  Printable characters
do not break it, and neither do those of a lexeme, none of which is a blank.  Lines without a break
that are joined by line feeds are found again, the empty ones too as long as the last is none:

    breakLines (l ++ '\n' :: rest) = l :: breakLines rest            (breakLines_append)
    breakLines (['\n'].intercalate ls) = ls                          (breakLines_intercalate)

What stands before a separator is known from the whole, as long as the separator is not in it
(`append_separator_inj`).
-/

namespace LineCalc.Text

/-- Whether the text is no more than one line. -/
def Unbroken (s : Text) : Prop := ∀ c ∈ s, c ∉ lineBreaks

/-- Whether a text can be shown as it is. -/
def Printable (s : Text) : Prop := ∀ c ∈ s, isPrintable c = true

instance (s : Text) : Decidable (Unbroken s) := List.decidableBAll _ s

instance (s : Text) : Decidable (Printable s) := List.decidableBAll _ s

/-- The lines of a text, without the breaks between them.  A carriage return and the line feed
behind it are one break, and behind the last break there is no further line unless it has a
character. -/
def breakLines : Text → List Text
  | [] => []
  | c :: rest =>
    if c = '\r' ∧ rest.head? = some '\n' then breakLines rest
    else if c ∈ lineBreaks then [] :: breakLines rest
    else
      match breakLines rest with
      | [] => [[c]]
      | line :: more => (c :: line) :: more

/-! ## Texts without breaks -/

theorem printable_append {s t : Text} : Printable (s ++ t) ↔ Printable s ∧ Printable t :=
  List.forall_mem_append

theorem printable_cons {c : Char} {s : Text} :
    Printable (c :: s) ↔ isPrintable c = true ∧ Printable s :=
  List.forall_mem_cons

theorem unbroken_append {s t : Text} : Unbroken (s ++ t) ↔ Unbroken s ∧ Unbroken t :=
  List.forall_mem_append

theorem unbroken_cons {c : Char} {s : Text} : Unbroken (c :: s) ↔ c ∉ lineBreaks ∧ Unbroken s :=
  List.forall_mem_cons

theorem not_mem_lineBreaks_of_isPrintable {c : Char} (h : isPrintable c = true) :
    c ∉ lineBreaks := by
  have all : lineBreaks.all (fun c => !isPrintable c) = true := by decide +kernel
  intro hc
  have hc := List.all_eq_true.mp all c hc
  rw [h] at hc
  cases hc

theorem Printable.unbroken {s : Text} (h : Printable s) : Unbroken s :=
  fun c hc => not_mem_lineBreaks_of_isPrintable (h c hc)

theorem unbroken_of_isBlank {s : Text} (h : ∀ c ∈ s, isBlank c = false) : Unbroken s := by
  intro c hc hb
  have hblank := h c hc
  rw [isBlank_of_mem_lineBreaks hb] at hblank
  cases hblank

/-! ## Reading lines -/

theorem breakLines_cons {c : Char} (h : c ∉ lineBreaks) (rest : Text) :
    breakLines (c :: rest) =
      match breakLines rest with
      | [] => [[c]]
      | line :: more => (c :: line) :: more := by
  have hr : c ≠ '\r' := by
    rintro rfl
    exact h (by decide)
  rw [breakLines, if_neg fun hc => hr hc.1, if_neg h]

theorem breakLines_append {l : Text} (h : Unbroken l) (rest : Text) :
    breakLines (l ++ '\n' :: rest) = l :: breakLines rest := by
  induction l with
  | nil =>
    rw [List.nil_append, breakLines, if_neg fun hc => absurd hc.1 (by decide), if_pos (by decide)]
  | cons c l ih =>
    obtain ⟨hc, hl⟩ := unbroken_cons.mp h
    rw [List.cons_append, breakLines_cons hc, ih hl]

theorem breakLines_of_unbroken {l : Text} (h : Unbroken l) (hne : l ≠ []) :
    breakLines l = [l] := by
  induction l with
  | nil => exact absurd rfl hne
  | cons c l ih =>
    obtain ⟨hc, hl⟩ := unbroken_cons.mp h
    rw [breakLines_cons hc]
    cases l with
    | nil => rfl
    | cons d l => rw [ih hl (by simp)]

/-- Lines that are joined by line feeds are found again. -/
theorem breakLines_intercalate {ls : List Text} (h : ∀ l ∈ ls, Unbroken l)
    (hlast : ∀ l ∈ ls.getLast?, l ≠ []) : breakLines (['\n'].intercalate ls) = ls := by
  induction ls with
  | nil => rfl
  | cons l ls ih =>
    obtain ⟨hl, hls⟩ := List.forall_mem_cons.mp h
    cases ls with
    | nil =>
      rw [List.intercalate_singleton]
      exact breakLines_of_unbroken hl (hlast l rfl)
    | cons m ls =>
      rw [List.intercalate_cons_cons, List.append_assoc, List.singleton_append,
        breakLines_append hl, ih hls fun x hx => hlast x (by rwa [List.getLast?_cons_cons])]

/-- Where lines have no break in them, the breaks are what joins them. -/
theorem eq_of_mem_intercalate {ls : List Text} {c mark : Char} (h : ∀ l ∈ ls, Unbroken l)
    (hc : c ∈ [mark].intercalate ls) (hbreak : c ∈ lineBreaks) : c = mark := by
  induction ls with
  | nil => cases hc
  | cons l ls ih =>
    obtain ⟨hl, hls⟩ := List.forall_mem_cons.mp h
    cases ls with
    | nil =>
      rw [List.intercalate_singleton] at hc
      exact absurd hbreak (hl c hc)
    | cons m ls =>
      rw [List.intercalate_cons_cons, List.append_assoc, List.mem_append, List.mem_append,
        List.mem_singleton] at hc
      rcases hc with hc | rfl | hc
      · exact absurd hbreak (hl c hc)
      · rfl
      · exact ih hls hc

/-! ## Separators -/

/-- The first separator tells the parts before and behind it. -/
theorem append_separator_inj {α : Type} {sep : α} {xs ys xs' ys' : List α} (hx : sep ∉ xs)
    (hy : sep ∉ ys) (h : xs ++ sep :: xs' = ys ++ sep :: ys') : xs = ys ∧ xs' = ys' := by
  induction xs generalizing ys with
  | nil =>
    cases ys with
    | nil => exact ⟨rfl, (List.cons.inj h).2⟩
    | cons y ys =>
      obtain ⟨rfl, -⟩ := List.cons.inj h
      exact absurd List.mem_cons_self hy
  | cons x xs ih =>
    cases ys with
    | nil =>
      obtain ⟨rfl, -⟩ := List.cons.inj h
      exact absurd List.mem_cons_self hx
    | cons y ys =>
      obtain ⟨rfl, hrest⟩ := List.cons.inj h
      obtain ⟨rfl, hbehind⟩ := ih (fun hm => hx (List.mem_cons_of_mem _ hm))
        (fun hm => hy (List.mem_cons_of_mem _ hm)) hrest
      exact ⟨rfl, hbehind⟩

end LineCalc.Text
