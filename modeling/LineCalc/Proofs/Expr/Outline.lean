import LineCalc.Expr.Outline
import LineCalc.Proofs.Spelling
import LineCalc.Proofs.Text.Lines

/-!
# An outline shows its tree and no other

The headings of two nodes tell their constructors apart, and the text in a heading is not escaped
but is all that follows its label.  A constructor has a fixed number of children, so the lines of a
tree end where they do whatever comes behind them:

    linesFrom d e ++ xs = linesFrom d u ++ ys → e = u ∧ xs = ys      (linesFrom_append_inj)

There is one line for each node, and none of them is empty.
-/

namespace LineCalc.Expr

open Text (Unbroken unbroken_append)

/-! ## The line of a node -/

/-- Whether the nodes differ in their children at most. -/
def SameNode : Expr → Expr → Prop
  | number text, number text' => text = text'
  | identifier name, identifier name' => name = name'
  | binary operator _ _, binary operator' _ _ => operator = operator'
  | parenthesized _, parenthesized _ => True
  | _, _ => False

/-- The first letter of a heading. -/
def initialLetter : Expr → Char
  | number _ => 'N'
  | identifier _ => 'I'
  | binary _ _ _ => 'O'
  | parenthesized _ => 'P'

theorem head?_heading (e : Expr) : e.heading.head? = some e.initialLetter := by
  cases e with
  | number | identifier | binary | parenthesized => rfl

theorem sameNode_of_heading {e u : Expr} (h : e.heading = u.heading) : e.SameNode u := by
  have hletter : e.initialLetter = u.initialLetter := by
    have hhead := congrArg List.head? h
    rw [head?_heading, head?_heading] at hhead
    exact Option.some.inj hhead
  cases e with
  | number text =>
    cases u with
    | number text' => exact List.append_cancel_left h
    | identifier | binary | parenthesized => simp [initialLetter] at hletter
  | identifier name =>
    cases u with
    | identifier name' => exact List.append_cancel_left h
    | number | binary | parenthesized => simp [initialLetter] at hletter
  | binary operator left right =>
    cases u with
    | binary operator' left' right' => exact List.append_cancel_left h
    | number | identifier | parenthesized => simp [initialLetter] at hletter
  | parenthesized inner =>
    cases u with
    | parenthesized inner' => trivial
    | number | identifier | binary => simp [initialLetter] at hletter

theorem sameNode_of_line {depth : Nat} {e u : Expr} (h : line depth e = line depth u) :
    e.SameNode u :=
  sameNode_of_heading (List.append_cancel_left h)

theorem line_ne_nil (depth : Nat) (e : Expr) : line depth e ≠ [] := by
  have hheading : e.heading ≠ [] := by
    intro h
    have hhead := head?_heading e
    rw [h] at hhead
    cases hhead
  exact List.append_ne_nil_of_right_ne_nil _ hheading

/-! ## The lines of a tree -/

theorem length_linesFrom (depth : Nat) (e : Expr) : (linesFrom depth e).length = e.size := by
  induction e generalizing depth with
  | number | identifier => rfl
  | binary operator left right ihl ihr => simp [linesFrom, size, ihl, ihr]
  | parenthesized inner ih => simp [linesFrom, size, ih]

theorem linesFrom_ne_nil {depth : Nat} {e : Expr} : ∀ l ∈ linesFrom depth e, l ≠ [] := by
  induction e generalizing depth with
  | number | identifier => exact List.forall_mem_singleton.mpr (line_ne_nil _ _)
  | binary operator left right ihl ihr =>
    exact List.forall_mem_cons.mpr ⟨line_ne_nil _ _, List.forall_mem_append.mpr ⟨ihl, ihr⟩⟩
  | parenthesized inner ih => exact List.forall_mem_cons.mpr ⟨line_ne_nil _ _, ih⟩

/-- The lines of a tree determine it, and where they end, in any longer list. -/
theorem linesFrom_append_inj {e u : Expr} {depth : Nat} {xs ys : List Text}
    (h : linesFrom depth e ++ xs = linesFrom depth u ++ ys) : e = u ∧ xs = ys := by
  induction e generalizing u depth xs ys with
  | number text =>
    cases u with
    | number text' =>
      obtain ⟨hline, hrest⟩ := List.cons.inj h
      obtain rfl : text = text' := sameNode_of_line hline
      exact ⟨rfl, hrest⟩
    | identifier | binary | parenthesized => exact (sameNode_of_line (List.cons.inj h).1).elim
  | identifier name =>
    cases u with
    | identifier name' =>
      obtain ⟨hline, hrest⟩ := List.cons.inj h
      obtain rfl : name = name' := sameNode_of_line hline
      exact ⟨rfl, hrest⟩
    | number | binary | parenthesized => exact (sameNode_of_line (List.cons.inj h).1).elim
  | binary operator left right ihl ihr =>
    cases u with
    | binary operator' left' right' =>
      obtain ⟨hline, hrest⟩ := List.cons.inj h
      obtain rfl : operator = operator' := sameNode_of_line hline
      -- behind the lines of the left operand come those of the right one and all the rest
      simp only [List.append_eq, List.append_assoc] at hrest
      obtain ⟨rfl, hright⟩ := ihl hrest
      obtain ⟨rfl, hbehind⟩ := ihr hright
      exact ⟨rfl, hbehind⟩
    | number | identifier | parenthesized => exact (sameNode_of_line (List.cons.inj h).1).elim
  | parenthesized inner ih =>
    cases u with
    | parenthesized inner' =>
      obtain ⟨rfl, hbehind⟩ := ih (List.cons.inj h).2
      exact ⟨rfl, hbehind⟩
    | number | identifier | binary => exact (sameNode_of_line (List.cons.inj h).1).elim

/-- **An outline shows one tree.**  Trees with the same outline are the same, whatever the texts in
them are; and no outline is the beginning of a longer one, so what stands behind an outline is told
apart from it. -/
theorem outline_determines (e u : Expr) :
    (e.outline = u.outline ↔ e = u) ∧ (e.outline <+: u.outline ↔ e = u) ∧
      ∀ xs ys, e.outline ++ xs = u.outline ++ ys ↔ e = u ∧ xs = ys := by
  have happend : ∀ xs ys, e.outline ++ xs = u.outline ++ ys ↔ e = u ∧ xs = ys := by
    intro xs ys
    rw [outline_eq, outline_eq]
    constructor
    · exact linesFrom_append_inj
    · rintro ⟨rfl, rfl⟩
      rfl
  refine ⟨?_, ?_, happend⟩
  · simpa using happend [] []
  · constructor
    · rintro ⟨xs, h⟩
      have hnil : e.outline ++ xs = u.outline ++ [] := by rw [h, List.append_nil]
      exact ((happend xs []).mp hnil).1
    · rintro rfl
      exact List.prefix_refl _

/-! ## Breaks in the lines of a tree -/

theorem unbroken_line {depth : Nat} {e : Expr} (h : Unbroken e.heading) :
    Unbroken (line depth e) := by
  refine unbroken_append.mpr ⟨fun c hc => ?_, h⟩
  rw [List.eq_of_mem_replicate hc]
  decide

/-- Where the texts in a tree have no breaks, its lines have none. -/
theorem unbroken_linesFrom {e : Expr} (h : ∀ x ∈ e.lexemes, Unbroken x) (depth : Nat) :
    ∀ l ∈ linesFrom depth e, Unbroken l := by
  induction e generalizing depth with
  | number text =>
    have htext : Unbroken text := h text List.mem_cons_self
    exact List.forall_mem_singleton.mpr
      (unbroken_line (unbroken_append.mpr ⟨by decide, htext⟩))
  | identifier name =>
    have hname : Unbroken name := h name List.mem_cons_self
    exact List.forall_mem_singleton.mpr
      (unbroken_line (unbroken_append.mpr ⟨by decide, hname⟩))
  | binary operator left right ihl ihr =>
    obtain ⟨hleft, hright⟩ := List.forall_mem_append.mp h
    obtain ⟨hoperator, hright⟩ := List.forall_mem_cons.mp hright
    refine List.forall_mem_cons.mpr ⟨unbroken_line (unbroken_append.mpr ⟨by decide, hoperator⟩), ?_⟩
    exact List.forall_mem_append.mpr ⟨ihl hleft (depth + 1), ihr hright (depth + 1)⟩
  | parenthesized inner ih =>
    have hinner := (List.forall_mem_append.mp (List.forall_mem_cons.mp h).2).1
    have hheading : Unbroken "Parentheses:".toList := by decide
    exact List.forall_mem_cons.mpr ⟨unbroken_line hheading, ih hinner (depth + 1)⟩

end LineCalc.Expr
