import Mathlib.Logic.Relation
import LineCalc.Proofs.Expr.Outline

/-!
# The walk that writes an outline

An outline is written by a walk through the tree.  The walk takes the first of the nodes that are
to come, writes its line, and puts its children in front of the others (`Next`).  What is written
and what the nodes to come will add make up the same lines at any moment, for any list of nodes:

    writeLines done pending = done.reverse ++ the lines of the pending trees  (writeLines_eq_append)
    writeLines w.done w.pending = ls  ↔  from w, the walk ends with ls        (writeLines_eq_iff)

So the walk that begins at the root of a tree ends, with the lines that the structure of the tree
asks for (`Shows`), one for each node (`outline_walk`).
-/

namespace LineCalc.Expr

open Relation (ReflTransGen)

/-! ## What an outline is to show -/

/-- A text `depth` levels further in. -/
def indent (depth : Nat) (s : Text) : Text := List.replicate (2 * depth) ' ' ++ s

/-- The lines show the tree, with its root `depth` levels deep. -/
inductive Shows : Nat → Expr → List Text → Prop
  | number (depth : Nat) (text : Text) :
      Shows depth (number text) [indent depth ("Number: ".toList ++ text)]
  | identifier (depth : Nat) (name : Text) :
      Shows depth (identifier name) [indent depth ("Identifier: ".toList ++ name)]
  | binary {depth : Nat} (operator : Text) {left right : Expr} {ls rs : List Text} :
      Shows (depth + 1) left ls → Shows (depth + 1) right rs →
      Shows depth (binary operator left right)
        (indent depth ("Operator: ".toList ++ operator) :: (ls ++ rs))
  | parenthesized {depth : Nat} {inner : Expr} {ls : List Text} : Shows (depth + 1) inner ls →
      Shows depth (parenthesized inner) (indent depth "Parentheses:".toList :: ls)

theorem shows_linesFrom (depth : Nat) (e : Expr) : Shows depth e (linesFrom depth e) := by
  induction e generalizing depth with
  | number text => exact .number depth text
  | identifier name => exact .identifier depth name
  | binary operator left right ihl ihr => exact .binary operator (ihl (depth + 1)) (ihr (depth + 1))
  | parenthesized inner ih => exact .parenthesized (ih (depth + 1))

theorem Shows.linesFrom_eq {depth : Nat} {e : Expr} {ls : List Text} (h : Shows depth e ls) :
    linesFrom depth e = ls := by
  induction h with
  | number | identifier => rfl
  | binary operator _ _ ihl ihr =>
    rw [linesFrom, ihl, ihr]
    rfl
  | parenthesized _ ih =>
    rw [linesFrom, ih]
    rfl

theorem shows_iff {depth : Nat} {e : Expr} {ls : List Text} :
    Shows depth e ls ↔ linesFrom depth e = ls :=
  ⟨Shows.linesFrom_eq, fun h => h ▸ shows_linesFrom depth e⟩

/-! ## The walk -/

/-- An outline in the making: the lines that are written, the last one first, and the nodes that
are to come, with their depths. -/
structure Walk where
  done : List Text
  pending : List (Nat × Expr)

namespace Walk

/-- One step of the walk. -/
inductive Next : Walk → Walk → Prop
  | number (done : List Text) (depth : Nat) (text : Text) (pending : List (Nat × Expr)) :
      Next ⟨done, (depth, .number text) :: pending⟩ ⟨line depth (.number text) :: done, pending⟩
  | identifier (done : List Text) (depth : Nat) (name : Text) (pending : List (Nat × Expr)) :
      Next ⟨done, (depth, .identifier name) :: pending⟩
        ⟨line depth (.identifier name) :: done, pending⟩
  | binary (done : List Text) (depth : Nat) (operator : Text) (left right : Expr)
      (pending : List (Nat × Expr)) :
      Next ⟨done, (depth, .binary operator left right) :: pending⟩
        ⟨line depth (.binary operator left right) :: done,
          (depth + 1, left) :: (depth + 1, right) :: pending⟩
  | parenthesized (done : List Text) (depth : Nat) (inner : Expr) (pending : List (Nat × Expr)) :
      Next ⟨done, (depth, .parenthesized inner) :: pending⟩
        ⟨line depth (.parenthesized inner) :: done, (depth + 1, inner) :: pending⟩

/-- The walk that is to write the outline of a tree. -/
def start (e : Expr) : Walk := ⟨[], [(0, e)]⟩

variable {w w' : Walk}

/-! ## One step -/

theorem exists_next (h : w.pending ≠ []) : ∃ w', Next w w' := by
  obtain ⟨done, pending⟩ := w
  match pending with
  | [] => exact absurd rfl h
  | (depth, .number text) :: pending => exact ⟨_, .number done depth text pending⟩
  | (depth, .identifier name) :: pending => exact ⟨_, .identifier done depth name pending⟩
  | (depth, .binary operator left right) :: pending =>
    exact ⟨_, .binary done depth operator left right pending⟩
  | (depth, .parenthesized inner) :: pending => exact ⟨_, .parenthesized done depth inner pending⟩

theorem Next.writeLines_eq (h : Next w w') :
    writeLines w.done w.pending = writeLines w'.done w'.pending := by
  cases h with
  | number | identifier | binary | parenthesized =>
    rw [writeLines]
    rfl

/-- A step writes the line of one node. -/
theorem Next.counts (h : Next w w') :
    w'.done.length = w.done.length + 1 ∧ pendingSize w'.pending + 1 = pendingSize w.pending := by
  cases h with
  | number | identifier | binary | parenthesized =>
    refine ⟨rfl, ?_⟩
    simp only [pendingSize, size]
    omega

/-! ## All steps -/

/-- A tree is walked through before the nodes behind it, and all of its lines are written. -/
theorem reach_linesFrom (e : Expr) (done : List Text) (depth : Nat)
    (pending : List (Nat × Expr)) :
    ReflTransGen Next ⟨done, (depth, e) :: pending⟩
      ⟨(linesFrom depth e).reverse ++ done, pending⟩ := by
  induction e generalizing done depth pending with
  | number text => exact .single (.number done depth text pending)
  | identifier name => exact .single (.identifier done depth name pending)
  | binary operator left right ihl ihr =>
    refine .head (.binary done depth operator left right pending) ?_
    -- the right operand waits in the list while the left one is walked through
    have hleft := ihl (line depth (.binary operator left right) :: done) (depth + 1)
      ((depth + 1, right) :: pending)
    refine hleft.trans ?_
    have hright := ihr ((linesFrom (depth + 1) left).reverse ++
      line depth (.binary operator left right) :: done) (depth + 1) pending
    simpa [linesFrom] using hright
  | parenthesized inner ih =>
    refine .head (.parenthesized done depth inner pending) ?_
    have hinner := ih (line depth (.parenthesized inner) :: done) (depth + 1) pending
    simpa [linesFrom] using hinner

/-- The lines that are written and the lines of the trees that are to come. -/
theorem writeLines_eq_append (done : List Text) (pending : List (Nat × Expr)) :
    writeLines done pending = done.reverse ++ pending.flatMap fun p => linesFrom p.1 p.2 := by
  induction pending generalizing done with
  | nil =>
    rw [writeLines]
    simp
  | cons p pending ih =>
    obtain ⟨depth, e⟩ := p
    rw [writeLines_cons, ih]
    simp

theorem exists_end (w : Walk) :
    ReflTransGen Next w ⟨(writeLines w.done w.pending).reverse, []⟩ := by
  obtain ⟨done, pending⟩ := w
  induction pending generalizing done with
  | nil =>
    rw [writeLines, List.reverse_reverse]
  | cons p pending ih =>
    obtain ⟨depth, e⟩ := p
    rw [writeLines_cons]
    exact (reach_linesFrom e done depth pending).trans (ih _)

theorem writeLines_of_reach (h : ReflTransGen Next w w') :
    writeLines w.done w.pending = writeLines w'.done w'.pending := by
  induction h with
  | refl => rfl
  | tail _ hnext ih => exact ih.trans hnext.writeLines_eq

theorem counts_of_reach (h : ReflTransGen Next w w') :
    w'.done.length + pendingSize w'.pending = w.done.length + pendingSize w.pending := by
  induction h with
  | refl => rfl
  | tail _ hnext ih =>
    obtain ⟨hdone, hpending⟩ := hnext.counts
    omega

/-- What is written in the end is what the walk ends with. -/
theorem writeLines_eq_iff {ls : List Text} : writeLines w.done w.pending = ls ↔
    ∃ w', ReflTransGen Next w w' ∧ w'.pending = [] ∧ w'.done.reverse = ls := by
  constructor
  · rintro rfl
    exact ⟨_, exists_end w, rfl, List.reverse_reverse _⟩
  · rintro ⟨⟨done, pending⟩, hreach, hpending, rfl⟩
    obtain rfl : pending = [] := hpending
    rw [writeLines_of_reach hreach, writeLines]

end Walk

open Walk (Next start)

/-- **The outline is written in preorder.**  It has the lines that the structure of the tree asks
for, one for each node; and the walk that begins at the root, which cannot go on for ever, ends with
them and with nothing else.  Wherever the walk is on its way, it has something to take or is at its
end, the lines it has written and those of the trees that are to come are the whole outline, and so
are all nodes either written or to come. -/
theorem outline_walk (e : Expr) :
    e.outline = linesFrom 0 e ∧
    (∀ depth ls, linesFrom depth e = ls ↔ Shows depth e ls) ∧
    e.outline.length = e.size ∧
    (∀ ls, e.outline = ls ↔
      ∃ w, ReflTransGen Next (start e) w ∧ w.pending = [] ∧ w.done.reverse = ls) ∧
    (∀ w w', Next w w' → pendingSize w'.pending < pendingSize w.pending) ∧
    ∀ w, ReflTransGen Next (start e) w →
      (w.pending = [] ∨ ∃ w', Next w w') ∧
      (w.done.reverse ++ w.pending.flatMap fun p => linesFrom p.1 p.2) = e.outline ∧
      w.done.length + pendingSize w.pending = e.size := by
  refine ⟨outline_eq e, fun _ _ => shows_iff.symm, ?_, fun ls => ?_, fun w w' h => ?_,
    fun w h => ⟨?_, ?_, ?_⟩⟩
  · rw [outline_eq, length_linesFrom]
  · exact Walk.writeLines_eq_iff (w := start e)
  · have := h.counts
    omega
  · by_cases hpending : w.pending = []
    · exact .inl hpending
    · exact .inr (Walk.exists_next hpending)
  · rw [← Walk.writeLines_eq_append, ← Walk.writeLines_of_reach h]
    rfl
  · rw [Walk.counts_of_reach h]
    show 0 + (e.size + 0) = e.size
    omega

/-- The walk through `(x)-1`, when the parentheses are written and the name is not. -/
theorem outline_walk_difference :
    let e : Expr := .binary ['-'] (.parenthesized (.identifier ['x'])) (.number ['1'])
    let w : Walk := ⟨["  Parentheses:".toList, "Operator: -".toList],
      [(2, .identifier ['x']), (1, .number ['1'])]⟩
    Shows 0 e (["Operator: -", "  Parentheses:", "    Identifier: x", "  Number: 1"].map
      String.toList) ∧
    ReflTransGen Next (start e) w ∧
    e.outline = w.done.reverse ++ ["    Identifier: x".toList, "  Number: 1".toList] ∧
    pendingSize [(1, Expr.number ['1'])] < pendingSize w.pending := by
  intro e w
  have hparentheses : ReflTransGen Next (start e) w :=
    .head (.binary [] 0 _ _ _ []) (.single (.parenthesized _ 1 _ _))
  have hname : Next w ⟨"    Identifier: x".toList :: w.done, [(1, .number ['1'])]⟩ :=
    .identifier _ 2 _ _
  obtain ⟨-, hshows, -, -, hless, hreach⟩ := outline_walk e
  exact ⟨(hshows 0 _).mp rfl, hparentheses, (hreach w hparentheses).2.1.symm, hless _ _ hname⟩

end LineCalc.Expr
