import LineCalc.Expr.Basic

/-!
# Outlines

The outline of an expression has one line for each node, a parent above its children, the left one
first, and children two spaces further in than their parent.

`linesFrom` says so by recursion on the tree.  `outline` writes the lines from a list of the nodes
that are still to come, so that it runs in constant stack on a tree of any depth.

    outline e = linesFrom 0 e      (outline_eq)
-/

namespace LineCalc.Expr

/-- The line of a node, without its indentation. -/
def heading : Expr → Text
  | number text => "Number: ".toList ++ text
  | identifier name => "Identifier: ".toList ++ name
  | binary operator _ _ => "Operator: ".toList ++ operator
  | parenthesized _ => "Parentheses:".toList

/-- The children of a node, left to right. -/
def children : Expr → List Expr
  | number _ | identifier _ => []
  | binary _ left right => [left, right]
  | parenthesized inner => [inner]

/-- The line of a node `depth` levels below the root. -/
def line (depth : Nat) (e : Expr) : Text := List.replicate (2 * depth) ' ' ++ e.heading

/-- The lines of a tree whose root is `depth` levels deep. -/
def linesFrom (depth : Nat) : Expr → List Text
  | number text => [line depth (number text)]
  | identifier name => [line depth (identifier name)]
  | binary operator left right =>
    line depth (binary operator left right) ::
      (linesFrom (depth + 1) left ++ linesFrom (depth + 1) right)
  | parenthesized inner => line depth (parenthesized inner) :: linesFrom (depth + 1) inner

/-! ## With a list of pending nodes -/

/-- The number of nodes in the trees of a list. -/
def pendingSize : List (Nat × Expr) → Nat
  | [] => 0
  | (_, e) :: pending => e.size + pendingSize pending

theorem pendingSize_children (depth : Nat) (e : Expr) (pending : List (Nat × Expr)) :
    pendingSize (e.children.map (depth, ·) ++ pending) + 1 =
      pendingSize ((depth, e) :: pending) := by
  cases e <;> simp [pendingSize, children, size] <;> omega

/-- The lines in `done`, last first, and then those of the pending nodes. -/
def writeLines (done : List Text) : List (Nat × Expr) → List Text
  | [] => done.reverse
  | (depth, e) :: pending =>
    writeLines (line depth e :: done) (e.children.map (depth + 1, ·) ++ pending)
  termination_by pending => pendingSize pending
  decreasing_by
    have := pendingSize_children (depth + 1) e pending
    simp only [pendingSize] at this ⊢
    omega

/-- The lines that show the expression. -/
def outline (e : Expr) : List Text := writeLines [] [(0, e)]

theorem writeLines_cons (e : Expr) (done : List Text) (depth : Nat) (pending : List (Nat × Expr)) :
    writeLines done ((depth, e) :: pending) =
      writeLines ((linesFrom depth e).reverse ++ done) pending := by
  induction e generalizing done depth pending with
  | number | identifier => rw [writeLines]; simp [children, linesFrom]
  | binary operator left right ihl ihr =>
    rw [writeLines]
    simp [children, linesFrom, ihl, ihr]
  | parenthesized inner ih =>
    rw [writeLines]
    simp [children, linesFrom, ih]

theorem outline_eq (e : Expr) : e.outline = linesFrom 0 e := by
  rw [outline, writeLines_cons, writeLines]
  simp

end LineCalc.Expr
