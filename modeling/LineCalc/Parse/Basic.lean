import LineCalc.Grammar
import LineCalc.Names.Basic
import LineCalc.Parse.Cursor

/-!
# Parsing

A tree of a given level is read from the tokens at a cursor, each token once.  Between two tokens
the state is what was read so far: the groups that are open, what stands before the operand under
way in the innermost of them, and the operand itself once it is complete.  A token either is taken
into the state (`next`), or does not belong to the tree, which is then complete (`stop`), or cannot
stand where it does (`fail`).

Tokens behind the tree are left to whoever reads on.
-/

namespace LineCalc

/-- Why no tree can be read.  An index counts from the first token. -/
inductive ParseError
  /-- A name that is not declared. -/
  | undeclared (name : Text) (index : Nat)
  /-- An opening parenthesis whose group ends without a closing one. -/
  | unmatched (index : Nat)
  /-- A token where an operand has to begin. -/
  | unexpected (text : Text) (index : Nat)
  /-- More groups inside each other than are allowed. -/
  | tooDeep
  deriving DecidableEq

namespace Parse

/-! ## State -/

/-- What stands before the operand under way in its group, each with the operator behind it: a
complete expression, and then a complete term. -/
structure Pending where
  sum : Option (Expr × Text)
  product : Option (Expr × Text)
  deriving DecidableEq

namespace Pending

def empty : Pending := ⟨none, none⟩

/-- The term that ends with the operand `x`. -/
def term (p : Pending) (x : Expr) : Expr :=
  match p.product with
  | none => x
  | some (left, operator) => .binary operator left x

/-- The expression that ends with the operand `x`. -/
def whole (p : Pending) (x : Expr) : Expr :=
  match p.sum with
  | none => p.term x
  | some (left, operator) => .binary operator left (p.term x)

/-- What is pending behind the operand `x` and an operator. -/
def extend (p : Pending) (x : Expr) (operator : Text) : Pending :=
  if Level.Multiplicative operator then { p with product := some (p.term x, operator) }
  else ⟨some (p.whole x, operator), none⟩

end Pending

/-- An open group: the index of its parenthesis, and what was pending there. -/
structure Group where
  index : Nat
  outer : Pending
  deriving DecidableEq

/-- What was read so far.  The innermost group comes first. -/
structure State where
  groups : List Group
  pending : Pending
  operand : Option Expr
  deriving DecidableEq

def State.initial : State := ⟨[], .empty, none⟩

/-- What is to be read: the names that may occur, the level of the tree, and how many groups may be
open at a time, if that is limited. -/
structure Rules where
  names : Names
  level : Level
  limit : Option Nat

namespace Rules

/-- The level of what is under way: inside a group any expression can stand. -/
def levelIn (r : Rules) (groups : List Group) : Level :=
  if groups = [] then r.level else .expression

/-- Whether another group may be opened inside so many. -/
def mayOpen (r : Rules) (depth : Nat) : Bool := r.limit.all (depth < ·)

end Rules

/-! ## One token -/

/-- What a token does. -/
inductive Move
  | next (s : State)
  | stop (e : Expr)
  | fail (e : ParseError)
  deriving DecidableEq

/-- The token number `pos` where an operand has to begin. -/
def beginOperand (r : Rules) (pos : Nat) (s : State) (t : Token) : Move :=
  match t.kind with
  | .integer | .float => .next { s with operand := some (.number t.text) }
  | .identifier =>
    if t.text ∈ r.names then .next { s with operand := some (.identifier t.text) }
    else .fail (.undeclared t.text pos)
  | .parenthesis | .operator | .endOfInput | .invalid =>
    if t = Token.opening then
      if r.mayOpen s.groups.length then .next ⟨⟨pos, s.pending⟩ :: s.groups, .empty, none⟩
      else .fail .tooDeep
    else .fail (.unexpected t.text pos)

/-- The token behind the operand `x`. -/
def endOperand (r : Rules) (s : State) (x : Expr) (t : Token) : Move :=
  if t.kind = .operator ∧ (r.levelIn s.groups).Admits t.text then
    .next ⟨s.groups, s.pending.extend x t.text, none⟩
  else
    match s.groups with
    | [] => .stop (s.pending.whole x)
    | g :: outer =>
      if t = Token.closing then
        .next ⟨outer, g.outer, some (.parenthesized (s.pending.whole x))⟩
      else .fail (.unmatched g.index)

def step (r : Rules) (pos : Nat) (s : State) (t : Token) : Move :=
  match s.operand with
  | none => beginOperand r pos s t
  | some x => endOperand r s x t

/-! ## All tokens -/

/-- What is read when there are no more tokens. -/
def finish (pos : Nat) (s : State) : Except ParseError Expr :=
  match s.operand with
  | none => .error (.unexpected Token.endOfInput.text pos)
  | some x =>
    match s.groups with
    | [] => .ok (s.pending.whole x)
    | g :: _ => .error (.unmatched g.index)

/-- Reads on in a state: the tree, and the place behind it. -/
def run (r : Rules) (pos : Nat) (s : State) : List Token → Except ParseError (Expr × Cursor)
  | [] =>
    match finish pos s with
    | .ok e => .ok (e, ⟨pos, []⟩)
    | .error e => .error e
  | t :: rest =>
    match step r pos s t with
    | .next s => run r (pos + 1) s rest
    | .stop e => .ok (e, ⟨pos, t :: rest⟩)
    | .fail e => .error e

/-- The index of the first token that is not taken. -/
def reach (r : Rules) (pos : Nat) (s : State) : List Token → Nat
  | [] => pos
  | t :: rest =>
    match step r pos s t with
    | .next s => reach r (pos + 1) s rest
    | .stop _ | .fail _ => pos

end Parse

/-- Reads one tree at a cursor. -/
def Cursor.parse (r : Parse.Rules) (c : Cursor) : Except ParseError (Expr × Cursor) :=
  Parse.run r c.pos .initial c.rest

/-- How many groups may be open at a time. -/
def nestingLimit : Nat := 325

/-- Reads one tree of a level under the nesting limit. -/
def Cursor.parseLevel (names : Names) (level : Level) (c : Cursor) :
    Except ParseError (Expr × Cursor) :=
  c.parse ⟨names, level, some nestingLimit⟩

end LineCalc
