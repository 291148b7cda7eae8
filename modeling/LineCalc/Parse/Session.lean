import LineCalc.Parse.Basic

/-!
# Parsing sessions

A session reads trees from one list of tokens, one behind the other, and can declare names in
between.  A name that is already declared is refused and the session goes on; where no tree can be
read the session ends.
-/

namespace LineCalc

/-- How far the tokens are read, and the names declared so far. -/
structure Session where
  cursor : Cursor
  names : Names
  deriving DecidableEq

namespace Session

/-- What can be asked of a session. -/
inductive Step
  | declare (name : Text)
  | isDeclared (name : Text)
  | parse (level : Level)
  deriving DecidableEq

/-- What a session answers. -/
inductive Answer
  | declared
  | refused (e : AlreadyDeclared)
  | found (answer : Bool)
  | tree (e : Expr)
  deriving DecidableEq

/-- The session before its first step. -/
def start (tokens : List Token) : Session := ⟨.start tokens, .empty⟩

/-- The answer to a step and the session after it, or why the session ends. -/
def step (s : Session) : Step → Except ParseError (Answer × Session)
  | .declare name =>
    match s.names.declare name with
    | .ok names => .ok (.declared, { s with names })
    | .error e => .ok (.refused e, s)
  | .isDeclared name => .ok (.found (name ∈ s.names), s)
  | .parse level =>
    match s.cursor.parseLevel s.names level with
    | .ok (e, cursor) => .ok (.tree e, { s with cursor })
    | .error e => .error e

/-- The answers to the steps, each with the session after it; an error is the last answer. -/
def run (s : Session) : List Step → List (Except ParseError (Answer × Session))
  | [] => []
  | next :: rest =>
    match s.step next with
    | .ok (answer, after) => .ok (answer, after) :: after.run rest
    | .error e => [.error e]

end Session

end LineCalc
