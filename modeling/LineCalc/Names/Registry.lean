import LineCalc.Names.Basic

/-!
# Registries

Sets of declared names under labels.  A label that was not used yet has no declared names, and what
is done under one label does not touch any other.

    (r.put label names).table label = names                       (table_put)
    (r.put label names).table other = r.table other               (table_put_of_ne)
-/

namespace LineCalc

/-- Labelled sets of names, in the order of their first use. -/
structure Registry where
  tables : List (Text × Names)

namespace Registry

def empty : Registry := ⟨[]⟩

/-- The names under a label. -/
def table (r : Registry) (label : Text) : Names := (r.tables.lookup label).getD .empty

/-- Replaces the names under a label, or begins with them at the end of the list. -/
def replace (label : Text) (names : Names) : List (Text × Names) → List (Text × Names)
  | [] => [(label, names)]
  | (l, old) :: rest =>
    if l = label then (l, names) :: rest else (l, old) :: replace label names rest

def put (r : Registry) (label : Text) (names : Names) : Registry :=
  ⟨replace label names r.tables⟩

theorem table_put (r : Registry) (label : Text) (names : Names) :
    (r.put label names).table label = names := by
  suffices h : ∀ tables, (replace label names tables).lookup label = some names by
    simp [table, put, h]
  intro tables
  induction tables with
  | nil => simp [replace]
  | cons entry rest ih =>
    obtain ⟨l, old⟩ := entry
    unfold replace
    split
    · simp_all
    · rename_i h
      simp [List.lookup_cons, beq_false_of_ne (Ne.symm h), ih]

theorem table_put_of_ne (r : Registry) {label other : Text} (names : Names) (h : other ≠ label) :
    (r.put label names).table other = r.table other := by
  suffices h : ∀ tables, (replace label names tables).lookup other = tables.lookup other by
    simp [table, put, h]
  intro tables
  induction tables with
  | nil => simp [replace, h]
  | cons entry rest ih =>
    obtain ⟨l, old⟩ := entry
    unfold replace
    split
    · rename_i hl
      subst hl
      simp [List.lookup_cons, beq_false_of_ne h]
    · simp only [List.lookup_cons, ih]

/-! ## Sessions -/

/-- What can be asked of a registry. -/
inductive Step
  | declare (label name : Text)
  | isDeclared (label name : Text)
  deriving DecidableEq

/-- What a registry answers. -/
inductive Answer
  | declared
  | refused (e : AlreadyDeclared)
  | found (answer : Bool)
  deriving DecidableEq

/-- The answer to a step, and the registry after it; a refused declaration changes nothing. -/
def step (r : Registry) : Step → Answer × Registry
  | .declare label name =>
    match (r.table label).declare name with
    | .ok names => (.declared, r.put label names)
    | .error e => (.refused e, r)
  | .isDeclared label name => (.found (name ∈ r.table label), r)

/-- The answers to the steps of a session, in order. -/
def run (r : Registry) : List Step → List Answer
  | [] => []
  | s :: rest => (r.step s).1 :: (r.step s).2.run rest

end Registry

end LineCalc
