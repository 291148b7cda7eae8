import LineCalc.Text.Basic

/-!
# Declared names

A set of names that only grows: a name can be declared once, and stays declared.  Names are
compared character by character.

    m ∈ names.declare n  ↔  m = n ∨ m ∈ names      (mem_of_declare)
-/

namespace LineCalc

/-- The declared names, the last one first. -/
structure Names where
  declared : List Text
  deriving DecidableEq

/-- The refusal to declare a name twice. -/
structure AlreadyDeclared where
  name : Text
  deriving DecidableEq

namespace Names

def empty : Names := ⟨[]⟩

instance : Membership Text Names := ⟨fun names n => n ∈ names.declared⟩

instance (n : Text) (names : Names) : Decidable (n ∈ names) :=
  inferInstanceAs (Decidable (n ∈ names.declared))

/-- Declares a name that is not declared yet. -/
def declare (names : Names) (n : Text) : Except AlreadyDeclared Names :=
  if n ∈ names then .error ⟨n⟩ else .ok ⟨n :: names.declared⟩

/-- Declares names in order, up to the first that is already declared. -/
def declareAll (names : Names) : List Text → Except AlreadyDeclared Names
  | [] => .ok names
  | n :: rest =>
    match names.declare n with
    | .ok more => more.declareAll rest
    | .error e => .error e

theorem not_mem_empty (n : Text) : n ∉ empty := List.not_mem_nil

theorem declare_eq_error_iff {names : Names} {n : Text} {e : AlreadyDeclared} :
    names.declare n = .error e ↔ n ∈ names ∧ e = ⟨n⟩ := by
  unfold declare
  split <;> simp_all [eq_comm]

theorem mem_of_declare {names more : Names} {n : Text} (h : names.declare n = .ok more)
    (m : Text) : m ∈ more ↔ m = n ∨ m ∈ names := by
  unfold declare at h
  split at h
  · cases h
  · cases h
    exact List.mem_cons

end Names

end LineCalc
