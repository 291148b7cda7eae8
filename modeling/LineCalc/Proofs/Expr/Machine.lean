import Mathlib.Logic.Relation
import LineCalc.Proofs.Expr.Evaluation

/-!
# The machine that evaluates an expression

The tasks and the results make up a machine, which takes one step for each task at the head of its
list (`Next`) until it ends with an outcome (`Ends`).  As long as it gets along with its results
(`Supplied`, which a step preserves), there is a next step or an end:

    run m.tasks m.results = some o  ↔  from m, the machine ends with o          (run_eq_some_iff)
    m.Supplied → m.Next m' → m'.Supplied                                        (Next.supplied)

So the machine that begins with an expression ends with what the expression evaluates to, and on
its way no operator lacks an operand (`evaluate_machine`).
-/

namespace LineCalc

namespace Expr

open Relation (ReflTransGen)

/-- The evaluation at one moment: what is left to do, and the results, the last one first. -/
structure Machine where
  tasks : List Task
  results : List Binary64

namespace Machine

/-- One step of the machine. -/
inductive Next : Machine → Machine → Prop
  | number {text : Text} {x : Binary64} {tasks : List Task} {results : List Binary64} :
      numberValue text = .ok x →
      Next ⟨.visit (.number text) :: tasks, results⟩ ⟨tasks, x :: results⟩
  | binary (operator : Text) (left right : Expr) (tasks : List Task) (results : List Binary64) :
      Next ⟨.visit (.binary operator left right) :: tasks, results⟩
        ⟨.visit left :: .visit right :: .apply operator :: tasks, results⟩
  | parenthesized (inner : Expr) (tasks : List Task) (results : List Binary64) :
      Next ⟨.visit (.parenthesized inner) :: tasks, results⟩ ⟨.visit inner :: tasks, results⟩
  | apply {operator : Text} {x y z : Binary64} {tasks : List Task} {results : List Binary64} :
      Expr.apply operator x y = .ok z →
      Next ⟨.apply operator :: tasks, y :: x :: results⟩ ⟨tasks, z :: results⟩

/-- The machine ends here, with a single result or where something fails. -/
inductive Ends : Machine → Except EvalError Binary64 → Prop
  | result (x : Binary64) : Ends ⟨[], [x]⟩ (.ok x)
  | number {text : Text} {err : EvalError} {tasks : List Task} {results : List Binary64} :
      numberValue text = .error err → Ends ⟨.visit (.number text) :: tasks, results⟩ (.error err)
  | identifier (name : Text) (tasks : List Task) (results : List Binary64) :
      Ends ⟨.visit (.identifier name) :: tasks, results⟩ (.error .identifier)
  | apply {operator : Text} {x y : Binary64} {err : EvalError} {tasks : List Task}
      {results : List Binary64} : Expr.apply operator x y = .error err →
      Ends ⟨.apply operator :: tasks, y :: x :: results⟩ (.error err)

/-- The machine that is to evaluate an expression. -/
def start (e : Expr) : Machine := ⟨[.visit e], []⟩

/-- Whether the tasks get along with so many results and leave one. -/
def enough : List Task → Nat → Prop
  | [], count => count = 1
  | .visit _ :: tasks, count => enough tasks (count + 1)
  | .apply _ :: tasks, count => 2 ≤ count ∧ enough tasks (count - 1)

/-- Whether the machine has the results that its tasks need. -/
def Supplied (m : Machine) : Prop := enough m.tasks m.results.length

variable {m m' : Machine} {o : Except EvalError Binary64}

/-! ## One step -/

theorem Next.run_eq (h : Next m m') : run m.tasks m.results = run m'.tasks m'.results := by
  cases h with
  | number hx | apply hx => rw [run, hx]
  | binary | parenthesized => rw [run]

theorem Ends.run_eq (h : Ends m o) : run m.tasks m.results = some o := by
  cases h with
  | result | identifier => rw [run]
  | number herr | apply herr => rw [run, herr]

/-- A run that has an outcome is at its end or goes on. -/
theorem ends_or_next (h : run m.tasks m.results = some o) : Ends m o ∨ ∃ m', Next m m' := by
  obtain ⟨tasks, results⟩ := m
  match tasks, results with
  | [], [] | [], _ :: _ :: _ => simp [run] at h
  | [], [x] =>
    rw [run] at h
    obtain rfl := Option.some.inj h
    exact .inl (.result x)
  | .visit (.number text) :: tasks, results =>
    cases hx : numberValue text with
    | ok x => exact .inr ⟨_, .number hx⟩
    | error err =>
      rw [run, hx] at h
      obtain rfl := Option.some.inj h
      exact .inl (.number hx)
  | .visit (.identifier name) :: tasks, results =>
    rw [run] at h
    obtain rfl := Option.some.inj h
    exact .inl (.identifier name tasks results)
  | .visit (.binary operator left right) :: tasks, results =>
    exact .inr ⟨_, .binary operator left right tasks results⟩
  | .visit (.parenthesized inner) :: tasks, results =>
    exact .inr ⟨_, .parenthesized inner tasks results⟩
  | .apply operator :: tasks, [] | .apply operator :: tasks, [_] => simp [run] at h
  | .apply operator :: tasks, y :: x :: results =>
    cases hz : Expr.apply operator x y with
    | ok z => exact .inr ⟨_, .apply hz⟩
    | error err =>
      rw [run, hz] at h
      obtain rfl := Option.some.inj h
      exact .inl (.apply hz)

theorem Next.stepsOf_lt (h : Next m m') : stepsOf m'.tasks < stepsOf m.tasks := by
  cases h with
  | number | binary | parenthesized | apply => simp [stepsOf, Task.steps, size] <;> omega

/-- A step leaves the results that the remaining tasks need. -/
theorem Next.supplied (h : Next m m') (hm : m.Supplied) : m'.Supplied := by
  cases h with
  | number | binary | parenthesized | apply => simpa [Supplied, enough] using hm

/-! ## A run -/

/-- The outcome of a run is what the machine ends with. -/
theorem run_eq_some_iff :
    run m.tasks m.results = some o ↔ ∃ m', ReflTransGen Next m m' ∧ Ends m' o := by
  constructor
  · intro h
    induction hn : stepsOf m.tasks using Nat.strongRecOn generalizing m with
    | ind n ih =>
      rcases ends_or_next h with hend | ⟨m₁, hnext⟩
      · exact ⟨m, .refl, hend⟩
      · have hlt := hnext.stepsOf_lt
        obtain ⟨m', hreach, hend⟩ := ih _ (by omega) (hnext.run_eq ▸ h) rfl
        exact ⟨m', .head hnext hreach, hend⟩
  · rintro ⟨m', hreach, hend⟩
    induction hreach using ReflTransGen.head_induction_on with
    | refl => exact hend.run_eq
    | head hnext _ ih => exact hnext.run_eq.trans ih

theorem supplied_start (e : Expr) : (start e).Supplied := rfl

theorem Supplied.reach (hm : m.Supplied) (h : ReflTransGen Next m m') : m'.Supplied := by
  induction h with
  | refl => exact hm
  | tail _ hnext ih => exact hnext.supplied ih

theorem run_of_reach {e : Expr} (h : ReflTransGen Next (start e) m) :
    run m.tasks m.results = some e.evaluate := by
  have hstart : run (start e).tasks (start e).results = some e.evaluate := by
    rw [evaluate_eq]
    exact run_visit_alone e
  induction h with
  | refl => exact hstart
  | tail _ hnext ih => exact hnext.run_eq.symm.trans ih

end Machine

open Machine (Next Ends start)

/-- **The machine evaluates by structure.**  An expression evaluates to what its structure says, and
the machine that begins with it, which cannot run on for ever, ends with that and with nothing
else.  Wherever it is on its way, it goes on or ends so, an operator finds two results, and there
is one result when nothing is left to do. -/
theorem evaluate_machine (e : Expr) :
    (∀ o, e.evaluate = o ↔ e.Evaluates o) ∧
    (∀ o, e.evaluate = o ↔ ∃ m, ReflTransGen Next (start e) m ∧ Ends m o) ∧
    (∀ m m', Next m m' → stepsOf m'.tasks < stepsOf m.tasks) ∧
    ∀ m, ReflTransGen Next (start e) m →
      (Ends m e.evaluate ∨ ∃ m', Next m m') ∧
      (∀ operator tasks, m.tasks = .apply operator :: tasks → 2 ≤ m.results.length) ∧
      (m.tasks = [] → ∃ x, m.results = [x] ∧ e.evaluate = .ok x) := by
  refine ⟨fun o => evaluates_iff.symm, fun o => ?_, fun m m' h => h.stepsOf_lt, fun m h => ?_⟩
  · rw [← Machine.run_eq_some_iff, Machine.run_of_reach .refl, Option.some.injEq]
  · have hrun := Machine.run_of_reach h
    have hsupplied := (Machine.supplied_start e).reach h
    refine ⟨Machine.ends_or_next hrun, fun operator tasks htasks => ?_, fun htasks => ?_⟩
    · rw [Machine.Supplied, htasks] at hsupplied
      exact hsupplied.1
    · rw [Machine.Supplied, htasks] at hsupplied
      obtain ⟨x, hx⟩ := List.length_eq_one_iff.mp hsupplied
      rw [htasks, hx, run] at hrun
      exact ⟨x, hx, (Option.some.inj hrun).symm⟩

/-- The machine on `1+2`, before the sum is made and when it is done. -/
theorem evaluate_machine_sum :
    let e : Expr := .binary ['+'] (.number ['1']) (.number ['2'])
    let x := Numeral.toBinary64 ⟨[1], []⟩
    let y := Numeral.toBinary64 ⟨[2], []⟩
    e.Evaluates (.ok (x + y)) ∧
      stepsOf [.visit (.number ['1']), .visit (.number ['2']), .apply ['+']] <
        stepsOf [.visit e] ∧
      ∃ m, ReflTransGen Next (start e) m ∧ m.tasks = [.apply ['+']] ∧ 2 ≤ m.results.length := by
  intro e x y
  have hvisit : Next (start e)
      ⟨[.visit (.number ['1']), .visit (.number ['2']), .apply ['+']], []⟩ :=
    .binary _ _ _ _ _
  have hoperands : ReflTransGen Next (start e) ⟨[.apply ['+']], [y, x]⟩ :=
    .head hvisit (.head (.number rfl) (.head (.number rfl) .refl))
  have hsum : ReflTransGen Next (start e) ⟨[], [x + y]⟩ := hoperands.tail (.apply rfl)
  obtain ⟨hstructure, -, hless, hreach⟩ := evaluate_machine e
  refine ⟨?_, hless _ _ hvisit, _, hoperands, rfl, (hreach _ hoperands).2.1 _ _ rfl⟩
  obtain ⟨z, hz, hevaluate⟩ := (hreach _ hsum).2.2 rfl
  obtain rfl : x + y = z := List.singleton_inj.mp hz
  exact (hstructure _).mp hevaluate

end Expr

end LineCalc
