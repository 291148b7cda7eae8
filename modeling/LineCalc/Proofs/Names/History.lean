import Mathlib.Data.List.Basic
import Mathlib.Tactic.Tauto
import LineCalc.Names.Registry

/-!
# Histories of a registry

What a registry answers is what its history says.  A name is declared under a label if it was
declared there before, and nothing else counts: not what is done under other labels, not a query,
and not a declaration that is refused.

    n ∈ (r.after steps).table label  ↔  .declare label n ∈ steps ∨ n ∈ r.table label
                                                                              (mem_table_after)
    (r.run steps)[i]?  =  the answer of r.after (steps.take i) to step i         (getElem?_run)
    kept.Sublist (r.record steps), with all that was added under the label
      → the kept steps under the label are answered alike             (record_filter_of_sublist)
-/

namespace LineCalc

namespace Registry

/-- The label that a step is about. -/
def Step.label : Step → Text
  | .declare label _ | .isDeclared label _ => label

/-- The registry behind the steps of a session. -/
def after (r : Registry) (steps : List Step) : Registry :=
  steps.foldl (fun r s => (r.step s).2) r

/-- The steps of a session, each with its answer. -/
def record (r : Registry) (steps : List Step) : List (Step × Answer) := steps.zip (r.run steps)

/-- Whether an entry of a record is about a label. -/
def isAbout (label : Text) (entry : Step × Answer) : Bool := entry.1.label = label

/-- Whether an entry of a record added a name under a label. -/
def adds (label : Text) (entry : Step × Answer) : Bool :=
  entry.1.label = label ∧ entry.2 = .declared

variable {r r' : Registry} {label : Text}

/-! ## One step -/

theorem table_empty (label : Text) : empty.table label = .empty := rfl

theorem step_of_ok {name : Text} {names : Names} (h : (r.table label).declare name = .ok names) :
    r.step (.declare label name) = (.declared, r.put label names) := by
  simp [step, h]

theorem step_of_error {name : Text} {e : AlreadyDeclared}
    (h : (r.table label).declare name = .error e) :
    r.step (.declare label name) = (.refused e, r) := by
  simp [step, h]

theorem step_declare_answer (r : Registry) (label name : Text) :
    (r.step (.declare label name)).1 =
      if name ∈ r.table label then .refused ⟨name⟩ else .declared := by
  by_cases hname : name ∈ r.table label
  · rw [step_of_error (Names.declare_eq_error_iff.mpr ⟨hname, rfl⟩), if_pos hname]
  · have hok : (r.table label).declare name = .ok _ := if_neg hname
    rw [step_of_ok hok, if_neg hname]

/-- A step changes nothing, or it replaces the table under its label and says so. -/
theorem step_leaves_or_puts (r : Registry) (s : Step) :
    (r.step s).2 = r ∨ ∃ names, r.step s = (.declared, r.put s.label names) := by
  cases s with
  | isDeclared l n => exact .inl rfl
  | declare l n =>
    cases hd : (r.table l).declare n with
    | ok names => exact .inr ⟨names, step_of_ok hd⟩
    | error e => exact .inl (by rw [step_of_error hd])

/-- A step touches the table under its own label only. -/
theorem table_step_of_ne (r : Registry) {s : Step} (h : label ≠ s.label) :
    (r.step s).2.table label = r.table label := by
  rcases r.step_leaves_or_puts s with hs | ⟨names, hs⟩
  · rw [hs]
  · rw [hs]
    exact table_put_of_ne r names h

/-- What is declared after a step: declared by it, with or without success, or before. -/
theorem mem_table_step (r : Registry) (s : Step) (label n : Text) :
    n ∈ (r.step s).2.table label ↔ s = .declare label n ∨ n ∈ r.table label := by
  cases s with
  | isDeclared l m => simp [step]
  | declare l m =>
    by_cases hl : label = l
    · subst hl
      cases h : (r.table label).declare m with
      | ok names =>
        have hmem : n ∈ names ↔ n = m ∨ n ∈ r.table label := Names.mem_of_declare h n
        simp [step_of_ok h, table_put, hmem, eq_comm]
      | error e =>
        have hm : m ∈ r.table label := (Names.declare_eq_error_iff.mp h).1
        have hn : m = n → n ∈ r.table label := fun hmn => hmn ▸ hm
        simpa [step_of_error h] using hn
    · rw [table_step_of_ne r (s := .declare l m) hl]
      simp [Ne.symm hl]

/-- The answer to a step, and the table behind it, depend on the table under the label of the step
only. -/
theorem step_congr {s : Step} (h : r.table s.label = r'.table s.label) :
    (r.step s).1 = (r'.step s).1 ∧
      (r.step s).2.table s.label = (r'.step s).2.table s.label := by
  cases s with
  | isDeclared l n =>
    have hl : r.table l = r'.table l := h
    exact ⟨by simp [step, hl], h⟩
  | declare l n =>
    have hl : r.table l = r'.table l := h
    cases hd : (r.table l).declare n with
    | ok names =>
      rw [step_of_ok hd, step_of_ok (hl ▸ hd)]
      exact ⟨rfl, (table_put r l names).trans (table_put r' l names).symm⟩
    | error e =>
      rw [step_of_error hd, step_of_error (hl ▸ hd)]
      exact ⟨rfl, h⟩

theorem table_step_congr (h : r.table label = r'.table label) (s : Step) :
    (r.step s).2.table label = (r'.step s).2.table label := by
  by_cases hl : label = s.label
  · subst hl
    exact (step_congr h).2
  · rw [table_step_of_ne r hl, table_step_of_ne r' hl, h]

/-- A step that adds nothing under a label leaves the table there as it is. -/
theorem table_step_of_not_adds {s : Step} (h : adds label (s, (r.step s).1) = false) :
    (r.step s).2.table label = r.table label := by
  by_cases hl : label = s.label
  · subst hl
    rcases r.step_leaves_or_puts s with hs | ⟨names, hs⟩
    · rw [hs]
    · simp [hs, adds] at h
  · exact table_step_of_ne r hl

theorem isAbout_of_adds {entry : Step × Answer} (h : adds label entry = true) :
    isAbout label entry = true := by
  simp only [adds, decide_eq_true_eq] at h
  simpa [isAbout] using h.1

/-! ## A session -/

@[simp] theorem record_cons (r : Registry) (s : Step) (rest : List Step) :
    r.record (s :: rest) = (s, (r.step s).1) :: (r.step s).2.record rest := rfl

/-- What is declared after a session. -/
theorem mem_table_after (r : Registry) (steps : List Step) (label n : Text) :
    n ∈ (r.after steps).table label ↔ .declare label n ∈ steps ∨ n ∈ r.table label := by
  induction steps generalizing r with
  | nil => simp [after]
  | cons s rest ih =>
    have hrest := ih (r.step s).2
    rw [mem_table_step] at hrest
    rw [List.mem_cons]
    exact hrest.trans (by tauto)

theorem getElem?_run (r : Registry) (steps : List Step) (i : Nat) :
    (r.run steps)[i]? = steps[i]?.map fun s => ((r.after (steps.take i)).step s).1 := by
  induction steps generalizing r i with
  | nil => rfl
  | cons s rest ih =>
    cases i with
    | zero => rfl
    | succ i => exact ih (r.step s).2 i

/-- The steps on a label are answered alike when entries are left out that add nothing there. -/
theorem record_filter_of_sublist {steps : List Step} {kept : List (Step × Answer)}
    (hr : r'.table label = r.table label) (hkept : kept.Sublist (r.record steps))
    (hadds : kept.filter (adds label) = (r.record steps).filter (adds label)) :
    (r'.record (kept.map Prod.fst)).filter (isAbout label) = kept.filter (isAbout label) := by
  induction steps generalizing r r' kept with
  | nil =>
    have hnil : kept = [] := List.sublist_nil.mp hkept
    subst hnil
    rfl
  | cons s rest ih =>
    rw [record_cons] at hkept hadds
    cases hkept with
    | cons _ hrest =>
      -- the entry is left out, so it is not among those that add a name
      have hs : adds label (s, (r.step s).1) = false := by
        by_contra h
        rw [Bool.not_eq_false] at h
        have hle := (hrest.filter (adds label)).length_le
        rw [hadds, List.filter_cons_of_pos h, List.length_cons] at hle
        omega
      rw [List.filter_cons_of_neg (by simp [hs])] at hadds
      exact ih (hr.trans (table_step_of_not_adds hs).symm) hrest hadds
    | @cons_cons kept _ _ hrest =>
      have htail : kept.filter (adds label) =
          ((r.step s).2.record rest).filter (adds label) := by
        rw [List.filter_cons, List.filter_cons] at hadds
        split at hadds
        · exact List.tail_eq_of_cons_eq hadds
        · exact hadds
      have hih := ih (table_step_congr hr s) hrest htail
      rw [List.map_cons, record_cons]
      by_cases hs : s.label = label
      · subst hs
        rw [(step_congr hr).1, List.filter_cons, List.filter_cons, hih]
      · rw [List.filter_cons_of_neg (by simp [isAbout, hs]),
          List.filter_cons_of_neg (by simp [isAbout, hs]), hih]

/-- Every step of a session is in its record. -/
theorem map_fst_record (r : Registry) (steps : List Step) :
    (r.record steps).map Prod.fst = steps := by
  induction steps generalizing r with
  | nil => rfl
  | cons s rest ih => rw [record_cons, List.map_cons, ih]

theorem map_snd_record (r : Registry) (steps : List Step) :
    (r.record steps).map Prod.snd = r.run steps := by
  induction steps generalizing r with
  | nil => rfl
  | cons s rest ih =>
    rw [record_cons, List.map_cons, ih]
    rfl

/-- A session of nothing but what was added under a label has the same record. -/
theorem record_adds (r : Registry) (label : Text) (steps : List Step) :
    r.record (((r.record steps).filter (adds label)).map Prod.fst) =
      (r.record steps).filter (adds label) := by
  have habout : ∀ x ∈ (r.record steps).filter (adds label), isAbout label x :=
    fun x hx => isAbout_of_adds (List.mem_filter.mp hx).2
  have hrecord : ∀ x ∈ r.record (((r.record steps).filter (adds label)).map Prod.fst),
      isAbout label x := by
    intro x hx
    have hstep := List.mem_map_of_mem (f := Prod.fst) hx
    rw [map_fst_record, List.mem_map] at hstep
    obtain ⟨y, hy, hxy⟩ := hstep
    have h := habout y hy
    rwa [isAbout, hxy] at h
  have hself : ((r.record steps).filter (adds label)).filter (adds label) =
      (r.record steps).filter (adds label) := by simp
  have h := record_filter_of_sublist (rfl : r.table label = r.table label) List.filter_sublist hself
  rwa [List.filter_eq_self.mpr habout, List.filter_eq_self.mpr hrecord] at h

/-- **Registries are sets that only grow, one for each label.**  A name is found if it was declared
under the same label before, with or without success, and it is refused if it was; and the answers
under a label do not change with the steps that add nothing there, whether some or all of these are
left out. -/
theorem run_history (steps : List Step) :
    (∀ (i : Nat) (label name : Text), steps[i]? = some (.isDeclared label name) →
      (empty.run steps)[i]? = some (.found (.declare label name ∈ steps.take i))) ∧
    (∀ (i : Nat) (label name : Text), steps[i]? = some (.declare label name) →
      (empty.run steps)[i]? =
        some (if .declare label name ∈ steps.take i then .refused ⟨name⟩ else .declared)) ∧
    (∀ (label : Text) (kept : List (Step × Answer)), kept.Sublist (empty.record steps) →
      kept.filter (adds label) = (empty.record steps).filter (adds label) →
      (empty.record (kept.map Prod.fst)).filter (isAbout label) =
        kept.filter (isAbout label)) ∧
    (∀ label : Text, empty.run (((empty.record steps).filter (adds label)).map Prod.fst) =
      ((empty.record steps).filter (adds label)).map Prod.snd) := by
  have hmem : ∀ i label name,
      name ∈ (empty.after (steps.take i)).table label ↔ .declare label name ∈ steps.take i := by
    intro i label name
    rw [mem_table_after, table_empty]
    exact or_iff_left (Names.not_mem_empty name)
  refine ⟨?_, ?_, ?_, ?_⟩
  · intro i label name h
    rw [getElem?_run, h]
    simp [step, hmem]
  · intro i label name h
    rw [getElem?_run, h]
    simp [step_declare_answer, hmem]
  · intro label kept hkept hadds
    exact record_filter_of_sublist rfl hkept hadds
  · intro label
    rw [← map_snd_record, record_adds]

/-- Two tables, a name that is declared twice under the first, and a query of each. -/
theorem run_history_two_labels :
    let x : Text := ['x']
    let steps : List Step :=
      [.declare ['a'] x, .declare ['b'] x, .declare ['a'] x, .isDeclared ['a'] x,
        .isDeclared ['b'] ['y']]
    (empty.run steps)[2]? = some (.refused ⟨x⟩) ∧ (empty.run steps)[3]? = some (.found true) ∧
      (empty.run steps)[4]? = some (.found false) ∧
      (empty.record [.declare ['a'] x, .isDeclared ['a'] x]).filter (isAbout ['a']) =
        [(.declare ['a'] x, .declared), (.isDeclared ['a'] x, .found true)] := by
  intro x steps
  obtain ⟨hfound, hdeclare, hkept, -⟩ := run_history steps
  refine ⟨hdeclare 2 ['a'] x rfl, hfound 3 ['a'] x rfl, hfound 4 ['b'] ['y'] rfl, ?_⟩
  exact hkept ['a'] [(.declare ['a'] x, .declared), (.isDeclared ['a'] x, .found true)]
    (by decide) (by decide)

end Registry

end LineCalc
