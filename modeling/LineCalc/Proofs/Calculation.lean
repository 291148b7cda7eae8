import LineCalc.Calculation

/-!
# Declaring, then parsing

Names are declared in order, which succeeds exactly if none of them is declared before.  What
`parse` answers is then what is read at the first token under these names:

    parse tokens declared = .ok e  ↔  declared.Nodup and e is read      (parse_eq_ok_iff)
    parse tokens declared = .error (.parse err)
                                   ↔  declared.Nodup and err comes up   (parse_eq_error_iff)
-/

namespace LineCalc

namespace Names

/-- The names of a list, declared from first to last. -/
def ofList (ns : List Text) : Names := ⟨ns.reverse⟩

theorem mem_ofList {ns : List Text} {n : Text} : n ∈ ofList ns ↔ n ∈ ns := List.mem_reverse

theorem declareAll_eq_ok_iff {names more : Names} {ns : List Text} :
    names.declareAll ns = .ok more ↔
      ns.Nodup ∧ (∀ n ∈ ns, n ∉ names) ∧ more = ⟨ns.reverse ++ names.declared⟩ := by
  induction ns generalizing names with
  | nil =>
    rw [declareAll]
    simp [eq_comm]
  | cons n rest ih =>
    rw [declareAll, List.nodup_cons]
    by_cases hn : n ∈ names
    · have hd : names.declare n = .error ⟨n⟩ := declare_eq_error_iff.mpr ⟨hn, rfl⟩
      rw [hd]
      constructor
      · intro h
        cases h
      · rintro ⟨-, hfresh, -⟩
        exact absurd hn (hfresh n List.mem_cons_self)
    · have hd : names.declare n = .ok ⟨n :: names.declared⟩ := if_neg hn
      have hmem (m : Text) : m ∈ (⟨n :: names.declared⟩ : Names) ↔ m = n ∨ m ∈ names :=
        mem_of_declare hd m
      rw [hd]
      simp only [ih, hmem, List.reverse_cons, List.append_assoc, List.singleton_append]
      constructor
      · rintro ⟨hnodup, hfresh, rfl⟩
        refine ⟨⟨fun h => hfresh n h (.inl rfl), hnodup⟩, fun m hm => ?_, rfl⟩
        rcases List.mem_cons.mp hm with rfl | hm
        · exact hn
        · exact fun h => hfresh m hm (.inr h)
      · rintro ⟨⟨hnot, hnodup⟩, hfresh, rfl⟩
        refine ⟨hnodup, fun m hm h => ?_, rfl⟩
        rcases h with rfl | h
        · exact hnot hm
        · exact hfresh m (List.mem_cons_of_mem _ hm) h

theorem declareAll_empty_eq_ok_iff {more : Names} {ns : List Text} :
    empty.declareAll ns = .ok more ↔ ns.Nodup ∧ more = ofList ns := by
  rw [declareAll_eq_ok_iff]
  constructor
  · rintro ⟨hnodup, -, rfl⟩
    exact ⟨hnodup, by simp [empty, ofList]⟩
  · rintro ⟨hnodup, rfl⟩
    exact ⟨hnodup, fun n _ => not_mem_empty n, by simp [empty, ofList]⟩

/-- Declaring stops at the first name that is declared by then. -/
theorem declareAll_eq_error_iff {names : Names} {ns : List Text} {e : AlreadyDeclared} :
    names.declareAll ns = .error e ↔
      ∃ before after more, ns = before ++ e.name :: after ∧
        names.declareAll before = .ok more ∧ e.name ∈ more := by
  constructor
  · intro h
    induction ns generalizing names with
    | nil => cases h
    | cons n rest ih =>
      by_cases hn : n ∈ names
      · rw [declareAll, declare_eq_error_iff.mpr ⟨hn, rfl⟩] at h
        cases h
        exact ⟨[], rest, names, rfl, rfl, hn⟩
      · have hd : names.declare n = .ok ⟨n :: names.declared⟩ := if_neg hn
        rw [declareAll, hd] at h
        obtain ⟨before, after, more, rfl, hbefore, hmem⟩ := ih h
        refine ⟨n :: before, after, more, rfl, ?_, hmem⟩
        rw [declareAll, hd]
        exact hbefore
  · rintro ⟨before, after, more, rfl, hbefore, hmem⟩
    induction before generalizing names with
    | nil =>
      cases hbefore
      rw [List.nil_append, declareAll, declare_eq_error_iff.mpr ⟨hmem, rfl⟩]
    | cons n before ih =>
      rw [declareAll] at hbefore
      rw [List.cons_append, declareAll]
      cases hd : names.declare n with
      | error e' =>
        rw [hd] at hbefore
        cases hbefore
      | ok names' =>
        rw [hd] at hbefore
        exact ih hbefore

end Names

theorem parse_of_nodup {declared : List Text} (h : declared.Nodup) (tokens : List Token) :
    parse tokens declared =
      match (Cursor.start tokens).parseLevel (.ofList declared) .expression with
      | .error e => .error (.parse e)
      | .ok (e, _) => .ok e := by
  have hd : Names.empty.declareAll declared = .ok (.ofList declared) :=
    Names.declareAll_empty_eq_ok_iff.mpr ⟨h, rfl⟩
  cases hp : (Cursor.start tokens).parseLevel (.ofList declared) .expression with
  | error e => simp only [parse, hd, hp]
  | ok tree => simp only [parse, hd, hp]

theorem parse_of_not_nodup {declared : List Text} (h : ¬ declared.Nodup) (tokens : List Token) :
    ∃ e, parse tokens declared = .error (.names e) := by
  unfold parse
  cases hd : Names.empty.declareAll declared with
  | error e => exact ⟨e, rfl⟩
  | ok names => exact absurd (Names.declareAll_empty_eq_ok_iff.mp hd).1 h

theorem parse_eq_ok_iff {tokens : List Token} {declared : List Text} {e : Expr} :
    parse tokens declared = .ok e ↔ declared.Nodup ∧
      ∃ c, (Cursor.start tokens).parseLevel (.ofList declared) .expression = .ok (e, c) := by
  by_cases hd : declared.Nodup
  · rw [parse_of_nodup hd]
    cases (Cursor.start tokens).parseLevel (.ofList declared) .expression with
    | error err => simp
    | ok tree => simp [hd, Prod.ext_iff]
  · obtain ⟨err, herr⟩ := parse_of_not_nodup hd tokens
    simp [herr, hd]

theorem parse_eq_error_iff {tokens : List Token} {declared : List Text} {err : ParseError} :
    parse tokens declared = .error (.parse err) ↔ declared.Nodup ∧
      (Cursor.start tokens).parseLevel (.ofList declared) .expression = .error err := by
  by_cases hd : declared.Nodup
  · rw [parse_of_nodup hd]
    cases (Cursor.start tokens).parseLevel (.ofList declared) .expression with
    | error err => simp [hd]
    | ok tree => simp
  · obtain ⟨e, he⟩ := parse_of_not_nodup hd tokens
    simp [he, hd]

end LineCalc
