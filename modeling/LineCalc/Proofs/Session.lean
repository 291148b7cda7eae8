import LineCalc.Parse.Session
import LineCalc.Proofs.Parse.Declared
import LineCalc.Proofs.Parse.Shift

/-!
# Sessions

What a session answers to one step is listed in `Answered`.  It follows, step by step, that a
session stands before the rest of its tokens and knows the names that it was told to declare, and
so it reads each tree as a new session would that has only the rest of the tokens:

    Answered s next a s'  ↔  s.step next = .ok (a, s')                      (answered_iff)
    the cursor of a session is `Cursor.within tokens p` for some `p`        (within_of_run)
    n ∈ names of the session  ↔  `declare n` was answered by `declared`     (mem_names_of_run)
    the answer to `parse`  =  that of a new session, relocated              (run_fresh)
-/

namespace LineCalc

namespace Session

/-! ## One step -/

/-- What is answered to a step, and the session after it, unless no tree can be read. -/
inductive Answered (s : Session) : Step → Answer → Session → Prop
  | declared {n} : n ∉ s.names →
      Answered s (.declare n) .declared ⟨s.cursor, ⟨n :: s.names.declared⟩⟩
  | refused {n} : n ∈ s.names → Answered s (.declare n) (.refused ⟨n⟩) s
  | found {n} : Answered s (.isDeclared n) (.found (n ∈ s.names)) s
  | tree {level e c} : s.cursor.parseLevel s.names level = .ok (e, c) →
      Answered s (.parse level) (.tree e) ⟨c, s.names⟩

theorem answered_iff {s s' : Session} {next : Step} {a : Answer} :
    Answered s next a s' ↔ s.step next = .ok (a, s') := by
  constructor
  · intro h
    cases h with
    | declared hn => simp [step, Names.declare, hn]
    | refused hn => simp [step, Names.declare, hn]
    | found => rfl
    | tree hp => simp [step, hp]
  · intro h
    cases next with
    | declare n =>
      by_cases hn : n ∈ s.names
      · rw [step, Names.declare, if_pos hn] at h
        cases h
        exact .refused hn
      · rw [step, Names.declare, if_neg hn] at h
        cases h
        exact .declared hn
    | isDeclared n =>
      cases h
      exact .found
    | parse level =>
      rw [step] at h
      cases hp : s.cursor.parseLevel s.names level with
      | ok tree =>
        rw [hp] at h
        cases h
        exact .tree hp
      | error err =>
        rw [hp] at h
        cases h

/-! ## Many steps -/

/-- The session behind the answers that were given. -/
def last (s : Session) (past : List (Answer × Session)) : Session :=
  (past.getLast?.map Prod.snd).getD s

theorem last_cons (s s' : Session) (a : Answer) (past : List (Answer × Session)) :
    s.last ((a, s') :: past) = s'.last past := by
  unfold last
  rw [List.getLast?_cons]
  cases past.getLast? <;> rfl

theorem run_cons_of_answered {s s' : Session} {next : Step} {a : Answer}
    (h : Answered s next a s') (rest : List Step) :
    s.run (next :: rest) = .ok (a, s') :: s'.run rest := by
  rw [run, answered_iff.mp h]

/-- If all steps are answered, so is the first. -/
theorem run_cons_eq_map_ok {s : Session} {next : Step} {rest : List Step}
    {past : List (Answer × Session)} (h : s.run (next :: rest) = past.map .ok) :
    ∃ a s' more, past = (a, s') :: more ∧ Answered s next a s' ∧ s'.run rest = more.map .ok := by
  rw [run] at h
  cases hs : s.step next with
  | ok answer =>
    obtain ⟨a, s'⟩ := answer
    rw [hs] at h
    obtain ⟨x, more, rfl, hx, hmore⟩ := List.map_eq_cons_iff.mp h.symm
    cases hx
    exact ⟨a, s', more, rfl, answered_iff.mpr hs, hmore.symm⟩
  | error err =>
    rw [hs] at h
    obtain ⟨x, more, -, hx, -⟩ := List.map_eq_cons_iff.mp h.symm
    cases hx

theorem run_append {s : Session} {steps : List Step} {past : List (Answer × Session)}
    (h : s.run steps = past.map .ok) (rest : List Step) :
    s.run (steps ++ rest) = past.map .ok ++ (s.last past).run rest := by
  induction steps generalizing s past with
  | nil =>
    obtain rfl := List.map_eq_nil_iff.mp h.symm
    rfl
  | cons next steps ih =>
    obtain ⟨a, s', more, rfl, ha, hmore⟩ := run_cons_eq_map_ok h
    rw [List.cons_append, run_cons_of_answered ha, ih hmore, last_cons]
    rfl

theorem run_singleton (s : Session) (next : Step) : s.run [next] = [s.step next] := by
  rw [run]
  cases s.step next <;> rfl

/-! ## What a session knows -/

/-- Behind a tree there is what follows it in the same tokens. -/
theorem within_of_parse {tokens : List Token} {i : Nat} {r : Parse.Rules} {e : Expr} {c : Cursor}
    (h : (Cursor.within tokens i).parse r = .ok (e, c)) : c = .within tokens c.pos := by
  obtain ⟨pos, rest⟩ := c
  obtain ⟨ts, hrest, hpos, -, -⟩ := Cursor.parse_eq_ok_iff.mp h
  replace hrest : tokens.drop i = ts ++ rest := hrest
  replace hpos : pos = i + ts.length := hpos
  rw [Cursor.within, hpos, ← List.drop_drop, hrest, List.drop_left]

/-- A session goes on to stand at a place in the same tokens. -/
theorem Answered.within {tokens : List Token} {s s' : Session} {next : Step} {a : Answer}
    (h : Answered s next a s') (hs : s.cursor = .within tokens s.cursor.pos) :
    s'.cursor = .within tokens s'.cursor.pos := by
  cases h with
  | declared | refused | found => exact hs
  | @tree level e c hp =>
    rw [hs] at hp
    exact within_of_parse hp

theorem within_of_run {tokens : List Token} {s : Session} {steps : List Step}
    {past : List (Answer × Session)} (h : s.run steps = past.map .ok)
    (hs : s.cursor = .within tokens s.cursor.pos) :
    (s.last past).cursor = .within tokens (s.last past).cursor.pos := by
  induction steps generalizing s past with
  | nil =>
    obtain rfl := List.map_eq_nil_iff.mp h.symm
    exact hs
  | cons next steps ih =>
    obtain ⟨a, s', more, rfl, ha, hmore⟩ := run_cons_eq_map_ok h
    rw [last_cons]
    exact ih hmore (ha.within hs)

/-- Whether one of the steps declared the name, going by its answer. -/
def DeclaredBy (steps : List Step) (past : List (Answer × Session)) (n : Text) : Prop :=
  (Step.declare n, Answer.declared) ∈ steps.zip (past.map Prod.fst)

instance (steps : List Step) (past : List (Answer × Session)) (n : Text) :
    Decidable (DeclaredBy steps past n) :=
  inferInstanceAs (Decidable (_ ∈ _))

theorem Answered.mem_names {s s' : Session} {next : Step} {a : Answer} (h : Answered s next a s')
    (n : Text) : n ∈ s'.names ↔ n ∈ s.names ∨ (Step.declare n, Answer.declared) = (next, a) := by
  cases h with
  | @declared m hn =>
    have hmem : n ∈ (⟨m :: s.names.declared⟩ : Names) ↔ n = m ∨ n ∈ s.names := List.mem_cons
    simpa [or_comm] using hmem
  | refused | found | tree => simp

theorem mem_names_of_run {s : Session} {steps : List Step} {past : List (Answer × Session)}
    (h : s.run steps = past.map .ok) (n : Text) :
    n ∈ (s.last past).names ↔ n ∈ s.names ∨ DeclaredBy steps past n := by
  induction steps generalizing s past with
  | nil =>
    obtain rfl := List.map_eq_nil_iff.mp h.symm
    simp [DeclaredBy, last]
  | cons next steps ih =>
    obtain ⟨a, s', more, rfl, ha, hmore⟩ := run_cons_eq_map_ok h
    rw [last_cons, ih hmore, ha.mem_names n, or_assoc]
    simp only [DeclaredBy, List.map_cons, List.zip_cons_cons, List.mem_cons]

/-! ## A new session -/

/-- New names are all declared, in any order. -/
theorem run_declares {s : Session} {ns : List Text} (hnodup : ns.Nodup)
    (hfresh : ∀ n ∈ ns, n ∉ s.names) :
    ∃ past, s.run (ns.map .declare) = past.map .ok ∧ (∀ a ∈ past, a.1 = .declared) ∧
      s.last past = ⟨s.cursor, ⟨ns.reverse ++ s.names.declared⟩⟩ := by
  induction ns generalizing s with
  | nil => exact ⟨[], rfl, by simp, rfl⟩
  | cons n ns ih =>
    obtain ⟨hn, hnodup⟩ := List.nodup_cons.mp hnodup
    have ha : Answered s (.declare n) .declared ⟨s.cursor, ⟨n :: s.names.declared⟩⟩ :=
      .declared (hfresh n List.mem_cons_self)
    obtain ⟨past, hrun, hdeclared, hlast⟩ := ih (s := ⟨s.cursor, ⟨n :: s.names.declared⟩⟩) hnodup
      fun m hm hmem => by
        rcases List.mem_cons.mp hmem with rfl | hmem
        · exact hn hm
        · exact hfresh m (List.mem_cons_of_mem _ hm) hmem
    refine ⟨(.declared, ⟨s.cursor, ⟨n :: s.names.declared⟩⟩) :: past, ?_, ?_, ?_⟩
    · rw [List.map_cons, run_cons_of_answered ha, hrun]
      rfl
    · exact List.forall_mem_cons.mpr ⟨rfl, hdeclared⟩
    · rw [last_cons, hlast]
      simp

/-- An answer of a session that has `p` tokens less in front and knows other names. -/
def relocate (p : Nat) (names : Names) :
    Except ParseError (Answer × Session) → Except ParseError (Answer × Session)
  | .ok (a, s) => .ok (a, ⟨s.cursor.shift p, names⟩)
  | .error err => .error (err.shift p)

/-- Names count for what they declare, and the tokens before a cursor only for their number. -/
theorem step_parse_within {tokens : List Token} {s : Session} {p : Nat} {ns : List Text}
    (hs : s.cursor = .within tokens p) (hns : ∀ n, n ∈ ns ↔ n ∈ s.names) (level : Level) :
    s.step (.parse level) =
      relocate p s.names (step ⟨.start (tokens.drop p), .ofList ns⟩ (.parse level)) := by
  have hnames : (Cursor.start (tokens.drop p)).parseLevel s.names level =
      (Cursor.start (tokens.drop p)).parseLevel (.ofList ns) level := by
    refine Parse.run_declaring (r := ⟨.ofList ns, level, some nestingLimit⟩) 0 .initial fun t _ => ?_
    exact and_congr_right fun _ => not_congr ((hns _).symm.trans Names.mem_ofList.symm)
  have hread : s.cursor.parseLevel s.names level =
      Parse.shiftResult p ((Cursor.start (tokens.drop p)).parseLevel (.ofList ns) level) := by
    rw [hs, ← Cursor.shift_start, ← hnames]
    exact Cursor.parse_shift _ p _
  rw [step, step, hread]
  cases (Cursor.start (tokens.drop p)).parseLevel (.ofList ns) level with
  | ok tree => rfl
  | error err => rfl

/-- **Sessions are made of new sessions.**  Behind `p` tokens a tree is read as a new session reads
it that has only the tokens from there on and was told, in any order, to declare the names that
were declared before; its place, or the index of its error, is larger by `p`.  A name is refused,
and found, exactly if it was declared before. -/
theorem run_fresh {tokens : List Token} {steps : List Step} {past : List (Answer × Session)}
    {s : Session} (h : (start tokens).run steps = past.map .ok) (hs : (start tokens).last past = s) :
    (∀ (level : Level) (ns : List Text), ns.Nodup → (∀ n, n ∈ ns ↔ DeclaredBy steps past n) →
      ∃ (first : List (Answer × Session)) (answer : Except ParseError (Answer × Session)),
        (start (tokens.drop s.cursor.pos)).run (ns.map .declare ++ [.parse level]) =
          first.map .ok ++ [answer] ∧
        (∀ a ∈ first, a.1 = .declared) ∧
        (start tokens).run (steps ++ [.parse level]) =
          past.map .ok ++ [relocate s.cursor.pos s.names answer]) ∧
      (∀ n, ∃ after, (start tokens).run (steps ++ [.declare n]) =
        past.map .ok ++ [.ok (if DeclaredBy steps past n then .refused ⟨n⟩ else .declared, after)]) ∧
      (∀ n, (start tokens).run (steps ++ [.isDeclared n]) =
        past.map .ok ++ [.ok (.found (DeclaredBy steps past n), s)]) ∧
      ∀ (err : ParseError) (p : Nat), (err.shift p).message = err.message := by
  have hmem (n : Text) : n ∈ s.names ↔ DeclaredBy steps past n := by
    rw [← hs, mem_names_of_run h n]
    exact or_iff_right (Names.not_mem_empty n)
  have hcursor : s.cursor = .within tokens s.cursor.pos := by
    rw [← hs]
    exact within_of_run h rfl
  refine ⟨fun level ns hnodup hns => ?_, fun n => ?_, fun n => ?_, fun err p => err.message_shift p⟩
  · obtain ⟨first, hfirst, hdeclared, hlast⟩ :=
      run_declares (s := start (tokens.drop s.cursor.pos)) hnodup fun n _ => Names.not_mem_empty n
    have hnew : (start (tokens.drop s.cursor.pos)).last first =
        ⟨.start (tokens.drop s.cursor.pos), .ofList ns⟩ := by
      rw [hlast]
      simp [start, Names.empty, Names.ofList]
    refine ⟨first, step ⟨.start (tokens.drop s.cursor.pos), .ofList ns⟩ (.parse level), ?_,
      hdeclared, ?_⟩
    · rw [run_append hfirst, run_singleton, hnew]
    · rw [run_append h, run_singleton, hs,
        step_parse_within hcursor fun n => (hns n).trans (hmem n).symm]
  · rw [run_append h, run_singleton, hs]
    by_cases hn : DeclaredBy steps past n
    · refine ⟨s, ?_⟩
      rw [if_pos hn, answered_iff.mp (.refused ((hmem n).mpr hn))]
    · refine ⟨⟨s.cursor, ⟨n :: s.names.declared⟩⟩, ?_⟩
      rw [if_neg hn, answered_iff.mp (.declared fun hm => hn ((hmem n).mp hm))]
  · rw [run_append h, run_singleton, hs, answered_iff.mp .found]
    simp only [hmem]

/-- In `7(x` the group is the second token, and the first one behind the `7` that was read. -/
theorem run_group_unmatched :
    (start [⟨.integer, ['7']⟩, .opening, ⟨.identifier, ['x']⟩]).run
        [.declare ['x'], .parse .factor] =
      [(.declared, ⟨⟨0, [⟨.integer, ['7']⟩, .opening, ⟨.identifier, ['x']⟩]⟩, ⟨[['x']]⟩⟩),
        (.tree (.number ['7']), ⟨⟨1, [.opening, ⟨.identifier, ['x']⟩]⟩, ⟨[['x']]⟩⟩)].map .ok ∧
      (start [.opening, ⟨.identifier, ['x']⟩]).run [.declare ['x'], .parse .expression] =
        [.ok (.declared, ⟨⟨0, [.opening, ⟨.identifier, ['x']⟩]⟩, ⟨[['x']]⟩⟩),
          .error (.unmatched 0)] ∧
      ((start [⟨.integer, ['7']⟩, .opening, ⟨.identifier, ['x']⟩]).run
        [.declare ['x'], .parse .factor, .parse .expression]).getLast? =
          some (.error (.unmatched 1)) := by
  have h : (start [⟨.integer, ['7']⟩, .opening, ⟨.identifier, ['x']⟩]).run
      [.declare ['x'], .parse .factor] =
      [(.declared, ⟨⟨0, [⟨.integer, ['7']⟩, .opening, ⟨.identifier, ['x']⟩]⟩, ⟨[['x']]⟩⟩),
        (.tree (.number ['7']), ⟨⟨1, [.opening, ⟨.identifier, ['x']⟩]⟩, ⟨[['x']]⟩⟩)].map .ok := rfl
  have hnew : (start [.opening, ⟨.identifier, ['x']⟩]).run [.declare ['x'], .parse .expression] =
      [.ok (.declared, ⟨⟨0, [.opening, ⟨.identifier, ['x']⟩]⟩, ⟨[['x']]⟩⟩),
        .error (.unmatched 0)] := rfl
  obtain ⟨first, answer, hfirst, -, hrun⟩ := (run_fresh h rfl).1 .expression [['x']] (by decide)
    fun n => by simp [DeclaredBy]
  have hanswer : answer = .error (.unmatched 0) := by
    have hlast := congrArg List.getLast? (hfirst.symm.trans hnew)
    simpa using hlast
  refine ⟨h, hnew, ?_⟩
  have hlast := congrArg List.getLast? hrun
  rw [List.getLast?_concat, hanswer] at hlast
  exact hlast

end Session

end LineCalc
