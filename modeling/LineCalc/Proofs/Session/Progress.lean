import LineCalc.Proofs.Session

/-!
# How far a session gets

The tokens of a session end where the first of them ends the input, or behind the last one.  No
tree reaches beyond that place, and each one takes at least one token, so a session comes to an end
that it never leaves:

    s.cursor.pos ≤ inputLength tokens                                     (pos_le_of_run)
    s.cursor.AtEnd  ↔  s.cursor.pos = inputLength tokens                  (atEnd_within_iff)
    a tree is read  →  the position grows and the names stay              (Answered.tree_pos_lt)
    at the end no tree is read, and nothing moves                         (cursor_of_run_of_atEnd)
    trees in the answers  ≤  tokens left                                  (countP_isTree_le)
-/

namespace LineCalc

/-! ## Where the tokens end -/

/-- The number of tokens before the first that ends the input, or of all if there is none. -/
def Token.inputLength (tokens : List Token) : Nat := tokens.findIdx fun t => t.kind = .endOfInput

theorem Cursor.current_within (tokens : List Token) (p : Nat) :
    (within tokens p).current = tokens[p]?.getD Token.endOfInput := by
  rw [current, within, List.headD_eq_head?_getD, List.head?_drop]

/-- Up to its end, the input is at the end nowhere else. -/
theorem Cursor.atEnd_within_iff {tokens : List Token} {p : Nat} (h : p ≤ Token.inputLength tokens) :
    (within tokens p).AtEnd ↔ p = Token.inputLength tokens := by
  unfold AtEnd
  rw [current_within]
  constructor
  · intro hend
    rcases Nat.lt_or_eq_of_le h with hlt | heq
    · have hlen : p < tokens.length := Nat.lt_of_lt_of_le hlt List.findIdx_le_length
      have hkind := List.not_of_lt_findIdx hlt
      rw [List.getElem?_eq_getElem hlen, Option.getD_some] at hend
      exact absurd hend (of_decide_eq_false hkind)
    · exact heq
  · rintro rfl
    by_cases hlen : Token.inputLength tokens < tokens.length
    · have hkind := List.findIdx_getElem (w := hlen)
      rw [List.getElem?_eq_getElem hlen, Option.getD_some]
      exact of_decide_eq_true hkind
    · rw [List.getElem?_eq_none (Nat.le_of_not_lt hlen)]
      rfl

/-- Tokens that do not end the input come before its end. -/
theorem Token.le_inputLength {tokens taken rest : List Token} {p : Nat}
    (hp : p ≤ inputLength tokens) (hdrop : tokens.drop p = taken ++ rest)
    (htaken : ∀ t ∈ taken, t.kind ≠ .endOfInput) :
    p + taken.length ≤ inputLength tokens := by
  by_contra hlt
  have hend : inputLength tokens - p < taken.length := by omega
  have hget : tokens[inputLength tokens]? = some taken[inputLength tokens - p] := by
    have h := congrArg (·[inputLength tokens - p]?) hdrop
    simp only [List.getElem?_drop, List.getElem?_append_left hend,
      List.getElem?_eq_getElem hend] at h
    rwa [Nat.add_sub_cancel' hp] at h
  obtain ⟨hlen, hget⟩ := List.getElem?_eq_some_iff.mp hget
  have hkind := of_decide_eq_true (List.findIdx_getElem (w := hlen))
  refine htaken _ (List.getElem_mem hend) ?_
  rw [← hget]
  exact hkind

/-! ## Trees take tokens -/

/-- What is passed over for a tree: at least one token, and none that ends the input. -/
theorem Cursor.exists_passed {r : Parse.Rules} {c c' : Cursor} {e : Expr}
    (h : c.parse r = .ok (e, c')) :
    ∃ taken, c.rest = taken ++ c'.rest ∧ c'.pos = c.pos + taken.length ∧ taken ≠ [] ∧
      ∀ t ∈ taken, t.kind ≠ .endOfInput := by
  obtain ⟨taken, hrest, hpos, hd, -⟩ := parse_eq_ok_iff.mp h
  exact ⟨taken, hrest, hpos, hd.flattens.ne_nil, hd.flattens.kind_ne_endOfInput⟩

/-- Where the input ends no tree is read. -/
theorem Cursor.parse_of_atEnd {c : Cursor} (h : c.AtEnd) (r : Parse.Rules) :
    c.parse r = .error (.unexpected c.current.text c.pos) :=
  Parse.run_of_fail (Parse.effect_iff.mp (.unexpected (Token.not_beginsOperand_of_kind h)))

namespace Session

/-! ## One step -/

theorem Answered.tree_pos_lt {s s' : Session} {level : Level} {a : Answer}
    (h : Answered s (.parse level) a s') :
    s.cursor.pos < s'.cursor.pos ∧ s'.names = s.names := by
  cases h with
  | tree hp =>
    obtain ⟨taken, -, hpos, hne, -⟩ := Cursor.exists_passed hp
    have := List.length_pos_iff.mpr hne
    exact ⟨by simp only; omega, rfl⟩

theorem Answered.pos_le {tokens : List Token} {s s' : Session} {next : Step} {a : Answer}
    (h : Answered s next a s') (hs : s.cursor = .within tokens s.cursor.pos)
    (hle : s.cursor.pos ≤ Token.inputLength tokens) :
    s'.cursor.pos ≤ Token.inputLength tokens := by
  cases h with
  | declared | refused | found => exact hle
  | tree hp =>
    obtain ⟨taken, hrest, hpos, -, htaken⟩ := Cursor.exists_passed hp
    rw [hs] at hrest
    simp only [hpos]
    exact Token.le_inputLength hle hrest htaken

/-- A declaration leaves the cursor where it is, and is refused without a trace. -/
theorem exists_answered_declare (s : Session) (n : Text) :
    ∃ a s', Answered s (.declare n) a s' ∧ s'.cursor = s.cursor ∧
      (a ≠ .declared → s'.names = s.names) := by
  by_cases hn : n ∈ s.names
  · exact ⟨_, s, .refused hn, rfl, fun _ => rfl⟩
  · exact ⟨_, _, .declared hn, rfl, fun h => absurd rfl h⟩

/-- At the end of the input, a step that is answered leaves the cursor where it is. -/
theorem Answered.cursor_of_atEnd {s s' : Session} {next : Step} {a : Answer}
    (h : Answered s next a s') (hend : s.cursor.AtEnd) : s'.cursor = s.cursor := by
  cases h with
  | declared | refused | found => rfl
  | tree hp => cases hp.symm.trans (Cursor.parse_of_atEnd hend _)

/-! ## Many steps -/

theorem pos_le_of_run {tokens : List Token} {s : Session} {steps : List Step}
    {past : List (Answer × Session)} (h : s.run steps = past.map .ok)
    (hs : s.cursor = .within tokens s.cursor.pos)
    (hle : s.cursor.pos ≤ Token.inputLength tokens) :
    (s.last past).cursor.pos ≤ Token.inputLength tokens := by
  induction steps generalizing s past with
  | nil =>
    obtain rfl := List.map_eq_nil_iff.mp h.symm
    exact hle
  | cons next steps ih =>
    obtain ⟨a, s', more, rfl, ha, hmore⟩ := run_cons_eq_map_ok h
    rw [last_cons]
    exact ih hmore (ha.within hs) (ha.pos_le hs hle)

theorem cursor_of_run_of_atEnd {s : Session} {steps : List Step}
    {past : List (Answer × Session)} (h : s.run steps = past.map .ok) (hend : s.cursor.AtEnd) :
    (s.last past).cursor = s.cursor := by
  induction steps generalizing s past with
  | nil =>
    obtain rfl := List.map_eq_nil_iff.mp h.symm
    rfl
  | cons next steps ih =>
    obtain ⟨a, s', more, rfl, ha, hmore⟩ := run_cons_eq_map_ok h
    have hcursor := ha.cursor_of_atEnd hend
    rw [last_cons, ih hmore (by rw [hcursor]; exact hend), hcursor]

/-- Whether a tree was read. -/
def isTree : Except ParseError (Answer × Session) → Bool
  | .ok (.tree _, _) => true
  | _ => false

/-- Each tree that is read uses up one of the tokens that are left. -/
theorem countP_isTree_le {tokens : List Token} (s : Session) (steps : List Step)
    (hs : s.cursor = .within tokens s.cursor.pos)
    (hle : s.cursor.pos ≤ Token.inputLength tokens) :
    (s.run steps).countP isTree ≤ Token.inputLength tokens - s.cursor.pos := by
  induction steps generalizing s with
  | nil => exact Nat.zero_le _
  | cons next steps ih =>
    cases hstep : s.step next with
    | error err =>
      rw [run, hstep]
      exact Nat.zero_le _
    | ok answer =>
      obtain ⟨a, s'⟩ := answer
      have ha := answered_iff.mpr hstep
      have hrest := ih s' (ha.within hs) (ha.pos_le hs hle)
      rw [run_cons_of_answered ha, List.countP_cons]
      cases ha with
      | declared | refused | found => exact hrest
      | tree hp =>
        have hlt := (Answered.tree hp).tree_pos_lt.1
        have hle' := (Answered.tree hp).pos_le hs hle
        rw [if_pos (show isTree (.ok (.tree _, _)) = true from rfl)]
        omega

/-- **Progress.**  Whatever was asked of a session, as long as each tree could be read: it stands
nowhere behind the end of the input, and is at its end there and only there.  From there it reads a
tree only by moving on, and declares and looks up names without moving.  At the end it stays, and
no further tree is read.  So there are never more trees than tokens before the end. -/
theorem run_progress {tokens : List Token} {steps : List Step} {past : List (Answer × Session)}
    {s : Session} (h : (start tokens).run steps = past.map .ok) (hs : (start tokens).last past = s) :
    s.cursor.pos ≤ Token.inputLength tokens ∧
      (s.cursor.AtEnd ↔ s.cursor.pos = Token.inputLength tokens) ∧
      (∀ level a s', s.step (.parse level) = .ok (a, s') →
        s.cursor.pos < s'.cursor.pos ∧ s'.names = s.names) ∧
      (∀ n, ∃ a s', s.step (.declare n) = .ok (a, s') ∧ s'.cursor = s.cursor ∧
        (a ≠ .declared → s'.names = s.names)) ∧
      (∀ n, ∃ found, s.step (.isDeclared n) = .ok (.found found, s)) ∧
      (s.cursor.AtEnd →
        (∀ level, s.step (.parse level) =
          .error (.unexpected s.cursor.current.text s.cursor.pos)) ∧
        (ParseError.unexpected s.cursor.current.text s.cursor.pos).message =
          "Unexpected token: ".toList ++ s.cursor.current.text ∧
        ∀ more later, s.run more = later.map .ok → (s.last later).cursor = s.cursor) ∧
      ∀ others, ((start tokens).run others).countP isTree ≤ Token.inputLength tokens := by
  have hcursor : s.cursor = .within tokens s.cursor.pos := by
    rw [← hs]
    exact within_of_run h rfl
  have hpos : s.cursor.pos ≤ Token.inputLength tokens := by
    rw [← hs]
    exact pos_le_of_run h rfl (Nat.zero_le _)
  refine ⟨hpos, ?_, fun level a s' hstep => (answered_iff.mpr hstep).tree_pos_lt, fun n => ?_,
    fun n => ⟨_, answered_iff.mp .found⟩,
    fun hend => ⟨fun level => ?_, rfl, fun more later hrun => cursor_of_run_of_atEnd hrun hend⟩,
    fun others => countP_isTree_le (start tokens) others rfl (Nat.zero_le _)⟩
  · rw [hcursor]
    exact Cursor.atEnd_within_iff hpos
  · obtain ⟨a, s', ha, hmoved, hnames⟩ := s.exists_answered_declare n
    exact ⟨a, s', answered_iff.mp ha, hmoved, hnames⟩
  · have hread : s.cursor.parseLevel s.names level =
        .error (.unexpected s.cursor.current.text s.cursor.pos) := Cursor.parse_of_atEnd hend _
    rw [step, hread]

/-- In `x*7`, with more tokens behind the one that ends the input, a session that has read `x*7`
is at the end, where it was told to declare `x` again in vain. -/
theorem run_product_to_end :
    (start [⟨.identifier, ['x']⟩, ⟨.operator, ['*']⟩, ⟨.integer, ['7']⟩, ⟨.endOfInput, ['$']⟩,
        ⟨.integer, ['8']⟩]).run [.declare ['x'], .parse .expression, .declare ['x']] =
      [(.declared, ⟨.start [⟨.identifier, ['x']⟩, ⟨.operator, ['*']⟩, ⟨.integer, ['7']⟩,
          ⟨.endOfInput, ['$']⟩, ⟨.integer, ['8']⟩], ⟨[['x']]⟩⟩),
        (.tree (.binary ['*'] (.identifier ['x']) (.number ['7'])),
          ⟨⟨3, [⟨.endOfInput, ['$']⟩, ⟨.integer, ['8']⟩]⟩, ⟨[['x']]⟩⟩),
        (.refused ⟨['x']⟩,
          ⟨⟨3, [⟨.endOfInput, ['$']⟩, ⟨.integer, ['8']⟩]⟩, ⟨[['x']]⟩⟩)].map .ok ∧
      step ⟨⟨3, [⟨.endOfInput, ['$']⟩, ⟨.integer, ['8']⟩]⟩, ⟨[['x']]⟩⟩ (.parse .factor) =
        .error (.unexpected ['$'] 3) := by
  have h : (start [⟨.identifier, ['x']⟩, ⟨.operator, ['*']⟩, ⟨.integer, ['7']⟩,
        ⟨.endOfInput, ['$']⟩, ⟨.integer, ['8']⟩]).run
          [.declare ['x'], .parse .expression, .declare ['x']] =
      [(.declared, ⟨.start [⟨.identifier, ['x']⟩, ⟨.operator, ['*']⟩, ⟨.integer, ['7']⟩,
          ⟨.endOfInput, ['$']⟩, ⟨.integer, ['8']⟩], ⟨[['x']]⟩⟩),
        (.tree (.binary ['*'] (.identifier ['x']) (.number ['7'])),
          ⟨⟨3, [⟨.endOfInput, ['$']⟩, ⟨.integer, ['8']⟩]⟩, ⟨[['x']]⟩⟩),
        (.refused ⟨['x']⟩,
          ⟨⟨3, [⟨.endOfInput, ['$']⟩, ⟨.integer, ['8']⟩]⟩, ⟨[['x']]⟩⟩)].map .ok := rfl
  obtain ⟨-, hend, -, -, -, hstay, -⟩ := run_progress h rfl
  exact ⟨h, (hstay (hend.mpr rfl)).1 .factor⟩

end Session

end LineCalc
