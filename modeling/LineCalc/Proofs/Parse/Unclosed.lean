import LineCalc.Proofs.Parse.Nesting

/-!
# The innermost open group

A group that is not closed is found out where an expression inside it is complete and something
else follows than its closing parenthesis.  All groups that were opened later are closed by then,
so it is the innermost of those that are still open, and the error points at it:

    groups of the state behind ts = the parentheses that ts open and do not close
                                                                     (index_groups_of_take)
    before is taken, and an operand is due  ↔  with a number behind it, it begins an expression
                                                                     (exists_take_iff)
    parse tokens declared = .error (.parse (.unmatched o))
      ↔  for some j, EndsUnclosed declared tokens o j                (parse_unmatched_iff)
-/

namespace LineCalc

namespace Token

/-- The indices of the open groups behind token number `pos`, the innermost one first. -/
def openAfter (pos : Nat) (opened : List Nat) (t : Token) : List Nat :=
  if t = opening then pos :: opened else if t = closing then opened.tail else opened

/-- The same behind a list of tokens, the first of which has the number `pos`. -/
def openFrom (pos : Nat) (opened : List Nat) : List Token → List Nat
  | [] => opened
  | t :: rest => openFrom (pos + 1) (openAfter pos opened t) rest

/-- The indices of the parentheses that the tokens open and do not close, the innermost first. -/
def openGroups (ts : List Token) : List Nat := openFrom 0 [] ts

theorem openAfter_of_kind {t : Token} (h : t.kind ≠ .parenthesis) (pos : Nat)
    (opened : List Nat) : openAfter pos opened t = opened := by
  unfold openAfter
  rw [if_neg fun ho => h (by rw [ho]; rfl), if_neg fun hc => h (by rw [hc]; rfl)]

/-- Of two open groups the inner one was opened later, and both before the next token. -/
def InOrder (pos : Nat) (opened : List Nat) : Prop :=
  opened.Pairwise (· > ·) ∧ ∀ i ∈ opened, i < pos

theorem InOrder.openAfter {pos : Nat} {opened : List Nat} (h : InOrder pos opened) (t : Token) :
    InOrder (pos + 1) (openAfter pos opened t) := by
  obtain ⟨hsorted, hlt⟩ := h
  unfold Token.openAfter
  split
  · refine ⟨hsorted.cons hlt, fun i hi => ?_⟩
    rcases List.mem_cons.mp hi with rfl | hi
    · omega
    · have := hlt i hi
      omega
  · split
    · refine ⟨hsorted.tail, fun i hi => ?_⟩
      have := hlt i (List.mem_of_mem_tail hi)
      omega
    · refine ⟨hsorted, fun i hi => ?_⟩
      have := hlt i hi
      omega

theorem InOrder.openFrom {pos : Nat} {opened : List Nat} (h : InOrder pos opened)
    (ts : List Token) : InOrder (pos + ts.length) (openFrom pos opened ts) := by
  induction ts generalizing pos opened with
  | nil => exact h
  | cons t rest ih =>
    rw [List.length_cons, show pos + (rest.length + 1) = pos + 1 + rest.length by omega]
    exact ih (h.openAfter t)

theorem inOrder_openGroups (ts : List Token) : InOrder (0 + ts.length) (openGroups ts) :=
  InOrder.openFrom ⟨.nil, by simp⟩ ts

end Token

open Token (openAfter openFrom openGroups)

namespace Parse

variable {r : Rules} {pos : Nat} {s s' : State} {t : Token}

/-! ## Open groups -/

theorem index_groups_of_next (h : step r pos s t = .next s') :
    s'.groups.map Group.index = openAfter pos (s.groups.map Group.index) t := by
  cases effect_iff.mpr h with
  | number hk =>
    rw [Token.openAfter_of_kind]
    rcases hk with hk | hk <;> rw [hk] <;> decide
  | name hk => rw [Token.openAfter_of_kind (by rw [hk]; decide)]
  | operator hc => rw [Token.openAfter_of_kind (by rw [hc.1]; decide)]
  | enter => rfl
  | leave => rfl

theorem index_groups_of_take {ts : List Token} (h : take r pos s ts = some s') :
    s'.groups.map Group.index = openFrom pos (s.groups.map Group.index) ts := by
  induction ts generalizing pos s with
  | nil =>
    cases h
    rfl
  | cons t ts ih =>
    obtain ⟨s₁, ht, h⟩ := take_cons_eq_some_iff.mp h
    rw [ih h, index_groups_of_next ht, openFrom]

theorem take_append_eq_some_iff {ts us : List Token} :
    take r pos s (ts ++ us) = some s' ↔
      ∃ s₁, take r pos s ts = some s₁ ∧ take r (pos + ts.length) s₁ us = some s' := by
  constructor
  · intro h
    induction ts generalizing pos s with
    | nil => exact ⟨s, rfl, h⟩
    | cons t ts ih =>
      obtain ⟨s₂, ht, h⟩ := take_cons_eq_some_iff.mp h
      obtain ⟨s₁, hs₁, hus⟩ := ih h
      refine ⟨s₁, by rw [take_cons_of_next ht, hs₁], ?_⟩
      rwa [List.length_cons, show pos + (ts.length + 1) = pos + 1 + ts.length by omega]
  · rintro ⟨s₁, hts, hus⟩
    rw [take_append hts, hus]

/-! ## Limits -/

theorem length_groups_le_of_take {limit : Nat} (hr : r.limit = some limit) {ts : List Token}
    (hs : s.groups.length ≤ limit) (h : take r pos s ts = some s') :
    s'.groups.length ≤ limit := by
  induction ts generalizing pos s with
  | nil =>
    cases h
    exact hs
  | cons t ts ih =>
    obtain ⟨s₁, ht, h⟩ := take_cons_eq_some_iff.mp h
    exact ih (length_groups_le_of_next hr hs ht) h

/-- No part of what is taken opens more groups than the limit allows. -/
theorem length_openGroups_take_le {limit : Nat} (hr : r.limit = some limit) {ts : List Token}
    (h : take r 0 .initial ts = some s) (k : Nat) : (openGroups (ts.take k)).length ≤ limit := by
  rw [← List.take_append_drop k ts] at h
  obtain ⟨s₁, hs₁, -⟩ := take_append_eq_some_iff.mp h
  have hindex : s₁.groups.map Group.index = openGroups (ts.take k) := index_groups_of_take hs₁
  rw [← hindex, List.length_map]
  exact length_groups_le_of_take hr (s := .initial) (Nat.zero_le limit) hs₁

/-- Without a limit no more is taken than with one, unless more groups are open than it allows. -/
theorem take_of_unlimited {limit : Nat} (hr : r.limit = some limit) {ts : List Token}
    (h : take r.unlimited pos s ts = some s')
    (hle : ∀ k ≤ ts.length,
      (openFrom pos (s.groups.map Group.index) (ts.take k)).length ≤ limit) :
    take r pos s ts = some s' := by
  induction ts generalizing pos s with
  | nil => exact h
  | cons t ts ih =>
    obtain ⟨s₁, ht, h⟩ := take_cons_eq_some_iff.mp h
    rcases step_unlimited r pos s t with hdeep | hsame
    · cases effect_iff.mpr hdeep with
      | @tooDeep gs p hm =>
        have hone : gs.length + 1 ≤ limit := by
          have := hle 1 (by simp)
          simpa [openFrom, openAfter] using this
        rw [mayOpen_iff.mpr fun most hmost => by
          cases hr.symm.trans hmost
          omega] at hm
        cases hm
    · rw [hsame] at ht
      rw [take_cons_of_next ht]
      refine ih h fun k hk => ?_
      have hnext := hle (k + 1) (by rw [List.length_cons]; omega)
      rwa [List.take_succ_cons, openFrom, ← index_groups_of_next ht] at hnext

/-! ## Where an operand is due -/

/-- The tokens are taken, and an operand has to begin behind them, exactly if they begin an
expression that goes on with a number. -/
theorem exists_take_iff {before : List Token} :
    (∃ gs p, take r 0 .initial before = some ⟨gs, p, none⟩) ↔
      ∃ more e, Derives r 0 r.level e (before ++ ⟨.integer, ['0']⟩ :: more) := by
  constructor
  · rintro ⟨gs, p, hbefore⟩
    have hzero : step r (0 + before.length) ⟨gs, p, none⟩ ⟨.integer, ['0']⟩ =
        .next ⟨gs, p, some (.number ['0'])⟩ := effect_iff.mp (.number (.inl rfl))
    obtain ⟨more, e, c, hrun⟩ := exists_closing r (0 + before.length + 1) gs p (.number ['0'])
    obtain ⟨taken, s', -, -, htaken, hstop⟩ := run_eq_ok_iff.mp hrun
    have hall : take r 0 .initial (before ++ ⟨.integer, ['0']⟩ :: taken) = some s' :=
      take_append_eq_some_iff.mpr ⟨_, hbefore, (take_cons_of_next hzero taken).trans htaken⟩
    exact ⟨taken, e, ((State.holds_of_take hall).stop hstop).1⟩
  · rintro ⟨more, e, h⟩
    obtain ⟨q, x, htake, -⟩ := h.exists_take 0 [] .empty rfl fun o ho => ho
    obtain ⟨s, hbefore, hrest⟩ := take_append_eq_some_iff.mp htake
    obtain ⟨s₁, hstep, -⟩ := take_cons_eq_some_iff.mp hrest
    cases effect_iff.mpr hstep with
    | number => exact ⟨_, _, hbefore⟩
    | name hk => cases hk
    | operator hc => cases hc.1

/-! ## A group and the expression in it -/

/-- The innermost group begins where an operand is due, and holds an expression. -/
theorem exists_group_of_take {ts : List Token} {g : Group} {gs : List Group} {p : Pending}
    {x : Expr} (h : take r 0 .initial ts = some ⟨g :: gs, p, some x⟩) :
    ∃ before inside, ts = before ++ .opening :: inside ∧ g.index = before.length ∧
      (∃ gs' p', take r 0 .initial before = some ⟨gs', p', none⟩) ∧
      Derives r (gs.length + 1) .expression (p.whole x) inside := by
  have hholds := State.holds_of_take h
  cases hholds with
  | @behind _ _ _ gts us xs hopened hpending hoperand =>
    cases hopened with
    | @cons _ p₀ ots ous hg hp₀ hm =>
      refine ⟨ots ++ ous, us ++ xs, by simp, Nat.zero_add _, ?_, hpending.whole hoperand⟩
      rw [List.append_assoc, List.append_assoc, List.singleton_append] at h
      obtain ⟨s, hbefore, hrest⟩ := take_append_eq_some_iff.mp h
      obtain ⟨s₁, hstep, -⟩ := take_cons_eq_some_iff.mp hrest
      cases effect_iff.mpr hstep with
      | number hk => exact (hk.elim nofun nofun : False).elim
      | name hk => cases hk
      | operator hc => cases hc.1
      | enter => exact ⟨_, _, hbefore⟩

/-- Where an operand is due, a group can begin, and an expression in it is taken. -/
theorem exists_take_group {before inside : List Token} {gs : List Group} {p : Pending} {e : Expr}
    (hbefore : take r 0 .initial before = some ⟨gs, p, none⟩) (hm : r.mayOpen gs.length = true)
    (h : Derives r (gs.length + 1) .expression e inside) :
    ∃ q x, take r 0 .initial (before ++ .opening :: inside) =
      some ⟨⟨before.length, p⟩ :: gs, q, some x⟩ := by
  have hopen : step r (0 + before.length) ⟨gs, p, none⟩ .opening =
      .next ⟨⟨before.length, p⟩ :: gs, .empty, none⟩ := by
    rw [Nat.zero_add]
    exact effect_iff.mp (.enter hm)
  obtain ⟨q, x, hinside, -⟩ := h.exists_take (0 + before.length + 1) (⟨before.length, p⟩ :: gs)
    .empty rfl fun o ho => ho
  exact ⟨q, x, take_append_eq_some_iff.mpr ⟨_, hbefore, (take_cons_of_next hopen _).trans hinside⟩⟩

end Parse

open Parse

/-! ## Groups that are not closed -/

/-- The tokens are written for one expression, which has no names but declared ones. -/
def Expr.WrittenFor (e : Expr) (declared : List Text) (ts : List Token) : Prop :=
  e.HasLevel .expression ∧ e.Flattens ts ∧ ∀ n ∈ e.names, n ∈ declared

/-- The group that begins with token number `o` ends before token number `j` and is not closed. -/
structure EndsUnclosed (declared : List Text) (tokens : List Token) (o j : Nat) : Prop where
  opening : tokens[o]? = some .opening
  /-- Where the group begins an operand is due: with a number there the tokens before it begin an
  expression. -/
  due : ∃ more e, Expr.WrittenFor e declared (tokens.take o ++ ⟨.integer, ['0']⟩ :: more)
  lt : o + 1 < j
  le_length : j ≤ tokens.length
  /-- What is in the group is one expression. -/
  inside : ∃ e, Expr.WrittenFor e declared (tokens.extract (o + 1) j)
  /-- The token behind the expression does not close the group. -/
  not_closing : (Cursor.within tokens j).current ≠ .closing
  /-- The expression does not go on with it either. -/
  not_continues : ¬ Level.expression.Continues (Cursor.within tokens j).current
  /-- On the way there no more groups are open than are allowed. -/
  limited : ∀ k ≤ j, (openGroups (tokens.take k)).length ≤ nestingLimit

section
variable {declared : List Text} {tokens : List Token} {o j : Nat}

theorem Parse.Derives.writtenFor {limit : Option Nat} {depth : Nat} {e : Expr} {ts : List Token}
    (h : Derives ⟨.ofList declared, .expression, limit⟩ depth .expression e ts) :
    e.WrittenFor declared ts :=
  ⟨h.hasLevel, h.flattens, fun n hn => Names.mem_ofList.mp (h.declared n hn)⟩

theorem Expr.WrittenFor.derives {e : Expr} {ts : List Token} (h : e.WrittenFor declared ts)
    (depth : Nat) : Derives (rulesFor declared).unlimited depth .expression e ts := by
  obtain ⟨hlevel, hflat, hnames⟩ := h
  refine derives_of_flattens hflat hlevel (fun n hn => Names.mem_ofList.mpr (hnames n hn)) ?_
  intro limit hlimit
  cases hlimit

theorem extract_behind (before inside rest : List Token) (t : Token) :
    (before ++ t :: inside ++ rest).extract (before.length + 1) (before ++ t :: inside).length =
      inside := by
  have hdrop : (before ++ t :: inside ++ rest).drop (before.length + 1) = inside ++ rest := by
    rw [List.append_cons, List.append_assoc, List.drop_left' (by simp)]
  have hlength : (before ++ t :: inside).length - (before.length + 1) = inside.length := by
    rw [List.length_append, List.length_cons]
    omega
  rw [List.extract_eq_take_drop, hdrop, hlength, List.take_left]

theorem current_within_append (taken rest : List Token) :
    (Cursor.within (taken ++ rest) taken.length).current = rest.headD Token.endOfInput := by
  simp [Cursor.within, Cursor.current]

/-- All that was taken when a group turns out not to be closed. -/
theorem EndsUnclosed.of_take {taken rest : List Token} {g : Group} {gs : List Group} {p : Pending}
    {x : Expr} (h : take (rulesFor declared) 0 .initial taken = some ⟨g :: gs, p, some x⟩)
    (hc : ¬ Level.expression.Continues (rest.headD Token.endOfInput))
    (ht : rest.headD Token.endOfInput ≠ .closing) :
    EndsUnclosed declared (taken ++ rest) g.index taken.length := by
  obtain ⟨before, inside, rfl, hindex, hbefore, hinside⟩ := exists_group_of_take h
  obtain ⟨more, e, hdue⟩ := exists_take_iff.mp hbefore
  have hsome := List.length_pos_iff.mpr hinside.flattens.ne_nil
  have htake : (before ++ .opening :: inside ++ rest).take before.length = before := by
    rw [List.append_assoc, List.take_left]
  rw [hindex]
  refine ⟨by simp, ⟨more, e, ?_⟩, ?_, ?_, ⟨p.whole x, ?_⟩, ?_, ?_, fun k hk => ?_⟩
  · rw [htake]
    exact hdue.writtenFor
  · rw [List.length_append, List.length_cons]
    omega
  · exact (List.prefix_append _ _).length_le
  · rw [extract_behind]
    exact hinside.writtenFor
  · rwa [current_within_append]
  · rwa [current_within_append]
  · rw [List.take_append_of_le_length hk]
    exact length_openGroups_take_le rfl h k

theorem EndsUnclosed.split (h : EndsUnclosed declared tokens o j) :
    tokens.take j = tokens.take o ++ .opening :: tokens.extract (o + 1) j := by
  obtain ⟨hlt, hget⟩ := List.getElem?_eq_some_iff.mp h.opening
  have hj := h.lt
  rw [← List.take_append_drop o (tokens.take j), List.take_take, Nat.min_eq_left (by omega),
    List.drop_take, List.drop_eq_getElem_cons hlt, hget, show j - o = j - (o + 1) + 1 by omega,
    List.take_succ_cons, List.extract_eq_take_drop]

theorem EndsUnclosed.exists_take (h : EndsUnclosed declared tokens o j) :
    ∃ p gs q x, take (rulesFor declared) 0 .initial (tokens.take j) =
      some ⟨⟨o, p⟩ :: gs, q, some x⟩ := by
  obtain ⟨more, e, hdue⟩ := h.due
  obtain ⟨e', hinside⟩ := h.inside
  obtain ⟨gs, p, hbefore⟩ := exists_take_iff.mpr ⟨more, e, hdue.derives 0⟩
  obtain ⟨q, x, htake⟩ := exists_take_group hbefore rfl (hinside.derives (gs.length + 1))
  have hlength : (tokens.take o).length = o := by
    have := h.lt
    have := h.le_length
    rw [List.length_take]
    omega
  rw [← h.split, hlength] at htake
  refine ⟨p, gs, q, x, take_of_unlimited rfl htake fun k hk => ?_⟩
  rw [List.length_take] at hk
  rw [List.take_take]
  exact h.limited _ (by omega)

/-- **The innermost open group.**  An error at an unmatched parenthesis means that an operand is due
where the parenthesis stands, that one complete expression follows it, and that what comes then
neither closes the group nor belongs to the expression; and wherever all this is so, and no more
groups are open than are allowed, there is that error.  Of the groups that are open there it is the
innermost: those behind it are closed, and all others lie before it. -/
theorem parse_unmatched_iff (hd : declared.Nodup) (o : Nat) :
    (parse tokens declared = .error (.parse (.unmatched o)) ↔
        ∃ j, EndsUnclosed declared tokens o j) ∧
      ∀ j, EndsUnclosed declared tokens o j →
        (∃ outer, openGroups (tokens.take j) = o :: outer ∧ ∀ i ∈ outer, i < o) ∧
        ∀ i, o < i → i < j → tokens[i]? = some .opening → i ∉ openGroups (tokens.take j) := by
  have hrun : parse tokens declared = .error (.parse (.unmatched o)) ↔
      run (rulesFor declared) 0 .initial tokens = .error (.unmatched o) :=
    parse_eq_error_iff.trans (and_iff_right hd)
  refine ⟨hrun.trans ⟨fun h => ?_, ?_⟩, fun j h => ?_⟩
  · obtain ⟨taken, rest, s, rfl, htake, hfail⟩ := run_eq_error_iff.mp h
    generalize hcurrent : rest.headD Token.endOfInput = t at hfail
    cases effect_iff.mpr hfail with
    | unmatched hc ht =>
      subst hcurrent
      exact ⟨_, .of_take htake hc ht⟩
  · rintro ⟨j, h⟩
    obtain ⟨p, gs, q, x, htake⟩ := h.exists_take
    refine run_eq_error_iff.mpr ⟨_, _, _, (List.take_append_drop j tokens).symm, htake, ?_⟩
    exact effect_iff.mp (.unmatched (g := ⟨o, p⟩) h.not_continues h.not_closing)
  · obtain ⟨p, gs, q, x, htake⟩ := h.exists_take
    have hopen : o :: gs.map Group.index = openGroups (tokens.take j) := index_groups_of_take htake
    obtain ⟨hsorted, -⟩ := Token.inOrder_openGroups (tokens.take j)
    rw [← hopen] at hsorted ⊢
    have houter : ∀ i ∈ gs.map Group.index, i < o := fun i => List.rel_of_pairwise_cons hsorted
    refine ⟨⟨_, rfl, houter⟩, fun i hi _ _ hmem => ?_⟩
    rcases List.mem_cons.mp hmem with rfl | hmem
    · omega
    · have := houter i hmem
      omega

end

/-- In `((1)+(x3` with `x` declared it is the third group that is not closed: the second one is, and
the first one is still open around it. -/
theorem parse_unmatched_third :
    let tokens : List Token := [.opening, .opening, ⟨.integer, ['1']⟩, .closing, ⟨.operator, ['+']⟩,
      .opening, ⟨.identifier, ['x']⟩, ⟨.integer, ['3']⟩]
    [['x']].Nodup ∧ parse tokens [['x']] = .error (.parse (.unmatched 5)) ∧
      ∃ j, EndsUnclosed [['x']] tokens 5 j ∧
        ∃ outer, openGroups (tokens.take j) = 5 :: outer ∧ ∀ i ∈ outer, i < 5 := by
  intro tokens
  have hd : [['x']].Nodup := by decide
  have h : parse tokens [['x']] = .error (.parse (.unmatched 5)) := rfl
  obtain ⟨j, hj⟩ := (parse_unmatched_iff hd 5).1.mp h
  exact ⟨hd, h, j, hj, ((parse_unmatched_iff hd 5).2 j hj).1⟩

end LineCalc
