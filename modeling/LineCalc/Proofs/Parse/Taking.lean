import LineCalc.Parse.Basic

/-!
# Taking tokens

What one token can do to a state is listed in `Effect`, with the condition for each, and nothing
else in this theory opens `step`.  `take` gives the state behind tokens that are all taken, and a
reading is some tokens that are taken and a current token that is not:

    Effect r pos s t m  ↔  step r pos s t = m                             (effect_iff)
    run r pos s ts = .ok (e, c)  ↔  taken ++ c.rest = ts and c.current stops with e
                                                                          (run_eq_ok_iff)
    run r pos s ts = .error e    ↔  taken ++ rest = ts and the next token fails with e
                                                                          (run_eq_error_iff)

Where there are no more tokens, `Token.endOfInput` is the current one.
-/

namespace LineCalc

/-- Whether the token can stand at the beginning of an operand. -/
def Token.BeginsOperand (t : Token) : Prop :=
  t.kind = .integer ∨ t.kind = .float ∨ t.kind = .identifier ∨ t = .opening

/-- Whether a tree of the level goes on with the token behind a complete operand. -/
def Level.Continues (level : Level) (t : Token) : Prop :=
  t.kind = .operator ∧ level.Admits t.text

instance (level : Level) (t : Token) : Decidable (level.Continues t) :=
  inferInstanceAs (Decidable (_ ∧ _))

/-- Where the input ends no operand begins. -/
theorem Token.not_beginsOperand_of_kind {t : Token} (h : t.kind = .endOfInput) :
    ¬ t.BeginsOperand := by
  rintro (hk | hk | hk | rfl)
  · cases hk.symm.trans h
  · cases hk.symm.trans h
  · cases hk.symm.trans h
  · cases h

/-- Where the input ends no tree goes on. -/
theorem Level.not_continues_of_kind {t : Token} (h : t.kind = .endOfInput) (level : Level) :
    ¬ level.Continues t := by
  rintro ⟨hk, -⟩
  cases hk.symm.trans h

theorem Level.not_continues_endOfInput (level : Level) : ¬ level.Continues Token.endOfInput :=
  level.not_continues_of_kind rfl

/-- The place before the token number `i`. -/
def Cursor.within (tokens : List Token) (i : Nat) : Cursor := ⟨i, tokens.drop i⟩

namespace Parse

/-! ## One token -/

/-- What the token number `pos` does, and when. -/
inductive Effect (r : Rules) (pos : Nat) : State → Token → Move → Prop
  | number {gs p t} : t.kind = .integer ∨ t.kind = .float →
      Effect r pos ⟨gs, p, none⟩ t (.next ⟨gs, p, some (.number t.text)⟩)
  | name {gs p t} : t.kind = .identifier → t.text ∈ r.names →
      Effect r pos ⟨gs, p, none⟩ t (.next ⟨gs, p, some (.identifier t.text)⟩)
  | undeclared {gs p t} : t.kind = .identifier → t.text ∉ r.names →
      Effect r pos ⟨gs, p, none⟩ t (.fail (.undeclared t.text pos))
  | enter {gs p} : r.mayOpen gs.length = true →
      Effect r pos ⟨gs, p, none⟩ .opening (.next ⟨⟨pos, p⟩ :: gs, .empty, none⟩)
  | tooDeep {gs p} : r.mayOpen gs.length = false →
      Effect r pos ⟨gs, p, none⟩ .opening (.fail .tooDeep)
  | unexpected {gs p t} : ¬ t.BeginsOperand →
      Effect r pos ⟨gs, p, none⟩ t (.fail (.unexpected t.text pos))
  | operator {gs p x t} : (r.levelIn gs).Continues t →
      Effect r pos ⟨gs, p, some x⟩ t (.next ⟨gs, p.extend x t.text, none⟩)
  | stop {p x t} : ¬ r.level.Continues t →
      Effect r pos ⟨[], p, some x⟩ t (.stop (p.whole x))
  | leave {g gs p x} :
      Effect r pos ⟨g :: gs, p, some x⟩ .closing
        (.next ⟨gs, g.outer, some (.parenthesized (p.whole x))⟩)
  | unmatched {g gs p x t} : ¬ Level.expression.Continues t → t ≠ .closing →
      Effect r pos ⟨g :: gs, p, some x⟩ t (.fail (.unmatched g.index))

theorem levelIn_nil (r : Rules) : r.levelIn [] = r.level := rfl

theorem levelIn_cons (r : Rules) (g : Group) (gs : List Group) :
    r.levelIn (g :: gs) = .expression := rfl

theorem effect_beginOperand (r : Rules) (pos : Nat) (gs : List Group) (p : Pending) (t : Token) :
    Effect r pos ⟨gs, p, none⟩ t (beginOperand r pos ⟨gs, p, none⟩ t) := by
  -- all kinds that hold neither a number nor a name are looked at alike
  have other : t.kind ≠ .integer → t.kind ≠ .float → t.kind ≠ .identifier →
      Effect r pos ⟨gs, p, none⟩ t
        (if t = Token.opening then
          if r.mayOpen gs.length then .next ⟨⟨pos, p⟩ :: gs, .empty, none⟩ else .fail .tooDeep
        else .fail (.unexpected t.text pos)) := by
    intro hi hf hn
    by_cases ho : t = .opening
    · rw [if_pos ho]
      subst ho
      by_cases hm : r.mayOpen gs.length = true
      · rw [if_pos hm]
        exact .enter hm
      · rw [if_neg hm]
        exact .tooDeep (Bool.eq_false_iff.mpr hm)
    · rw [if_neg ho]
      refine .unexpected ?_
      rintro (h | h | h | h)
      · exact hi h
      · exact hf h
      · exact hn h
      · exact ho h
  unfold beginOperand
  cases hk : t.kind with
  | integer => exact .number (.inl hk)
  | float => exact .number (.inr hk)
  | identifier =>
    by_cases hn : t.text ∈ r.names
    · simp only [if_pos hn]
      exact .name hk hn
    · simp only [if_neg hn]
      exact .undeclared hk hn
  | operator | parenthesis | endOfInput | invalid =>
    exact other (by simp [hk]) (by simp [hk]) (by simp [hk])

theorem effect_endOperand (r : Rules) (pos : Nat) (gs : List Group) (p : Pending) (x : Expr)
    (t : Token) : Effect r pos ⟨gs, p, some x⟩ t (endOperand r ⟨gs, p, some x⟩ x t) := by
  simp only [endOperand]
  by_cases hc : t.kind = .operator ∧ (r.levelIn gs).Admits t.text
  · rw [if_pos hc]
    exact .operator hc
  · rw [if_neg hc]
    cases gs with
    | nil => exact .stop hc
    | cons g outer =>
      by_cases ht : t = .closing
      · simp only [if_pos ht]
        subst ht
        exact .leave
      · simp only [if_neg ht]
        exact .unmatched hc ht

theorem effect_step (r : Rules) (pos : Nat) (s : State) (t : Token) :
    Effect r pos s t (step r pos s t) := by
  obtain ⟨gs, p, _ | x⟩ := s
  · exact effect_beginOperand r pos gs p t
  · exact effect_endOperand r pos gs p x t

/-- A token does what is listed, and nothing else. -/
theorem effect_iff {r : Rules} {pos : Nat} {s : State} {t : Token} {m : Move} :
    Effect r pos s t m ↔ step r pos s t = m := by
  constructor
  · intro h
    cases h with
    | number hk =>
      rcases hk with hk | hk
      · simp [step, beginOperand, hk]
      · simp [step, beginOperand, hk]
    | name hk hn => simp [step, beginOperand, hk, hn]
    | undeclared hk hn => simp [step, beginOperand, hk, hn]
    | enter hm => simp [step, beginOperand, Token.opening, hm]
    | tooDeep hm => simp [step, beginOperand, Token.opening, hm]
    | unexpected hb =>
      unfold Token.BeginsOperand at hb
      cases hk : t.kind <;> simp_all [step, beginOperand]
    | operator hc =>
      unfold Level.Continues at hc
      simp [step, endOperand, hc]
    | stop hc =>
      unfold Level.Continues at hc
      simp [step, endOperand, levelIn_nil, hc]
    | leave => simp [step, endOperand, Token.closing]
    | unmatched hc ht =>
      unfold Level.Continues at hc
      simp [step, endOperand, levelIn_cons, hc, ht]
  · rintro rfl
    exact effect_step r pos s t

/-- Where the input ends nothing is taken. -/
theorem step_ne_next_of_kind {t : Token} (h : t.kind = .endOfInput) (r : Rules) (pos : Nat)
    (s s' : State) : step r pos s t ≠ .next s' := by
  intro hs
  cases effect_iff.mpr hs with
  | number hk => exact Token.not_beginsOperand_of_kind h (hk.elim .inl fun hk => .inr (.inl hk))
  | name hk => cases hk.symm.trans h
  | operator hc => exact Level.not_continues_of_kind h _ hc
  | enter | leave => cases h

theorem step_endOfInput_ne_next (r : Rules) (pos : Nat) (s s' : State) :
    step r pos s Token.endOfInput ≠ .next s' :=
  step_ne_next_of_kind rfl r pos s s'

/-! ## Tokens that are taken -/

/-- The state behind the tokens, if each of them is taken. -/
def take (r : Rules) (pos : Nat) (s : State) : List Token → Option State
  | [] => some s
  | t :: rest =>
    match step r pos s t with
    | .next s => take r (pos + 1) s rest
    | .stop _ | .fail _ => none

theorem take_cons_of_next {r : Rules} {pos : Nat} {s s' : State} {t : Token}
    (h : step r pos s t = .next s') (rest : List Token) :
    take r pos s (t :: rest) = take r (pos + 1) s' rest := by
  rw [take, h]

theorem take_cons_eq_some_iff {r : Rules} {pos : Nat} {s s' : State} {t : Token}
    {rest : List Token} :
    take r pos s (t :: rest) = some s' ↔
      ∃ s₁, step r pos s t = .next s₁ ∧ take r (pos + 1) s₁ rest = some s' := by
  rw [take]
  cases step r pos s t with
  | next s₁ => simp
  | stop e => simp
  | fail e => simp

theorem take_append {r : Rules} {pos : Nat} {s s' : State} {ts : List Token}
    (h : take r pos s ts = some s') (rest : List Token) :
    take r pos s (ts ++ rest) = take r (pos + ts.length) s' rest := by
  induction ts generalizing pos s with
  | nil =>
    cases h
    rfl
  | cons t ts ih =>
    obtain ⟨s₁, hs, h⟩ := take_cons_eq_some_iff.mp h
    rw [List.cons_append, take_cons_of_next hs, ih h, List.length_cons, Nat.add_right_comm]
    rfl

/-- One more token is taken. -/
theorem take_concat {r : Rules} {pos : Nat} {s s' s'' : State} {ts : List Token} {t : Token}
    (h : take r pos s ts = some s') (ht : step r (pos + ts.length) s' t = .next s'') :
    take r pos s (ts ++ [t]) = some s'' := by
  rw [take_append h, take_cons_of_next ht]
  rfl

theorem run_cons_of_next {r : Rules} {pos : Nat} {s s' : State} {t : Token}
    (h : step r pos s t = .next s') (rest : List Token) :
    run r pos s (t :: rest) = run r (pos + 1) s' rest := by
  rw [run, h]

theorem run_append {r : Rules} {pos : Nat} {s s' : State} {ts : List Token}
    (h : take r pos s ts = some s') (rest : List Token) :
    run r pos s (ts ++ rest) = run r (pos + ts.length) s' rest := by
  induction ts generalizing pos s with
  | nil =>
    cases h
    rfl
  | cons t ts ih =>
    obtain ⟨s₁, hs, h⟩ := take_cons_eq_some_iff.mp h
    rw [List.cons_append, run_cons_of_next hs, ih h, List.length_cons, Nat.add_right_comm]
    rfl

/-! ## The token that ends a reading -/

/-- Where no token is left, the reading ends as it does at `Token.endOfInput`. -/
theorem run_of_stop {r : Rules} {pos : Nat} {s : State} {ts : List Token} {e : Expr}
    (h : step r pos s (ts.headD Token.endOfInput) = .stop e) :
    run r pos s ts = .ok (e, ⟨pos, ts⟩) := by
  cases ts with
  | nil =>
    cases effect_iff.mpr h with
    | stop hc => rfl
  | cons t rest =>
    rw [List.headD_cons] at h
    rw [run, h]

theorem run_of_fail {r : Rules} {pos : Nat} {s : State} {ts : List Token} {e : ParseError}
    (h : step r pos s (ts.headD Token.endOfInput) = .fail e) : run r pos s ts = .error e := by
  cases ts with
  | nil =>
    cases effect_iff.mpr h with
    | undeclared hk => cases hk
    | unexpected hb => rfl
    | unmatched hc ht => rfl
  | cons t rest =>
    rw [List.headD_cons] at h
    rw [run, h]

/-- Every list of tokens has a longest part that is taken. -/
theorem exists_take (r : Rules) (pos : Nat) (s : State) (ts : List Token) :
    ∃ taken rest s', ts = taken ++ rest ∧ take r pos s taken = some s' ∧
      ∀ s'', step r (pos + taken.length) s' (rest.headD Token.endOfInput) ≠ .next s'' := by
  induction ts generalizing pos s with
  | nil => exact ⟨[], [], s, rfl, rfl, step_endOfInput_ne_next r pos s⟩
  | cons t ts ih =>
    by_cases hs : ∃ s₁, step r pos s t = .next s₁
    · obtain ⟨s₁, hs⟩ := hs
      obtain ⟨taken, rest, s', rfl, ht, hend⟩ := ih (pos + 1) s₁
      refine ⟨t :: taken, rest, s', rfl, by rw [take_cons_of_next hs, ht], ?_⟩
      rw [List.length_cons, show pos + (taken.length + 1) = pos + 1 + taken.length by omega]
      exact hend
    · exact ⟨[], t :: ts, s, rfl, rfl, fun s₁ h => hs ⟨s₁, h⟩⟩

/-- A tree is read from the tokens that are taken, up to a token that stops. -/
theorem run_eq_ok_iff {r : Rules} {pos : Nat} {s : State} {ts : List Token} {e : Expr}
    {c : Cursor} :
    run r pos s ts = .ok (e, c) ↔
      ∃ taken s', ts = taken ++ c.rest ∧ c.pos = pos + taken.length ∧
        take r pos s taken = some s' ∧ step r c.pos s' c.current = .stop e := by
  constructor
  · intro h
    obtain ⟨taken, rest, s', rfl, ht, hend⟩ := exists_take r pos s ts
    rw [run_append ht] at h
    cases hs : step r (pos + taken.length) s' (rest.headD Token.endOfInput) with
    | next s'' => exact absurd hs (hend s'')
    | stop e' =>
      rw [run_of_stop hs] at h
      cases h
      exact ⟨taken, s', rfl, rfl, ht, hs⟩
    | fail e' =>
      rw [run_of_fail hs] at h
      cases h
  · rintro ⟨taken, s', rfl, hpos, ht, hs⟩
    rw [hpos] at hs
    rw [run_append ht, run_of_stop hs, ← hpos]

/-- A reading fails at the first token that cannot be taken. -/
theorem run_eq_error_iff {r : Rules} {pos : Nat} {s : State} {ts : List Token} {e : ParseError} :
    run r pos s ts = .error e ↔
      ∃ taken rest s', ts = taken ++ rest ∧ take r pos s taken = some s' ∧
        step r (pos + taken.length) s' (rest.headD Token.endOfInput) = .fail e := by
  constructor
  · intro h
    obtain ⟨taken, rest, s', rfl, ht, hend⟩ := exists_take r pos s ts
    rw [run_append ht] at h
    cases hs : step r (pos + taken.length) s' (rest.headD Token.endOfInput) with
    | next s'' => exact absurd hs (hend s'')
    | stop e' =>
      rw [run_of_stop hs] at h
      cases h
    | fail e' =>
      rw [run_of_fail hs] at h
      cases h
      exact ⟨taken, rest, s', rfl, ht, hs⟩
  · rintro ⟨taken, rest, s', rfl, ht, hs⟩
    rw [run_append ht, run_of_fail hs]

end Parse

end LineCalc
