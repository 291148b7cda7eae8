import LineCalc.Proofs.Parse.Declared

/-!
# The end of the input

A token of the kind `endOfInput` is never taken, so a reading that comes to it ends as it would
behind the last token.  What stands from there on makes no difference, but that an error which
comes up at the end names the token there.

With `more` behind the tokens, where `Token.Ending more`:

    run r pos s (ts ++ more) = endedBy more (pos + ts.length) (run r pos s ts)     (run_append_end)
    reach r pos s (ts ++ more) = reach r pos s ts                                (reach_append_end)
-/

namespace LineCalc

/-- Whether the first token, if there is one, ends the input. -/
def Token.Ending (more : List Token) : Prop := (more.headD endOfInput).kind = .endOfInput

theorem Token.ending_nil : Ending [] := rfl

theorem Token.ending_cons {t : Token} (h : t.kind = .endOfInput) (after : List Token) :
    Ending (t :: after) := h

/-- The same error, with the text of `t` if it is the unexpected token number `k`. -/
def ParseError.naming (t : Token) (k : Nat) : ParseError → ParseError
  | unexpected text index => unexpected (if index = k then t.text else text) index
  | undeclared name index => undeclared name index
  | unmatched index => unmatched index
  | tooDeep => tooDeep

/-- The same place, with more tokens behind the last one. -/
def Cursor.extend (more : List Token) (c : Cursor) : Cursor := ⟨c.pos, c.rest ++ more⟩

namespace Parse

variable {r : Rules} {pos : Nat} {s : State} {t : Token} {more : List Token}

/-- What is read with more tokens behind token number `k`, the first of which ends the input. -/
def endedBy (more : List Token) (k : Nat) :
    Except ParseError (Expr × Cursor) → Except ParseError (Expr × Cursor)
  | .ok (e, c) => .ok (e, c.extend more)
  | .error err => .error (err.naming (more.headD Token.endOfInput) k)

/-! ## One token -/

/-- A token that ends the input does what the end of the tokens does. -/
theorem step_of_kind (h : t.kind = .endOfInput) (r : Rules) (pos : Nat) (s : State) :
    step r pos s t =
      match finish pos s with
      | .ok e => .stop e
      | .error err => .fail (err.naming t pos) := by
  refine effect_iff.mp ?_
  obtain ⟨gs, p, _ | x⟩ := s
  · simp only [finish, ParseError.naming, if_true]
    exact .unexpected (Token.not_beginsOperand_of_kind h)
  · cases gs with
    | nil => exact .stop (Level.not_continues_of_kind h _)
    | cons g gs =>
      refine .unmatched (Level.not_continues_of_kind h _) ?_
      rintro rfl
      cases h

/-- An error that comes up before token number `k` does not name it. -/
theorem naming_of_fail {err : ParseError} {k : Nat} (h : step r pos s t = .fail err)
    (hk : pos ≠ k) (u : Token) : err.naming u k = err := by
  cases effect_iff.mpr h with
  | undeclared | tooDeep | unmatched => rfl
  | unexpected => rw [ParseError.naming, if_neg hk]

/-! ## All tokens -/

theorem run_append_end (h : Token.Ending more) (r : Rules)
    (pos : Nat) (s : State) (ts : List Token) :
    run r pos s (ts ++ more) = endedBy more (pos + ts.length) (run r pos s ts) := by
  induction ts generalizing pos s with
  | nil =>
    have hstep := step_of_kind h r pos s
    rw [run]
    cases hf : finish pos s with
    | ok e =>
      rw [hf] at hstep
      exact run_of_stop hstep
    | error err =>
      rw [hf] at hstep
      exact run_of_fail hstep
  | cons t ts ih =>
    rw [List.cons_append, run, run]
    cases hs : step r pos s t with
    | next s' =>
      rw [List.length_cons, show pos + (ts.length + 1) = pos + 1 + ts.length by omega]
      exact ih (pos + 1) s'
    | stop e => rfl
    | fail err =>
      have hne : pos ≠ pos + (t :: ts).length := by
        rw [List.length_cons]
        omega
      exact congrArg Except.error (naming_of_fail hs hne _).symm

theorem reach_append_end (h : Token.Ending more) (r : Rules)
    (pos : Nat) (s : State) (ts : List Token) :
    reach r pos s (ts ++ more) = reach r pos s ts := by
  induction ts generalizing pos s with
  | nil =>
    cases more with
    | nil => rfl
    | cons t after => exact reach_cons_of_ne_next (fun s' => step_ne_next_of_kind h r pos s s') after
  | cons t ts ih =>
    rw [List.cons_append, reach, reach]
    cases step r pos s t with
    | next s' => exact ih (pos + 1) s'
    | stop e => rfl
    | fail err => rfl

theorem reach_le (r : Rules) (pos : Nat) (s : State) (ts : List Token) :
    reach r pos s ts ≤ pos + ts.length := by
  obtain ⟨taken, rest, s', rfl, htake, hend⟩ := exists_take r pos s ts
  rw [reach_of_take htake hend, List.length_append]
  omega

end Parse

open Parse

/-! ## Cursors -/

/-- The place before the token at which a reading ends. -/
def Cursor.halted (r : Rules) (c : Cursor) : Cursor :=
  ⟨reach r c.pos .initial c.rest, c.rest.drop (reach r c.pos .initial c.rest - c.pos)⟩

/-- At the end, and only there, the next token is the one that ends the input. -/
theorem Cursor.current_extend {c : Cursor} {k : Nat} (hk : c.pos + c.rest.length = k)
    (more : List Token) :
    (c.extend more).current = if c.pos = k then more.headD Token.endOfInput else c.current := by
  obtain ⟨pos, rest⟩ := c
  cases rest with
  | nil => exact (if_pos hk).symm
  | cons u rest =>
    have hne : pos ≠ k := by
      simp only [List.length_cons] at hk
      omega
    exact (if_neg hne).symm

theorem Cursor.atEnd_extend {more : List Token}
    (h : Token.Ending more) (c : Cursor) :
    (c.extend more).AtEnd ↔ c.AtEnd := by
  obtain ⟨pos, rest⟩ := c
  cases rest with
  | nil => exact iff_of_true h rfl
  | cons u rest => exact Iff.rfl

theorem Cursor.parse_extend {more : List Token}
    (h : Token.Ending more) (r : Rules) (c : Cursor) :
    (c.extend more).parse r = endedBy more (c.pos + c.rest.length) (c.parse r) :=
  run_append_end h r c.pos .initial c.rest

theorem Cursor.halted_extend {more : List Token}
    (h : Token.Ending more) (r : Rules) (c : Cursor) :
    (c.extend more).halted r = (c.halted r).extend more := by
  have hle := reach_le r c.pos .initial c.rest
  simp only [halted, extend, reach_append_end h]
  rw [List.drop_append_of_le_length (by omega)]

/-- `Token.endOfInput` ends the input as the end of the tokens does. -/
theorem parse_append_endOfInput (tokens : List Token) (declared : List Text) :
    parse (tokens ++ [Token.endOfInput]) declared = parse tokens declared := by
  unfold parse
  cases Names.empty.declareAll declared with
  | error e => rfl
  | ok names =>
    have hnone := run_append_end Token.ending_nil ⟨names, .expression, some nestingLimit⟩ 0
      .initial tokens
    have hone := run_append_end (Token.ending_cons (t := Token.endOfInput) rfl [])
      ⟨names, .expression, some nestingLimit⟩ 0 .initial tokens
    rw [List.append_nil] at hnone
    simp only [Cursor.parseLevel, Cursor.parse, Cursor.start, hone]
    cases hrun : run ⟨names, .expression, some nestingLimit⟩ 0 .initial tokens with
    | ok tree => rfl
    | error err =>
      rw [hrun] at hnone
      exact congrArg (Except.error ∘ Failure.parse) (Except.error.inj hnone).symm

/-- A tree that is read does not move the end of the tokens. -/
theorem Cursor.end_eq_of_parse {r : Rules} {c c' : Cursor} {e : Expr}
    (h : c.parse r = .ok (e, c')) : c'.pos + c'.rest.length = c.pos + c.rest.length := by
  obtain ⟨taken, hrest, hpos, -, -⟩ := parse_eq_ok_iff.mp h
  rw [hrest, hpos, List.length_append]
  omega

theorem Cursor.end_eq_halted (r : Rules) (c : Cursor) :
    (c.halted r).pos + (c.halted r).rest.length = c.pos + c.rest.length := by
  have hle := reach_le r c.pos .initial c.rest
  have hge := le_reach r c.pos .initial c.rest
  simp only [halted, List.length_drop]
  omega

end LineCalc
