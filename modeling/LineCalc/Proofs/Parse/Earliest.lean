import LineCalc.Proofs.Calculation
import LineCalc.Proofs.Parse.Reading

/-!
# Errors come up at the first token that makes them certain

Whatever state has been reached, an operand and the closing parentheses of the open groups complete
it, so the tokens that were taken can still become a list that parses.  With the token that fails
behind them they can no longer, and every such list fails alike:

    take r pos .initial ts = some s → some more tokens are read to the end   (exists_completion)
    parse tokens names = .error (.parse err) → for some k, the first k tokens are viable
                              and the first k + 1 are bound to fail with err (parse_error_earliest)
-/

namespace LineCalc

namespace Parse

/-! ## Completing a state -/

theorem run_stop_nil (r : Rules) (pos : Nat) (p : Pending) (x : Expr) :
    run r pos ⟨[], p, some x⟩ [] = .ok (p.whole x, ⟨pos, []⟩) := rfl

/-- Behind an operand, all open groups can be closed. -/
theorem exists_closing (r : Rules) (pos : Nat) (gs : List Group) (p : Pending) (x : Expr) :
    ∃ more e c, run r pos ⟨gs, p, some x⟩ more = .ok (e, c) := by
  induction gs generalizing pos p x with
  | nil => exact ⟨[], _, _, run_stop_nil r pos p x⟩
  | cons g gs ih =>
    obtain ⟨more, e, c, h⟩ := ih (pos + 1) g.outer (.parenthesized (p.whole x))
    have hstep : step r pos ⟨g :: gs, p, some x⟩ .closing =
        .next ⟨gs, g.outer, some (.parenthesized (p.whole x))⟩ := effect_iff.mp .leave
    exact ⟨.closing :: more, e, c, by rw [run_cons_of_next hstep, h]⟩

/-- From every state on, some tokens are read to the end. -/
theorem exists_completion (r : Rules) (pos : Nat) (s : State) :
    ∃ more e c, run r pos s more = .ok (e, c) := by
  obtain ⟨gs, p, _ | x⟩ := s
  · let zero : Token := ⟨.integer, ['0']⟩
    have hstep : step r pos ⟨gs, p, none⟩ zero = .next ⟨gs, p, some (.number zero.text)⟩ :=
      effect_iff.mp (.number (.inl rfl))
    obtain ⟨more, e, c, h⟩ := exists_closing r (pos + 1) gs p (.number zero.text)
    exact ⟨zero :: more, e, c, by rw [run_cons_of_next hstep, h]⟩
  · exact exists_closing r pos gs p x

end Parse

open Parse

/-! ## What becomes of the first tokens -/

/-- Whether tokens can be added to these so that they parse. -/
def Viable (declared : List Text) (ts : List Token) : Prop :=
  ∃ more e, parse (ts ++ more) declared = .ok e

/-- Whether these tokens fail with the error, whatever comes behind them. -/
def Doomed (declared : List Text) (ts : List Token) (err : ParseError) : Prop :=
  ∀ more, parse (ts ++ more) declared = .error (.parse err)

/-- What an error says of the token `t`, number `k`, at which it comes up. -/
def ParseError.Concerns (err : ParseError) (k : Nat) (t : Token) : Prop :=
  match err with
  | undeclared _ index =>
    index = k ∧ t.kind = .identifier ∧
      err.message = "Variable ".toList ++ Text.quote t.text ++ " is undeclared.".toList
  | unexpected _ index => index = k ∧ err.message = "Unexpected token: ".toList ++ t.text
  | unmatched index => index < k
  | tooDeep => t = .opening

theorem viable_of_take {declared : List Text} (hd : declared.Nodup) {ts : List Token} {s : State}
    (h : take ⟨.ofList declared, .expression, some nestingLimit⟩ 0 .initial ts = some s) :
    Viable declared ts := by
  obtain ⟨more, e, c, hrun⟩ := exists_completion
    ⟨.ofList declared, .expression, some nestingLimit⟩ (0 + ts.length) s
  refine ⟨more, e, parse_eq_ok_iff.mpr ⟨hd, c, ?_⟩⟩
  exact (run_append h more).trans hrun

theorem doomed_of_fail {declared : List Text} (hd : declared.Nodup) {ts : List Token} {s : State}
    (h : take ⟨.ofList declared, .expression, some nestingLimit⟩ 0 .initial ts = some s)
    {t : Token} {err : ParseError}
    (ht : step ⟨.ofList declared, .expression, some nestingLimit⟩ (0 + ts.length) s t =
      .fail err) : Doomed declared (ts ++ [t]) err := by
  intro more
  refine parse_eq_error_iff.mpr ⟨hd, ?_⟩
  rw [List.append_assoc, List.singleton_append]
  exact run_eq_error_iff.mpr ⟨ts, t :: more, s, rfl, h, ht⟩

theorem concerns_of_fail {r : Rules} {ts : List Token} {s : State} {t : Token}
    {err : ParseError} (h : take r 0 .initial ts = some s)
    (ht : step r (0 + ts.length) s t = .fail err) : err.Concerns ts.length t := by
  rw [Nat.zero_add] at ht
  cases effect_iff.mpr ht with
  | undeclared hk _ => exact ⟨rfl, hk, rfl⟩
  | unexpected _ => exact ⟨rfl, rfl⟩
  | @unmatched g gs p x _ _ _ =>
    have := (State.holds_of_take h).index_lt g List.mem_cons_self
    show g.index < ts.length
    omega
  | tooDeep _ => rfl

/-- **Earliest errors.**  There is a token that a parsing error is about: those before it can still
be completed to a list that parses, and with it every list fails with the same error. -/
theorem parse_error_earliest {tokens : List Token} {declared : List Text} {err : ParseError}
    (h : parse tokens declared = .error (.parse err)) :
    ∃ k ≤ tokens.length, Viable declared (tokens.take k) ∧
      (k < tokens.length → Doomed declared (tokens.take (k + 1)) err) ∧
      err.Concerns k (Cursor.within tokens k).current := by
  obtain ⟨hd, hread⟩ := parse_eq_error_iff.mp h
  obtain ⟨taken, rest, s, rfl, htake, hfail⟩ := run_eq_error_iff.mp hread
  refine ⟨taken.length, by simp, ?_, ?_, ?_⟩
  · rw [List.take_left]
    exact viable_of_take hd htake
  · intro hlt
    cases rest with
    | nil => simp at hlt
    | cons t rest =>
      have hfirst : (taken ++ t :: rest).take (taken.length + 1) = taken ++ [t] := by
        rw [List.append_cons, List.take_left' (by simp)]
      rw [hfirst]
      exact doomed_of_fail hd htake hfail
  · have hcurrent : (Cursor.within (taken ++ rest) taken.length).current =
        rest.headD Token.endOfInput := by
      simp [Cursor.within, Cursor.current]
    rw [hcurrent]
    exact concerns_of_fail htake hfail

/-- In `(x+)` the closing parenthesis is the first token that cannot stand where it does. -/
theorem parse_operand_missing :
    parse [.opening, ⟨.identifier, ['x']⟩, ⟨.operator, ['+']⟩, .closing] [['x']] =
        .error (.parse (.unexpected [')'] 3)) ∧
      Viable [['x']] [.opening, ⟨.identifier, ['x']⟩, ⟨.operator, ['+']⟩] ∧
      Doomed [['x']] [.opening, ⟨.identifier, ['x']⟩, ⟨.operator, ['+']⟩, .closing]
        (.unexpected [')'] 3) := by
  have h : parse [.opening, ⟨.identifier, ['x']⟩, ⟨.operator, ['+']⟩, .closing] [['x']] =
      .error (.parse (.unexpected [')'] 3)) := rfl
  obtain ⟨k, -, hviable, hdoomed, hk, -⟩ := parse_error_earliest h
  obtain rfl : 3 = k := hk
  exact ⟨h, hviable, hdoomed (by decide)⟩

end LineCalc
