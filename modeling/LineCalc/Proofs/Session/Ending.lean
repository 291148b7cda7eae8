import LineCalc.Proofs.Parse.Ending
import LineCalc.Proofs.Session
import LineCalc.Proofs.Token.Munch

/-!
# Sessions and the end of their input

Two sessions go on alike if the tokens of the one are those of the other up to a token that ends
the input.  Where they differ is at that place only: the one sees the token that is there and names
it in an error, and the other takes `Token.endOfInput` for it.

    s.step next and (s.extend more).step next answer alike                          (step_extend)
    (start tokens).seen steps  =  (start (tokens.take k)).seen steps, naming token k
                                                                       (run_take_endOfInput)

The same is true of sessions that go on where no tree can be read (`runOn`).
-/

namespace LineCalc

namespace Session

/-! ## What is seen -/

/-- What a session shows of its place: the position, whether the input ends there, and the token
there. -/
structure View where
  pos : Nat
  atEnd : Bool
  current : Token
  deriving DecidableEq

def view (s : Session) : View := ⟨s.cursor.pos, s.cursor.AtEnd, s.cursor.current⟩

/-- What is seen of a step: the answer or the error, and the session behind it unless it ends. -/
structure Seen where
  answer : Except ParseError Answer
  view : Option View
  deriving DecidableEq

/-- What is seen of the steps of a session, which ends where no tree can be read. -/
def seen (s : Session) (steps : List Step) : List Seen :=
  (s.run steps).map fun
    | .ok (a, s') => ⟨.ok a, some s'.view⟩
    | .error err => ⟨.error err, none⟩

/-- The same view, with `t` for the token number `k`. -/
def View.naming (t : Token) (k : Nat) (v : View) : View :=
  { v with current := if v.pos = k then t else v.current }

/-- The same, with `t` for the token number `k`, in an error or in sight. -/
def Seen.naming (t : Token) (k : Nat) (x : Seen) : Seen :=
  ⟨x.answer.mapError (ParseError.naming t k), x.view.map (View.naming t k)⟩

/-! ## Sessions that go on -/

/-- The session behind a step that fails: it stands before the token at which the reading ended. -/
def failed (s : Session) : Step → Session
  | .parse level => { s with cursor := s.cursor.halted ⟨s.names, level, some nestingLimit⟩ }
  | .declare _ | .isDeclared _ => s

/-- The answer to a step, or the error, and the session behind it in either case. -/
def stepOn (s : Session) (next : Step) : Except ParseError Answer × Session :=
  match s.step next with
  | .ok (a, s') => (.ok a, s')
  | .error err => (.error err, s.failed next)

/-- The answers to all steps, each with the session behind it. -/
def runOn (s : Session) : List Step → List (Except ParseError Answer × Session)
  | [] => []
  | next :: rest => s.stepOn next :: (s.stepOn next).2.runOn rest

/-- What is seen of the steps of a session that goes on. -/
def seenOn (s : Session) (steps : List Step) : List Seen :=
  (s.runOn steps).map fun x => ⟨x.1, some x.2.view⟩

/-! ## One step -/

/-- The same session, with more tokens behind the last one. -/
def extend (more : List Token) (s : Session) : Session := { s with cursor := s.cursor.extend more }

variable {more : List Token} {s s' : Session} {k : Nat}

@[simp] theorem extend_names (more : List Token) (s : Session) :
    (s.extend more).names = s.names := rfl

@[simp] theorem extend_cursor (more : List Token) (s : Session) :
    (s.extend more).cursor = s.cursor.extend more := rfl

theorem step_extend (h : Token.Ending more)
    (hs : s.cursor.pos + s.cursor.rest.length = k) (next : Step) :
    (s.extend more).step next =
      match s.step next with
      | .ok (a, s') => .ok (a, s'.extend more)
      | .error err => .error (err.naming (more.headD Token.endOfInput) k) := by
  cases next with
  | declare n =>
    rw [step, step, extend_names]
    cases s.names.declare n with
    | ok names => rfl
    | error e => rfl
  | isDeclared n => rfl
  | parse level =>
    have hread : (s.cursor.extend more).parseLevel s.names level =
        Parse.endedBy more k (s.cursor.parseLevel s.names level) := by
      rw [← hs]
      exact Cursor.parse_extend h _ s.cursor
    rw [step, step, extend_names, extend_cursor, hread]
    cases s.cursor.parseLevel s.names level with
    | ok tree => rfl
    | error err => rfl

theorem failed_extend (h : Token.Ending more) (next : Step) :
    (s.extend more).failed next = (s.failed next).extend more := by
  cases next with
  | declare n => rfl
  | isDeclared n => rfl
  | parse level => exact congrArg (Session.mk · s.names) (Cursor.halted_extend h _ s.cursor)

theorem Answered.end_eq {next : Step} {a : Answer} (h : Answered s next a s') :
    s'.cursor.pos + s'.cursor.rest.length = s.cursor.pos + s.cursor.rest.length := by
  cases h with
  | declared | refused | found => rfl
  | tree hp => exact Cursor.end_eq_of_parse hp

theorem end_eq_failed (s : Session) (next : Step) :
    (s.failed next).cursor.pos + (s.failed next).cursor.rest.length =
      s.cursor.pos + s.cursor.rest.length := by
  cases next with
  | declare n => rfl
  | isDeclared n => rfl
  | parse level => exact Cursor.end_eq_halted _ s.cursor

theorem view_extend (h : Token.Ending more)
    (hs : s.cursor.pos + s.cursor.rest.length = k) :
    (s.extend more).view = s.view.naming (more.headD Token.endOfInput) k := by
  simp only [view, View.naming, extend_cursor, Cursor.current_extend hs, Cursor.atEnd_extend h]
  rfl

/-! ## Many steps -/

theorem seen_extend (h : Token.Ending more)
    (hs : s.cursor.pos + s.cursor.rest.length = k) (steps : List Step) :
    (s.extend more).seen steps =
      (s.seen steps).map (Seen.naming (more.headD Token.endOfInput) k) := by
  induction steps generalizing s with
  | nil => rfl
  | cons next rest ih =>
    have hstep := step_extend h hs next
    unfold seen at ih ⊢
    rw [run, run, hstep]
    cases hn : s.step next with
    | error err => rfl
    | ok answer =>
      obtain ⟨a, s'⟩ := answer
      have hs' : s'.cursor.pos + s'.cursor.rest.length = k :=
        (answered_iff.mpr hn).end_eq.trans hs
      simp only [List.map_cons, ih hs', view_extend h hs']
      rfl

theorem seenOn_extend (h : Token.Ending more)
    (hs : s.cursor.pos + s.cursor.rest.length = k) (steps : List Step) :
    (s.extend more).seenOn steps =
      (s.seenOn steps).map (Seen.naming (more.headD Token.endOfInput) k) := by
  induction steps generalizing s with
  | nil => rfl
  | cons next rest ih =>
    have hstep := step_extend h hs next
    unfold seenOn at ih ⊢
    rw [runOn, runOn, stepOn, stepOn, hstep]
    cases hn : s.step next with
    | error err =>
      have hs' := (s.end_eq_failed next).trans hs
      simp only [List.map_cons, failed_extend h, ih hs', view_extend h hs']
      rfl
    | ok answer =>
      obtain ⟨a, s'⟩ := answer
      have hs' : s'.cursor.pos + s'.cursor.rest.length = k :=
        (answered_iff.mpr hn).end_eq.trans hs
      simp only [List.map_cons, ih hs', view_extend h hs']
      rfl

/-- **What stands behind the end of the input is not seen.**  With token number `k` ending the
input, a session answers as one does that has only the `k` tokens before it, in every step; where
the one shows that token, or names it as unexpected, the other shows and names
`Token.endOfInput`.  If the token has the same text, nothing is different at all.  In particular
the expression of a line can be read without its last token. -/
theorem run_take_endOfInput {tokens : List Token} {k : Nat} {t : Token} (hk : tokens[k]? = some t)
    (ht : t.kind = .endOfInput) (steps : List Step) :
    (start tokens).seen steps = ((start (tokens.take k)).seen steps).map (Seen.naming t k) ∧
      (start tokens).seenOn steps = ((start (tokens.take k)).seenOn steps).map (Seen.naming t k) ∧
      (t.text = Token.endOfInput.text →
        (start tokens).seen steps = (start (tokens.take k)).seen steps ∧
          (start tokens).seenOn steps = (start (tokens.take k)).seenOn steps) ∧
      ∀ line declared, parse (Token.ofLine line) declared =
        parse (Token.ofLine line).dropLast declared := by
  obtain ⟨hlt, hget⟩ := List.getElem?_eq_some_iff.mp hk
  have hsplit : tokens = tokens.take k ++ t :: tokens.drop (k + 1) := by
    rw [← hget, ← List.drop_eq_getElem_cons hlt, List.take_append_drop]
  have hextend : start tokens = (start (tokens.take k)).extend (t :: tokens.drop (k + 1)) :=
    congrArg start hsplit
  have hend : (start (tokens.take k)).cursor.pos + (start (tokens.take k)).cursor.rest.length =
      k := by
    simp only [start, Cursor.start, List.length_take]
    omega
  have hseen := seen_extend (Token.ending_cons ht (tokens.drop (k + 1))) hend steps
  have hseenOn := seenOn_extend (Token.ending_cons ht (tokens.drop (k + 1))) hend steps
  rw [← hextend] at hseen hseenOn
  refine ⟨hseen, hseenOn, fun htext => ?_, fun line declared => ?_⟩
  · obtain rfl : t = Token.endOfInput := by
      obtain ⟨kind, text⟩ := t
      obtain rfl : kind = .endOfInput := ht
      obtain rfl : text = Token.endOfInput.text := htext
      rfl
    -- without any more tokens, `Token.endOfInput` is at the end already
    have hsame : (start (tokens.take k)).extend [] = start (tokens.take k) :=
      congrArg start (List.append_nil _)
    have hnone := seen_extend Token.ending_nil hend steps
    have hnoneOn := seenOn_extend Token.ending_nil hend steps
    rw [hsame] at hnone hnoneOn
    exact ⟨hseen.trans hnone.symm, hseenOn.trans hnoneOn.symm⟩
  · obtain ⟨ts, hts, -⟩ := Token.exists_cut line
    rw [hts, List.dropLast_concat, parse_append_endOfInput]

/-- With a token `$` that ends the input behind `7+`, it is `$` that is unexpected, and the number
behind it is not seen. -/
theorem run_dollar_unexpected :
    [(⟨.integer, ['7']⟩ : Token), ⟨.operator, ['+']⟩, ⟨.endOfInput, ['$']⟩, ⟨.integer, ['8']⟩][2]? =
        some ⟨.endOfInput, ['$']⟩ ∧
      (start [⟨.integer, ['7']⟩, ⟨.operator, ['+']⟩, ⟨.endOfInput, ['$']⟩, ⟨.integer, ['8']⟩]).seen
          [.declare ['x'], .parse .expression] =
        [⟨.ok .declared, some ⟨0, false, ⟨.integer, ['7']⟩⟩⟩,
          ⟨.error (.unexpected ['$'] 2), none⟩] ∧
      (start [⟨.integer, ['7']⟩, ⟨.operator, ['+']⟩]).seen [.declare ['x'], .parse .expression] =
        [⟨.ok .declared, some ⟨0, false, ⟨.integer, ['7']⟩⟩⟩,
          ⟨.error (.unexpected ['E', 'O', 'F'] 2), none⟩] := by
  have hshort : (start [⟨.integer, ['7']⟩, ⟨.operator, ['+']⟩]).seen
      [.declare ['x'], .parse .expression] =
        [⟨.ok .declared, some ⟨0, false, ⟨.integer, ['7']⟩⟩⟩,
          ⟨.error (.unexpected ['E', 'O', 'F'] 2), none⟩] := by decide
  have hk : [(⟨.integer, ['7']⟩ : Token), ⟨.operator, ['+']⟩, ⟨.endOfInput, ['$']⟩,
      ⟨.integer, ['8']⟩][2]? = some ⟨.endOfInput, ['$']⟩ := rfl
  have h := (run_take_endOfInput hk rfl [.declare ['x'], .parse .expression]).1
  exact ⟨hk, h.trans (congrArg (List.map (Seen.naming ⟨.endOfInput, ['$']⟩ 2)) hshort), hshort⟩

end Session

end LineCalc
