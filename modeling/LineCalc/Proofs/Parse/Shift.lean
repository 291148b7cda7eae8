import LineCalc.Failure
import LineCalc.Proofs.Parse.Taking

/-!
# Reading elsewhere

Nothing that a reading does depends on where it began: with other tokens in front, every index is
larger by their number, and all else is the same.

    step r (p + pos) (s.shift p) t = (step r pos s t).shift p          (step_shift)
    run r (p + pos) (s.shift p) ts = shiftResult p (run r pos s ts)    (run_shift)
    (c.shift p).parse r = shiftResult p (c.parse r)                    (Cursor.parse_shift)
-/

namespace LineCalc

/-! ## With `p` tokens in front -/

/-- The same error, its index larger by `p`. -/
def ParseError.shift (p : Nat) : ParseError → ParseError
  | undeclared name index => undeclared name (p + index)
  | unmatched index => unmatched (p + index)
  | unexpected text index => unexpected text (p + index)
  | tooDeep => tooDeep

/-- The place before the same tokens, with `p` more behind it. -/
def Cursor.shift (p : Nat) (c : Cursor) : Cursor := ⟨p + c.pos, c.rest⟩

/-- No message shows an index. -/
theorem ParseError.message_shift (p : Nat) (err : ParseError) :
    (err.shift p).message = err.message := by
  cases err <;> rfl

theorem Cursor.shift_start (tokens : List Token) (p : Nat) :
    (Cursor.start (tokens.drop p)).shift p = .within tokens p := rfl

namespace Parse

def Group.shift (p : Nat) (g : Group) : Group := ⟨p + g.index, g.outer⟩

def State.shift (p : Nat) (s : State) : State :=
  ⟨s.groups.map (Group.shift p), s.pending, s.operand⟩

def Move.shift (p : Nat) : Move → Move
  | next s => next (s.shift p)
  | stop e => stop e
  | fail err => fail (err.shift p)

/-- What is read, its place or its error with `p` tokens more in front. -/
def shiftResult (p : Nat) : Except ParseError (Expr × Cursor) → Except ParseError (Expr × Cursor)
  | .ok (e, c) => .ok (e, c.shift p)
  | .error err => .error (err.shift p)

/-! ## Reading -/

theorem levelIn_map_shift (r : Rules) (p : Nat) (gs : List Group) :
    r.levelIn (gs.map (Group.shift p)) = r.levelIn gs := by
  cases gs <;> rfl

theorem step_shift (r : Rules) (p pos : Nat) (s : State) (t : Token) :
    step r (p + pos) (s.shift p) t = (step r pos s t).shift p := by
  generalize hm : step r pos s t = m
  refine effect_iff.mp ?_
  cases effect_iff.mpr hm with
  | number hk => exact .number hk
  | name hk hn => exact .name hk hn
  | undeclared hk hn => exact .undeclared hk hn
  | enter ho => exact .enter (by rwa [List.length_map])
  | tooDeep ho => exact .tooDeep (by rwa [List.length_map])
  | unexpected hb => exact .unexpected hb
  | operator hc => exact .operator (by rwa [levelIn_map_shift])
  | stop hc => exact .stop hc
  | leave => exact .leave
  | unmatched hc ht => exact .unmatched hc ht

theorem run_shift (r : Rules) (p pos : Nat) (s : State) (ts : List Token) :
    run r (p + pos) (s.shift p) ts = shiftResult p (run r pos s ts) := by
  induction ts generalizing pos s with
  | nil =>
    obtain ⟨gs, q, _ | x⟩ := s
    · rfl
    · cases gs <;> rfl
  | cons t rest ih =>
    rw [run, run, step_shift]
    cases step r pos s t with
    | next s' => exact ih (pos + 1) s'
    | stop e => rfl
    | fail err => rfl

end Parse

open Parse

theorem Cursor.parse_shift (r : Rules) (p : Nat) (c : Cursor) :
    (c.shift p).parse r = shiftResult p (c.parse r) :=
  run_shift r p c.pos .initial c.rest

end LineCalc
