import LineCalc.Proofs.Parse.Declared
import LineCalc.Report

/-!
# The nesting limit

A limit on open groups makes a difference only where one group more would be opened, and what is
open is the parentheses that were opened and not closed, however many there were before:

    s'.groups.length = ts.foldl depthAfter s.groups.length             (length_groups_of_take)
    fewer open all the way than the limit  →  the limit is not noticed (run_unlimited_of_lt)
    more open anywhere than the limit      →  the reading is too deep  (run_tooDeep_of_lt)
-/

namespace LineCalc

namespace Token

/-- How many groups are open behind the token, with `depth` of them open before it. -/
def depthAfter (depth : Nat) (t : Token) : Nat :=
  if t = opening then depth + 1 else if t = closing then depth - 1 else depth

/-- How many of the parentheses that the tokens open are not closed yet. -/
def unclosed (ts : List Token) : Nat := ts.foldl depthAfter 0

theorem depthAfter_of_kind {t : Token} (h : t.kind ≠ .parenthesis) (depth : Nat) :
    depthAfter depth t = depth := by
  unfold depthAfter
  rw [if_neg fun ho => h (by rw [ho]; rfl), if_neg fun hc => h (by rw [hc]; rfl)]

end Token

open Token (depthAfter unclosed)

namespace Parse

/-- The rules without a limit. -/
def Rules.unlimited (r : Rules) : Rules := { r with limit := none }

variable {r : Rules} {pos : Nat} {s s' : State} {t : Token}

/-! ## Open groups -/

theorem length_groups_of_next (h : step r pos s t = .next s') :
    s'.groups.length = depthAfter s.groups.length t := by
  cases effect_iff.mpr h with
  | number hk =>
    rw [Token.depthAfter_of_kind]
    rcases hk with hk | hk <;> rw [hk] <;> decide
  | name hk => rw [Token.depthAfter_of_kind (by rw [hk]; decide)]
  | operator hc => rw [Token.depthAfter_of_kind (by rw [hc.1]; decide)]
  | enter => rfl
  | leave => rfl

theorem length_groups_of_take {ts : List Token} (h : take r pos s ts = some s') :
    s'.groups.length = ts.foldl depthAfter s.groups.length := by
  induction ts generalizing pos s with
  | nil =>
    cases h
    rfl
  | cons t ts ih =>
    obtain ⟨s₁, ht, h⟩ := take_cons_eq_some_iff.mp h
    rw [ih h, length_groups_of_next ht, List.foldl_cons]

theorem length_groups_of_take_initial {ts : List Token} (h : take r pos .initial ts = some s') :
    s'.groups.length = unclosed ts := length_groups_of_take h

/-! ## One token -/

/-- A token is too deep, or the limit makes no difference. -/
theorem step_unlimited (r : Rules) (pos : Nat) (s : State) (t : Token) :
    step r pos s t = .fail .tooDeep ∨ step r.unlimited pos s t = step r pos s t := by
  generalize hm : step r pos s t = m
  cases effect_iff.mpr hm with
  | tooDeep => exact .inl rfl
  | number hk => exact .inr (effect_iff.mp (.number hk))
  | name hk hn => exact .inr (effect_iff.mp (.name hk hn))
  | undeclared hk hn => exact .inr (effect_iff.mp (.undeclared hk hn))
  | enter => exact .inr (effect_iff.mp (.enter rfl))
  | unexpected hb => exact .inr (effect_iff.mp (.unexpected hb))
  | operator hc => exact .inr (effect_iff.mp (.operator hc))
  | stop hc => exact .inr (effect_iff.mp (.stop hc))
  | leave => exact .inr (effect_iff.mp .leave)
  | unmatched hc ht => exact .inr (effect_iff.mp (.unmatched hc ht))

/-- No more groups are open than the limit allows. -/
theorem length_groups_le_of_next {limit : Nat} (hr : r.limit = some limit)
    (hs : s.groups.length ≤ limit) (h : step r pos s t = .next s') :
    s'.groups.length ≤ limit := by
  cases effect_iff.mpr h with
  | number | name | operator => exact hs
  | enter hm => exact mayOpen_iff.mp hm limit hr
  | leave => exact Nat.le_of_succ_le hs

/-! ## All tokens -/

theorem run_unlimited (r : Rules) (pos : Nat) (s : State) (ts : List Token) :
    run r pos s ts = .error .tooDeep ∨ run r.unlimited pos s ts = run r pos s ts := by
  induction ts generalizing pos s with
  | nil => exact .inr rfl
  | cons t ts ih =>
    rcases step_unlimited r pos s t with hdeep | hsame
    · exact .inl (run_of_fail hdeep)
    · rw [run, run, hsame]
      cases step r pos s t with
      | next s' => exact ih (pos + 1) s'
      | stop e => exact .inr rfl
      | fail err => exact .inr rfl

/-- A reading is too deep at a parenthesis, with as many groups open as the limit allows. -/
theorem exists_take_of_tooDeep {ts : List Token} (h : run r pos s ts = .error .tooDeep) :
    ∃ taken rest s' limit, ts = taken ++ .opening :: rest ∧ take r pos s taken = some s' ∧
      reach r pos s ts = pos + taken.length ∧ r.limit = some limit ∧
      limit ≤ s'.groups.length := by
  obtain ⟨taken, rest, s', rfl, htake, hfail⟩ := run_eq_error_iff.mp h
  have hreach : reach r pos s (taken ++ rest) = pos + taken.length := by
    refine reach_of_take htake fun s'' hnext => ?_
    cases hfail.symm.trans hnext
  generalize ht : rest.headD Token.endOfInput = t at hfail
  cases effect_iff.mpr hfail with
  | @tooDeep gs p hm =>
    cases rest with
    | nil => cases ht
    | cons u rest =>
      obtain rfl : u = .opening := ht
      have hlimit : ¬ ∀ limit ∈ r.limit, gs.length < limit := by
        rw [← mayOpen_iff, hm]
        exact Bool.false_ne_true
      obtain ⟨limit, hlimit⟩ := Classical.not_forall.mp hlimit
      obtain ⟨hlimit, hle⟩ := Classical.not_imp.mp hlimit
      exact ⟨taken, rest, _, limit, rfl, htake, hreach, hlimit, Nat.le_of_not_lt hle⟩

theorem run_unlimited_ne_tooDeep (r : Rules) (pos : Nat) (s : State) (ts : List Token) :
    run r.unlimited pos s ts ≠ .error .tooDeep := by
  intro h
  obtain ⟨-, -, -, limit, -, -, -, hlimit, -⟩ := exists_take_of_tooDeep h
  cases hlimit

/-- Where fewer groups are open all the way than the limit allows, it makes no difference. -/
theorem run_unlimited_of_lt {limit : Nat} (hr : r.limit = some limit) {ts : List Token}
    (h : ∀ k ≤ reach r 0 .initial ts, unclosed (ts.take k) < limit) :
    run r 0 .initial ts = run r.unlimited 0 .initial ts := by
  rcases run_unlimited r 0 .initial ts with hdeep | hsame
  · obtain ⟨taken, rest, s', limit', rfl, htake, hreach, hlimit, hle⟩ := exists_take_of_tooDeep hdeep
    obtain rfl : limit = limit' := Option.some.inj (hr.symm.trans hlimit)
    have hlt := h taken.length (by omega)
    rw [List.take_left, ← length_groups_of_take_initial htake] at hlt
    omega
  · exact hsame.symm

/-- Where more groups are open than the limit allows, a reading with it has failed before. -/
theorem run_tooDeep_of_lt {limit : Nat} (hr : r.limit = some limit) {ts : List Token}
    (hs : s.groups.length ≤ limit) (h : take r.unlimited pos s ts = some s')
    (hlt : limit < s'.groups.length) (more : List Token) :
    run r pos s (ts ++ more) = .error .tooDeep := by
  induction ts generalizing pos s with
  | nil =>
    cases h
    omega
  | cons t ts ih =>
    rw [List.cons_append]
    rcases step_unlimited r pos s t with hdeep | hsame
    · exact run_of_fail hdeep
    · obtain ⟨s₁, ht, h⟩ := take_cons_eq_some_iff.mp h
      rw [hsame] at ht
      rw [run_cons_of_next ht]
      exact ih (length_groups_le_of_next hr hs ht) h

/-- All tokens below `reach` are taken. -/
theorem exists_take_of_le_reach {ts : List Token} {k : Nat} (h : pos + k ≤ reach r pos s ts) :
    ∃ s', take r pos s (ts.take k) = some s' := by
  induction ts generalizing pos s k with
  | nil => exact ⟨s, by rw [List.take_nil]; rfl⟩
  | cons t ts ih =>
    cases k with
    | zero => exact ⟨s, rfl⟩
    | succ k =>
      by_cases hs : ∃ s₁, step r pos s t = .next s₁
      · obtain ⟨s₁, hs⟩ := hs
        rw [reach_cons_of_next hs] at h
        obtain ⟨s', hs'⟩ := ih (k := k) (by omega : pos + 1 + k ≤ reach r (pos + 1) s₁ ts)
        exact ⟨s', by rw [List.take_succ_cons, take_cons_of_next hs, hs']⟩
      · rw [reach_cons_of_ne_next fun s₁ h => hs ⟨s₁, h⟩] at h
        omega

end Parse

open Parse

/-- What is read, and the place behind it, where so many groups may be open at a time. -/
def readingWithin (limit : Option Nat) (tokens : List Token) (declared : List Text) :
    Except Failure (Expr × Cursor) :=
  match Names.empty.declareAll declared with
  | .error e => .error (.names e)
  | .ok names => ((Cursor.start tokens).parse ⟨names, .expression, limit⟩).mapError .parse

theorem readingWithin_none_ne_tooDeep (tokens : List Token) (declared : List Text) :
    readingWithin none tokens declared ≠ .error (.parse .tooDeep) := by
  intro h
  unfold readingWithin at h
  cases hd : Names.empty.declareAll declared with
  | error e =>
    rw [hd] at h
    cases h
  | ok names =>
    rw [hd] at h
    exact run_unlimited_ne_tooDeep ⟨names, .expression, none⟩ 0 .initial tokens
      (mapError_parse_eq_error_iff.mp h)

theorem reading_of_unclosed_lt {tokens : List Token} {declared : List Text}
    (h : ∀ k ≤ reach (rulesFor declared) 0 .initial tokens,
      unclosed (tokens.take k) < nestingLimit) :
    reading tokens declared = readingWithin none tokens declared := by
  unfold reading readingWithin
  cases hd : Names.empty.declareAll declared with
  | error e => rfl
  | ok names =>
    obtain ⟨-, rfl⟩ := Names.declareAll_empty_eq_ok_iff.mp hd
    exact congrArg (Except.mapError Failure.parse) (run_unlimited_of_lt rfl h)

theorem reading_of_lt_unclosed {tokens : List Token} {declared : List Text}
    (hd : declared.Nodup) {k : Nat}
    (hk : k ≤ reach (rulesFor declared).unlimited 0 .initial tokens)
    (h : nestingLimit < unclosed (tokens.take k)) (more : List Token) :
    reading (tokens.take k ++ more) declared = .error (.parse .tooDeep) := by
  rw [← Nat.zero_add k] at hk
  obtain ⟨s, hs⟩ := exists_take_of_le_reach hk
  rw [← length_groups_of_take_initial hs] at h
  have hrun := run_tooDeep_of_lt rfl (Nat.zero_le _) hs h more
  rw [reading_of_nodup hd]
  exact congrArg (Except.mapError Failure.parse) hrun

theorem Report.run_of_tooDeep {line : Text} {declared : List Text}
    (h : parse (Token.ofLine line) declared = .error (.parse .tooDeep)) :
    run line declared = ['\n'].intercalate
      ("Tokens:".toList :: ((Token.ofLine line).map Token.line ++
        [[], "Error: Expression is nested too deeply".toList])) := by
  rw [run, lines, h]
  rfl

end LineCalc
