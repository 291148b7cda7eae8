import Mathlib.Data.List.Dedup
import LineCalc.Proofs.Parse.Earliest

/-!
# What declarations do

A token is read alike under any names that agree about it, so a reading keeps step with the one
under all names until it comes to an identifier that is not declared, and there it fails:

    no token below `reach` lacks a declaration → both readings are the same
                                                                    (run_declaring_of_reach)
    the first that lacks one lies below `reach` → the reading fails there
                                                                    (run_declaring_of_lacks)

Together with the refusal of a repeated name this is all that a list of declared names does
(`parse_gated`).
-/

namespace LineCalc

/-- Whether the token is an identifier whose name is not declared. -/
def Names.Lacks (names : Names) (t : Token) : Prop := t.kind = .identifier ∧ t.text ∉ names

namespace Parse

/-- The rules with other names. -/
def Rules.declaring (r : Rules) (names : Names) : Rules := { r with names }

variable {r : Rules} {names : Names} {pos : Nat} {s s' : State} {t : Token}

/-! ## One token -/

/-- Names matter only in that an identifier may lack its declaration. -/
theorem step_declaring (pos : Nat) (s : State) (h : names.Lacks t ↔ r.names.Lacks t) :
    step (r.declaring names) pos s t = step r pos s t := by
  have hmem (hk : t.kind = .identifier) : t.text ∈ names ↔ t.text ∈ r.names := by
    simpa only [Names.Lacks, hk, true_and, not_iff_not] using h
  generalize hm : step r pos s t = m
  refine effect_iff.mp ?_
  cases effect_iff.mpr hm with
  | number hk => exact .number hk
  | name hk hn => exact .name hk ((hmem hk).mpr hn)
  | undeclared hk hn => exact .undeclared hk fun h => hn ((hmem hk).mp h)
  | enter ho => exact .enter ho
  | tooDeep ho => exact .tooDeep ho
  | unexpected hb => exact .unexpected hb
  | operator hc => exact .operator hc
  | stop hc => exact .stop hc
  | leave => exact .leave
  | unmatched hc ht => exact .unmatched hc ht

/-- Where one reading takes an identifier, one that lacks its declaration fails. -/
theorem step_declaring_of_lacks (hs : step r pos s t = .next s') (h : names.Lacks t) :
    step (r.declaring names) pos s t = .fail (.undeclared t.text pos) := by
  obtain ⟨hk, hn⟩ := h
  cases effect_iff.mpr hs with
  | number | name | enter => exact effect_iff.mp (.undeclared hk hn)
  | operator hc => cases hk.symm.trans hc.1
  | leave => cases hk

/-- A token that is declared and not taken is no identifier at the beginning of an operand. -/
theorem step_declaring_of_ne_next (hall : ¬ r.names.Lacks t)
    (h : ∀ s', step r pos s t ≠ .next s') :
    step (r.declaring names) pos s t = step r pos s t := by
  obtain ⟨gs, p, _ | x⟩ := s
  · have hk : t.kind ≠ .identifier := by
      intro hk
      by_cases hn : t.text ∈ r.names
      · exact h _ (effect_iff.mp (.name hk hn))
      · exact hall ⟨hk, hn⟩
    exact step_declaring pos _ (by simp only [Names.Lacks, hk, false_and])
  · rfl

/-! ## All tokens -/

/-- Names that agree about all tokens make no difference. -/
theorem run_declaring {ts : List Token} (pos : Nat) (s : State)
    (h : ∀ t ∈ ts, names.Lacks t ↔ r.names.Lacks t) :
    run (r.declaring names) pos s ts = run r pos s ts := by
  induction ts generalizing pos s with
  | nil => rfl
  | cons t rest ih =>
    rw [run, run, step_declaring pos s (h t List.mem_cons_self)]
    cases step r pos s t with
    | next s' => exact ih (pos + 1) s' fun u hu => h u (List.mem_cons_of_mem _ hu)
    | stop e => rfl
    | fail e => rfl

theorem reach_cons_of_next (h : step r pos s t = .next s') (rest : List Token) :
    reach r pos s (t :: rest) = reach r (pos + 1) s' rest := by
  rw [reach, h]

theorem reach_cons_of_ne_next (h : ∀ s', step r pos s t ≠ .next s') (rest : List Token) :
    reach r pos s (t :: rest) = pos := by
  rw [reach]
  cases hs : step r pos s t with
  | next s' => exact absurd hs (h s')
  | stop e => rfl
  | fail e => rfl

theorem le_reach (r : Rules) (pos : Nat) (s : State) (ts : List Token) :
    pos ≤ reach r pos s ts := by
  induction ts generalizing pos s with
  | nil => exact Nat.le_refl pos
  | cons t rest ih =>
    by_cases h : ∃ s', step r pos s t = .next s'
    · obtain ⟨s', h⟩ := h
      rw [reach_cons_of_next h]
      have := ih (pos + 1) s'
      omega
    · exact Nat.le_of_eq (reach_cons_of_ne_next (fun s' hs => h ⟨s', hs⟩) rest).symm

/-- The tokens that are taken end where the reading reaches. -/
theorem reach_of_take {taken rest : List Token} (h : take r pos s taken = some s')
    (hend : ∀ s'', step r (pos + taken.length) s' (rest.headD Token.endOfInput) ≠ .next s'') :
    reach r pos s (taken ++ rest) = pos + taken.length := by
  induction taken generalizing pos s with
  | nil =>
    cases h
    cases rest with
    | nil => rfl
    | cons t rest => exact reach_cons_of_ne_next hend rest
  | cons t taken ih =>
    obtain ⟨s₁, ht, h⟩ := take_cons_eq_some_iff.mp h
    have hlen : pos + (t :: taken).length = pos + 1 + taken.length := by
      rw [List.length_cons]
      omega
    rw [hlen] at hend ⊢
    rw [List.cons_append, reach_cons_of_next ht, ih h hend]

/-- Readings are the same if all that the one takes is declared for the other. -/
theorem run_declaring_of_reach {ts : List Token} (hall : ∀ t ∈ ts, ¬ r.names.Lacks t)
    (h : ∀ i t, ts[i]? = some t → pos + i < reach r pos s ts → ¬ names.Lacks t) :
    run (r.declaring names) pos s ts = run r pos s ts := by
  induction ts generalizing pos s with
  | nil => rfl
  | cons t rest ih =>
    by_cases hs : ∃ s', step r pos s t = .next s'
    · obtain ⟨s', hs⟩ := hs
      rw [reach_cons_of_next hs] at h
      have hreach := le_reach r (pos + 1) s' rest
      have ht : names.Lacks t ↔ r.names.Lacks t :=
        iff_of_false (h 0 t rfl (by omega)) (hall t List.mem_cons_self)
      rw [run_cons_of_next hs, run_cons_of_next ((step_declaring pos s ht).trans hs)]
      refine ih (fun u hu => hall u (List.mem_cons_of_mem _ hu)) fun i u hi hlt => ?_
      exact h (i + 1) u hi (by omega)
    · have hne : ∀ s', step r pos s t ≠ .next s' := fun s' h => hs ⟨s', h⟩
      rw [run, run, step_declaring_of_ne_next (hall t List.mem_cons_self) hne]
      cases hm : step r pos s t with
      | next s' => exact absurd hm (hne s')
      | stop e => rfl
      | fail e => rfl

/-- A reading fails at the first identifier that lacks a declaration, if the other takes it. -/
theorem run_declaring_of_lacks {ts : List Token} {i : Nat} (hall : ∀ t ∈ ts, ¬ r.names.Lacks t)
    (hi : ts[i]? = some t) (hlt : pos + i < reach r pos s ts) (ht : names.Lacks t)
    (hfirst : ∀ k < i, ∀ u, ts[k]? = some u → ¬ names.Lacks u) :
    run (r.declaring names) pos s ts = .error (.undeclared t.text (pos + i)) := by
  -- below `reach` every token is taken, so the split never leaves the first case
  induction ts generalizing pos s i with
  | nil => simp at hi
  | cons u rest ih =>
    by_cases hs : ∃ s', step r pos s u = .next s'
    · obtain ⟨s', hs⟩ := hs
      cases i with
      | zero =>
        obtain rfl : u = t := Option.some.inj hi
        exact run_of_fail (step_declaring_of_lacks hs ht)
      | succ i =>
        have hu : names.Lacks u ↔ r.names.Lacks u :=
          iff_of_false (hfirst 0 (by omega) u rfl) (hall u List.mem_cons_self)
        rw [reach_cons_of_next hs] at hlt
        rw [run_cons_of_next ((step_declaring pos s hu).trans hs),
          ih (fun v hv => hall v (List.mem_cons_of_mem _ hv)) hi (by omega)
            fun k hk v hv => hfirst (k + 1) (by omega) v hv,
          show pos + 1 + i = pos + (i + 1) by omega]
    · rw [reach_cons_of_ne_next fun s' h => hs ⟨s', h⟩] at hlt
      omega

/-- A tree is read up to where the reading reaches. -/
theorem pos_eq_reach {ts : List Token} {e : Expr} {c : Cursor}
    (h : run r pos s ts = .ok (e, c)) : c.pos = reach r pos s ts := by
  obtain ⟨taken, s', rfl, hpos, htake, hstop⟩ := run_eq_ok_iff.mp h
  rw [hpos] at hstop ⊢
  refine (reach_of_take htake fun s'' hnext => ?_).symm
  cases hstop.symm.trans hnext

/-- An error is about the token that the reading reaches. -/
theorem concerns_reach {ts : List Token} {err : ParseError}
    (h : run r 0 .initial ts = .error err) :
    err.Concerns (reach r 0 .initial ts) (Cursor.within ts (reach r 0 .initial ts)).current := by
  obtain ⟨taken, rest, s', rfl, htake, hfail⟩ := run_eq_error_iff.mp h
  have hend : ∀ s'', step r (0 + taken.length) s' (rest.headD Token.endOfInput) ≠ .next s'' := by
    intro s'' hnext
    cases hfail.symm.trans hnext
  have hreach : reach r 0 .initial (taken ++ rest) = taken.length := by
    rw [reach_of_take htake hend, Nat.zero_add]
  have hcurrent : (Cursor.within (taken ++ rest) taken.length).current =
      rest.headD Token.endOfInput := by
    simp [Cursor.within, Cursor.current]
  rw [hreach, hcurrent]
  exact concerns_of_fail htake hfail

end Parse

open Parse

/-! ## Lists of declared names -/

/-- The name at the first place of a list whose name stands before it already. -/
def FirstRepeated (declared : List Text) (n : Text) : Prop :=
  ∃ before after, declared = before ++ n :: after ∧ before.Nodup ∧ n ∈ before

/-- Number `i` is the first token that lacks a declaration. -/
def FirstLacking (declared : List Text) (tokens : List Token) (i : Nat) (t : Token) : Prop :=
  tokens[i]? = some t ∧ (Names.ofList declared).Lacks t ∧
    ∀ k < i, ∀ u, tokens[k]? = some u → ¬ (Names.ofList declared).Lacks u

/-- The names of the identifiers among the tokens, each once. -/
def Token.identifiers (tokens : List Token) : List Text :=
  ((tokens.filter fun t => t.kind = .identifier).map Token.text).dedup

/-- How an expression is read under declared names. -/
def rulesFor (declared : List Text) : Rules :=
  ⟨.ofList declared, .expression, some nestingLimit⟩

/-- What `parse` reads, and the place behind it. -/
def reading (tokens : List Token) (declared : List Text) : Except Failure (Expr × Cursor) :=
  match Names.empty.declareAll declared with
  | .error e => .error (.names e)
  | .ok names => ((Cursor.start tokens).parseLevel names .expression).mapError .parse

/-- The index at which a reading stops under all the names that it comes across. -/
def extent (tokens : List Token) : Nat :=
  reach (rulesFor (Token.identifiers tokens)) 0 .initial tokens

theorem mapError_eq_ok_iff {x : Except ParseError (Expr × Cursor)} {tree : Expr × Cursor} :
    x.mapError Failure.parse = .ok tree ↔ x = .ok tree := by
  cases x <;> simp [Except.mapError]

theorem mapError_parse_eq_error_iff {x : Except ParseError (Expr × Cursor)} {err : ParseError} :
    x.mapError Failure.parse = .error (.parse err) ↔ x = .error err := by
  cases x <;> simp [Except.mapError]

theorem parse_eq_reading (tokens : List Token) (declared : List Text) :
    parse tokens declared = (reading tokens declared).map Prod.fst := by
  unfold parse reading
  cases Names.empty.declareAll declared with
  | error e => rfl
  | ok names =>
    simp only
    cases (Cursor.start tokens).parseLevel names .expression with
    | error e => rfl
    | ok tree => rfl

theorem reading_of_nodup {declared : List Text} (h : declared.Nodup) (tokens : List Token) :
    reading tokens declared = (run (rulesFor declared) 0 .initial tokens).mapError .parse := by
  have hd : Names.empty.declareAll declared = .ok (.ofList declared) :=
    Names.declareAll_empty_eq_ok_iff.mpr ⟨h, rfl⟩
  unfold reading
  rw [hd]
  rfl

/-- A repeated name is refused, whatever the tokens are. -/
theorem exists_reading_of_not_nodup {declared : List Text} (h : ¬ declared.Nodup)
    (tokens : List Token) :
    ∃ n, FirstRepeated declared n ∧ reading tokens declared = .error (.names ⟨n⟩) := by
  cases hd : Names.empty.declareAll declared with
  | ok names => exact absurd (Names.declareAll_empty_eq_ok_iff.mp hd).1 h
  | error e =>
    obtain ⟨before, after, more, hsplit, hbefore, hmem⟩ := Names.declareAll_eq_error_iff.mp hd
    obtain ⟨hnodup, rfl⟩ := Names.declareAll_empty_eq_ok_iff.mp hbefore
    refine ⟨e.name, ⟨before, after, hsplit, hnodup, Names.mem_ofList.mp hmem⟩, ?_⟩
    unfold reading
    rw [hd]

theorem Token.nodup_identifiers (tokens : List Token) : (identifiers tokens).Nodup :=
  List.nodup_dedup _

theorem Token.not_lacks_identifiers {tokens : List Token} :
    ∀ t ∈ tokens, ¬ (Names.ofList (identifiers tokens)).Lacks t := by
  rintro t ht ⟨hk, hn⟩
  refine hn (Names.mem_ofList.mpr (List.mem_dedup.mpr ?_))
  exact List.mem_map_of_mem (List.mem_filter.mpr ⟨ht, by simp [hk]⟩)

section
variable {tokens : List Token} {declared : List Text}

theorem reading_of_lacking (hd : declared.Nodup) {i : Nat} {t : Token}
    (h : FirstLacking declared tokens i t) (hi : i < extent tokens) :
    reading tokens declared = .error (.parse (.undeclared t.text i)) := by
  obtain ⟨htoken, hlacks, hfirst⟩ := h
  have hfail : run ((rulesFor (Token.identifiers tokens)).declaring (.ofList declared)) 0
      .initial tokens = .error (.undeclared t.text (0 + i)) :=
    run_declaring_of_lacks Token.not_lacks_identifiers htoken (by rwa [Nat.zero_add]) hlacks hfirst
  rw [Nat.zero_add] at hfail
  rw [reading_of_nodup hd]
  exact congrArg (Except.mapError Failure.parse) hfail

theorem reading_of_declared (hd : declared.Nodup)
    (h : ∀ i < extent tokens, ∀ t, tokens[i]? = some t → ¬ (Names.ofList declared).Lacks t) :
    reading tokens declared = reading tokens (Token.identifiers tokens) := by
  have hsame : run ((rulesFor (Token.identifiers tokens)).declaring (.ofList declared)) 0
      .initial tokens = run (rulesFor (Token.identifiers tokens)) 0 .initial tokens :=
    run_declaring_of_reach Token.not_lacks_identifiers
      fun i t hi hlt => h i (by rwa [Nat.zero_add] at hlt) t hi
  rw [reading_of_nodup hd, reading_of_nodup (Token.nodup_identifiers tokens)]
  exact congrArg (Except.mapError Failure.parse) hsame

/-- Names that are declared in another order are the same names. -/
theorem reading_of_perm (hd : declared.Nodup) {other : List Text} (h : other.Perm declared) :
    reading tokens other = reading tokens declared := by
  rw [reading_of_nodup hd, reading_of_nodup (h.nodup_iff.mpr hd)]
  refine congrArg (Except.mapError Failure.parse) ?_
  refine run_declaring (r := rulesFor declared) 0 .initial fun t _ => ?_
  exact and_congr_right fun _ => not_congr (Names.mem_ofList.trans
    (h.mem_iff.trans Names.mem_ofList.symm))

/-- Whatever lacks a declaration, something is the first to. -/
theorem exists_firstLacking {i : Nat} {t : Token} (hi : tokens[i]? = some t)
    (h : (Names.ofList declared).Lacks t) : ∃ k ≤ i, ∃ u, FirstLacking declared tokens k u := by
  induction i using Nat.strongRecOn generalizing t with
  | ind i ih =>
    by_cases hfirst : ∃ k < i, ∃ u, tokens[k]? = some u ∧ (Names.ofList declared).Lacks u
    · obtain ⟨k, hk, u, hu, hlacks⟩ := hfirst
      obtain ⟨m, hm, v, hv⟩ := ih k hk hu hlacks
      exact ⟨m, by omega, v, hv⟩
    · refine ⟨i, Nat.le_refl i, t, hi, h, fun k hk u hu hlacks => hfirst ⟨k, hk, u, hu, hlacks⟩⟩

/-- More names leave a tree that was read as it is. -/
theorem reading_of_subset {tree : Expr × Cursor} (h : reading tokens declared = .ok tree)
    {other : List Text} (hsub : declared ⊆ other) (hd : other.Nodup) :
    reading tokens other = .ok tree := by
  have hdd : declared.Nodup := by
    by_contra hrep
    obtain ⟨n, -, herr⟩ := exists_reading_of_not_nodup hrep tokens
    cases herr.symm.trans h
  have hall : ∀ i < extent tokens, ∀ t, tokens[i]? = some t →
      ¬ (Names.ofList declared).Lacks t := by
    intro i hi t ht hlacks
    obtain ⟨k, hk, u, hu⟩ := exists_firstLacking ht hlacks
    have herr := reading_of_lacking hdd hu (by omega)
    cases herr.symm.trans h
  rw [reading_of_declared hd, ← reading_of_declared hdd hall, h]
  rintro i hi t ht ⟨hk, hn⟩
  refine hall i hi t ht ⟨hk, fun hm => hn ?_⟩
  exact Names.mem_ofList.mpr (hsub (Names.mem_ofList.mp hm))

end

/-- **Declarations gate identifiers and do nothing else.**  A repeated name is refused, the first
that comes again.  Otherwise an expression is read as if all names that occur were declared, up to
the first token that lacks its declaration: if the reading comes to it, it fails there, and if not,
nothing is different.  So the order of the names does not count, and with more names a tree stays
as it is. -/
theorem parse_gated (tokens : List Token) (declared : List Text) :
    parse tokens declared = (reading tokens declared).map Prod.fst ∧
      (¬ declared.Nodup →
        ∃ n, FirstRepeated declared n ∧ reading tokens declared = .error (.names ⟨n⟩)) ∧
      (declared.Nodup →
        (∀ i < extent tokens, ∀ t, FirstLacking declared tokens i t →
          reading tokens declared = .error (.parse (.undeclared t.text i))) ∧
        ((∀ i < extent tokens, ∀ t, ¬ FirstLacking declared tokens i t) →
          reading tokens declared = reading tokens (Token.identifiers tokens)) ∧
        ∀ other, other.Perm declared → reading tokens other = reading tokens declared) ∧
      (∀ tree, reading tokens declared = .ok tree → ∀ other, declared ⊆ other → other.Nodup →
        reading tokens other = .ok tree) ∧
      (∀ e c, reading tokens (Token.identifiers tokens) = .ok (e, c) → c.pos = extent tokens) ∧
      ∀ err, reading tokens (Token.identifiers tokens) = .error (.parse err) →
        err.Concerns (extent tokens) (Cursor.within tokens (extent tokens)).current := by
  refine ⟨parse_eq_reading tokens declared, fun h => exists_reading_of_not_nodup h tokens,
    fun hd => ⟨fun i hi t h => reading_of_lacking hd h hi, fun h => ?_,
      fun other h => reading_of_perm hd h⟩,
    fun tree h other hsub hd => reading_of_subset h hsub hd, fun e c h => ?_, fun err h => ?_⟩
  · refine reading_of_declared hd fun i hi t ht hlacks => ?_
    obtain ⟨k, hk, u, hu⟩ := exists_firstLacking ht hlacks
    exact h k (by omega) u hu
  · rw [reading_of_nodup (Token.nodup_identifiers tokens), mapError_eq_ok_iff] at h
    exact pos_eq_reach h
  · rw [reading_of_nodup (Token.nodup_identifiers tokens), mapError_parse_eq_error_iff] at h
    exact concerns_reach h

/-- In `x*y` with `x` declared, `y` lacks its declaration; where `y` and then `x` are declared
again, `y` is the name that is refused. -/
theorem parse_product_lacking :
    [['x']].Nodup ∧
      FirstLacking [['x']] [⟨.identifier, ['x']⟩, ⟨.operator, ['*']⟩, ⟨.identifier, ['y']⟩] 2
        ⟨.identifier, ['y']⟩ ∧
      reading [⟨.identifier, ['x']⟩, ⟨.operator, ['*']⟩, ⟨.identifier, ['y']⟩] [['x']] =
        .error (.parse (.undeclared ['y'] 2)) ∧
      ¬ [['x'], ['y'], ['y'], ['x']].Nodup ∧
      ∃ n, FirstRepeated [['x'], ['y'], ['y'], ['x']] n ∧
        reading [⟨.identifier, ['x']⟩, ⟨.operator, ['*']⟩, ⟨.identifier, ['y']⟩]
          [['x'], ['y'], ['y'], ['x']] = .error (.names ⟨n⟩) := by
  have hlacking : FirstLacking [['x']]
      [⟨.identifier, ['x']⟩, ⟨.operator, ['*']⟩, ⟨.identifier, ['y']⟩] 2 ⟨.identifier, ['y']⟩ := by
    refine ⟨rfl, ⟨rfl, by decide⟩, fun k hk u hu => ?_⟩
    rintro ⟨hkind, hname⟩
    obtain rfl | rfl : k = 0 ∨ k = 1 := by omega
    · cases hu
      exact hname (by decide)
    · cases hu
      cases hkind
  have hnodup : [['x']].Nodup := by decide
  have hrepeated : ¬ [['x'], ['y'], ['y'], ['x']].Nodup := by decide
  exact ⟨hnodup, hlacking, ((parse_gated _ _).2.2.1 hnodup).1 2 (by decide) _ hlacking, hrepeated,
    (parse_gated _ _).2.1 hrepeated⟩

end LineCalc
