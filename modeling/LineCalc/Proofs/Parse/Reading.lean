import LineCalc.Proofs.Parse.Derivation

/-!
# Reading is exact

The tokens of a derivation are taken one after the other and leave its tree in the state
(`Derives.exists_take`).  The other way round, a state stands for the tokens that it was read from
(`State.Holds`): each open group, each pending half and the operand is a derivation of its share.
So a tree is read at a cursor exactly if the grammar derives it from the tokens passed over, and it
is the longest one:

    c.parse r = .ok (e, c')  ↔  Derives r 0 r.level e ts, where c.rest = ts ++ c'.rest,
                                and c'.current does not continue the level
                                                                       (Cursor.parse_eq_ok_iff)
-/

namespace LineCalc

namespace Parse

/-! ## Derivations are read -/

/-- A tree `e` of the level begins where `p` is pending, and ends with its operand `x` where `q` is
pending. -/
def Pending.Spans (p : Pending) (level : Level) (q : Pending) (x e : Expr) : Prop :=
  match level with
  | .factor => q = p ∧ x = e
  | .term => p.product = none → q.sum = p.sum ∧ q.term x = e
  | .expression => p = .empty → q.whole x = e

theorem Pending.term_of_product {p : Pending} (h : p.product = none) (x : Expr) :
    p.term x = x := by
  unfold Pending.term
  rw [h]

theorem Pending.whole_of_sum {p : Pending} (h : p.sum = none) (x : Expr) :
    p.whole x = p.term x := by
  unfold Pending.whole
  rw [h]

/-- An operand by itself is a tree of any level. -/
theorem Pending.spans_self (p : Pending) (level : Level) (x : Expr) : p.Spans level p x x := by
  cases level with
  | factor => exact ⟨rfl, rfl⟩
  | term => exact fun h => ⟨rfl, p.term_of_product h x⟩
  | expression =>
    rintro rfl
    rfl

/-- A tree that begins its group is all that is pending there. -/
theorem Pending.Spans.whole_eq {level : Level} {q : Pending} {x e : Expr}
    (h : Pending.empty.Spans level q x e) : q.whole x = e := by
  cases level with
  | factor =>
    obtain ⟨rfl, rfl⟩ := h
    rfl
  | term =>
    obtain ⟨hs, ht⟩ := h rfl
    rw [Pending.whole_of_sum hs, ht]
  | expression => exact h rfl

theorem Pending.extend_of_multiplicative (p : Pending) (x : Expr) {operator : Text}
    (h : Level.Multiplicative operator) :
    p.extend x operator = { p with product := some (p.term x, operator) } := if_pos h

theorem Level.not_multiplicative {operator : Text} (h : Level.Additive operator) :
    ¬ Level.Multiplicative operator := by
  rcases h with rfl | rfl <;> decide

theorem Pending.extend_of_additive (p : Pending) (x : Expr) {operator : Text}
    (h : Level.Additive operator) :
    p.extend x operator = ⟨some (p.whole x, operator), none⟩ :=
  if_neg (Level.not_multiplicative h)

/-- A product behind its operator: the left factors are pending as one term. -/
theorem Pending.Spans.product {level : Level} {p q : Pending} {x left : Expr} {operator : Text}
    (hl : level ≠ .factor) (ho : Level.Multiplicative operator) (h : p.Spans .term q x left)
    (right : Expr) : p.Spans level (q.extend x operator) right (.binary operator left right) := by
  rw [Pending.extend_of_multiplicative _ _ ho]
  cases level with
  | factor => exact absurd rfl hl
  | term =>
    intro hp
    obtain ⟨hs, ht⟩ := h hp
    exact ⟨hs, by rw [← ht]; rfl⟩
  | expression =>
    rintro rfl
    obtain ⟨hs, ht⟩ := h rfl
    have hs' : ({ q with product := some (q.term x, operator) } : Pending).sum = none := hs
    rw [Pending.whole_of_sum hs', ← ht]
    rfl

/-- A sum behind its last term: the terms before it are pending as one expression. -/
theorem Pending.Spans.sum {p q q' : Pending} {x y left right : Expr} {operator : Text}
    (ho : Level.Additive operator) (hl : p.Spans .expression q x left)
    (hr : (q.extend x operator).Spans .term q' y right) :
    p.Spans .expression q' y (.binary operator left right) := by
  rw [Pending.extend_of_additive _ _ ho] at hr
  rintro rfl
  obtain ⟨hs, ht⟩ := hr rfl
  unfold Pending.whole
  rw [hs, hl rfl, ht]

/-- Two operands and an operator between them are taken if each part is. -/
theorem take_operands {r : Rules} {pos : Nat} {gs : List Group} {p q : Pending} {x : Expr}
    {operator : Text} {ls rs : List Token} {s : State} (ho : (r.levelIn gs).Admits operator)
    (hl : take r pos ⟨gs, p, none⟩ ls = some ⟨gs, q, some x⟩)
    (hr : take r (pos + ls.length + 1) ⟨gs, q.extend x operator, none⟩ rs = some s) :
    take r pos ⟨gs, p, none⟩ (ls ++ ⟨.operator, operator⟩ :: rs) = some s := by
  have hstep : step r (pos + ls.length) ⟨gs, q, some x⟩ ⟨.operator, operator⟩ =
      .next ⟨gs, q.extend x operator, none⟩ := effect_iff.mp (.operator ⟨rfl, ho⟩)
  rw [take_append hl, take_cons_of_next hstep, hr]

/-- The tokens of a derivation are all taken, and leave its tree in the state. -/
theorem Derives.exists_take {r : Rules} {depth : Nat} {level : Level} {e : Expr}
    {ts : List Token} (h : Derives r depth level e ts) (pos : Nat) (gs : List Group)
    (p : Pending) (hgs : gs.length = depth)
    (hlevel : ∀ operator, level.Admits operator → (r.levelIn gs).Admits operator) :
    ∃ q x, take r pos ⟨gs, p, none⟩ ts = some ⟨gs, q, some x⟩ ∧ p.Spans level q x e := by
  -- by the derivation, from any state before it: `Spans` says which pending half it may use
  induction h generalizing pos gs p with
  | integer text =>
    exact ⟨p, _, take_cons_of_next (effect_iff.mp (.number (.inl rfl))) [], p.spans_self _ _⟩
  | float text =>
    exact ⟨p, _, take_cons_of_next (effect_iff.mp (.number (.inr rfl))) [], p.spans_self _ _⟩
  | identifier hn =>
    exact ⟨p, _, take_cons_of_next (effect_iff.mp (.name rfl hn)) [], p.spans_self _ _⟩
  | @product _ level operator left right ls rs hl ho _ _ ihl ihr =>
    have hterm : ∀ operator, Level.term.Admits operator → level.Admits operator := by
      intro operator h
      cases level with
      | factor => exact absurd rfl hl
      | term => exact h
      | expression => exact .inl h
    obtain ⟨q, x, hq, hspan⟩ := ihl pos gs p hgs fun o h => hlevel o (hterm o h)
    obtain ⟨q', y, hq', rfl, rfl⟩ :=
      ihr (pos + ls.length + 1) gs (q.extend x operator) hgs fun o h => h.elim
    exact ⟨_, _, take_operands (hlevel operator (hterm operator ho)) hq hq',
      hspan.product hl ho _⟩
  | @sum _ operator left right ls rs ho _ _ ihl ihr =>
    obtain ⟨q, x, hq, hspan⟩ := ihl pos gs p hgs hlevel
    obtain ⟨q', y, hq', hspan'⟩ :=
      ihr (pos + ls.length + 1) gs (q.extend x operator) hgs fun o h => hlevel o (.inl h)
    exact ⟨q', y, take_operands (hlevel operator (.inr ho)) hq hq', hspan.sum ho hspan'⟩
  | @group _ level inner ts hm _ ih =>
    have hopen : step r pos ⟨gs, p, none⟩ .opening = .next ⟨⟨pos, p⟩ :: gs, .empty, none⟩ :=
      effect_iff.mp (.enter (by rw [hgs]; exact hm))
    obtain ⟨q, x, hq, hspan⟩ :=
      ih (pos + 1) (⟨pos, p⟩ :: gs) .empty (by rw [List.length_cons, hgs]) fun o h => h
    have hclose : step r (pos + 1 + ts.length) ⟨⟨pos, p⟩ :: gs, q, some x⟩ .closing =
        .next ⟨gs, p, some (.parenthesized inner)⟩ := by
      rw [← hspan.whole_eq]
      exact effect_iff.mp .leave
    refine ⟨p, _, ?_, p.spans_self _ _⟩
    rw [take_cons_of_next hopen, take_concat hq hclose]

/-! ## What a state was read from -/

section
variable (r : Rules)

/-- A tree of the level and an operator behind it, or nothing, with the tokens of both. -/
inductive Joined (depth : Nat) (level : Level) (operators : Text → Prop) :
    Option (Expr × Text) → List Token → Prop
  | nothing : Joined depth level operators none []
  | behind {e operator ts} : Derives r depth level e ts → operators operator →
      Joined depth level operators (some (e, operator)) (ts ++ [⟨.operator, operator⟩])

/-- What is pending at the beginning of a tree of the level was read from the tokens. -/
structure Pending.Holds (depth : Nat) (level : Level) (p : Pending) (ts : List Token) : Prop where
  tokens : ∃ ss ps, ts = ss ++ ps ∧ Joined r depth .expression Level.Additive p.sum ss ∧
    Joined r depth .term Level.Multiplicative p.product ps
  sum_level : p.sum ≠ none → level = .expression
  product_level : p.product ≠ none → level ≠ .factor

/-- The open groups were read from the tokens, the first of which has the number `base`. -/
inductive Opened (base : Nat) : List Group → List Token → Prop
  | nil : Opened base [] []
  | cons {gs p ts us} : Opened base gs ts → p.Holds r gs.length (r.levelIn gs) us →
      r.mayOpen gs.length = true →
      Opened base (⟨base + (ts ++ us).length, p⟩ :: gs) (ts ++ us ++ [.opening])

/-- The state was read from the tokens, the first of which has the number `base`. -/
inductive State.Holds (base : Nat) : State → List Token → Prop
  | before {gs p ts us} : Opened r base gs ts → p.Holds r gs.length (r.levelIn gs) us →
      State.Holds base ⟨gs, p, none⟩ (ts ++ us)
  | behind {gs p x ts us xs} : Opened r base gs ts → p.Holds r gs.length (r.levelIn gs) us →
      Derives r gs.length .factor x xs → State.Holds base ⟨gs, p, some x⟩ (ts ++ us ++ xs)

end

variable {r : Rules} {depth : Nat} {level : Level} {p : Pending} {ts xs : List Token} {x : Expr}

theorem Pending.holds_empty (depth : Nat) (level : Level) :
    Pending.empty.Holds r depth level [] :=
  ⟨⟨[], [], rfl, .nothing, .nothing⟩, fun h => absurd rfl h, fun h => absurd rfl h⟩

/-- The operand closes the term under way. -/
theorem Joined.term (h : Joined r depth .term Level.Multiplicative p.product ts)
    (hx : Derives r depth .factor x xs) : Derives r depth .term (p.term x) (ts ++ xs) := by
  obtain ⟨sum, product⟩ := p
  cases h with
  | nothing => exact hx.of_factor .term
  | behind hl ho =>
    rw [List.append_assoc]
    exact .product (by simp) ho hl hx

/-- The operand closes the tree under way. -/
theorem Pending.Holds.whole (h : p.Holds r depth level ts) (hx : Derives r depth .factor x xs) :
    Derives r depth level (p.whole x) (ts ++ xs) := by
  obtain ⟨⟨ss, ps, rfl, hs, hp⟩, hsum, hproduct⟩ := h
  have hterm := hp.term hx
  obtain ⟨sum, product⟩ := p
  rw [List.append_assoc]
  cases hs with
  | nothing =>
    cases hp with
    | nothing => exact hx.of_factor level
    | behind hl ho =>
      have hlevel : level ≠ .factor := hproduct (by simp)
      rw [List.nil_append, List.append_assoc]
      exact .product hlevel ho hl hx
  | behind hl ho =>
    obtain rfl : level = .expression := hsum (by simp)
    rw [List.append_assoc]
    exact .sum ho hl hterm

theorem Pending.Holds.extend (h : p.Holds r depth level ts) (hx : Derives r depth .factor x xs)
    {operator : Text} (ho : level.Admits operator) :
    (p.extend x operator).Holds r depth level (ts ++ xs ++ [⟨.operator, operator⟩]) := by
  by_cases hm : Level.Multiplicative operator
  · rw [Pending.extend_of_multiplicative _ _ hm]
    obtain ⟨⟨ss, ps, rfl, hs, hp⟩, hsum, -⟩ := h
    refine ⟨⟨ss, ps ++ xs ++ [⟨.operator, operator⟩], by simp, hs, .behind (hp.term hx) hm⟩,
      hsum, ?_⟩
    rintro - rfl
    exact ho
  · obtain ⟨rfl, ha⟩ : level = .expression ∧ Level.Additive operator := by
      cases level with
      | factor => exact ho.elim
      | term => exact absurd ho hm
      | expression => exact ⟨rfl, ho.resolve_left hm⟩
    rw [Pending.extend_of_additive _ _ ha]
    exact ⟨⟨ts ++ xs ++ [⟨.operator, operator⟩], [], by simp, .behind (h.whole hx) ha, .nothing⟩,
      fun _ => rfl, fun h => absurd rfl h⟩

theorem State.holds_initial (r : Rules) (base : Nat) : State.Holds r base .initial [] :=
  .before .nil (Pending.holds_empty 0 _)

/-- A token that is taken belongs to what the state was read from. -/
theorem State.Holds.next {base : Nat} {s s' : State} {t : Token} (h : s.Holds r base ts)
    (ht : step r (base + ts.length) s t = .next s') : s'.Holds r base (ts ++ [t]) := by
  cases effect_iff.mpr ht with
  | number hk =>
    cases h with
    | before hg hp =>
      obtain ⟨kind, text⟩ := t
      rcases hk with rfl | rfl
      · exact .behind hg hp (.integer text)
      · exact .behind hg hp (.float text)
  | name hk hn =>
    cases h with
    | before hg hp =>
      obtain ⟨kind, text⟩ := t
      obtain rfl : kind = .identifier := hk
      exact .behind hg hp (.identifier hn)
  | enter hm =>
    cases h with
    | before hg hp =>
      rw [← List.append_nil (_ ++ [_])]
      exact .before (.cons hg hp hm) (Pending.holds_empty _ _)
  | operator hc =>
    cases h with
    | @behind gs p x gts us xs hg hp hx =>
      obtain ⟨kind, text⟩ := t
      obtain ⟨hk, ha⟩ := hc
      obtain rfl : kind = .operator := hk
      have h' := State.Holds.before hg (hp.extend hx ha)
      simpa only [List.append_assoc] using h'
  | @leave g gs p x =>
    cases h with
    | @behind _ _ _ gts us xs hg hp hx =>
      cases hg with
      | @cons _ p₀ ots ous hg hp₀ hm =>
        have hin : Derives r (gs.length + 1) .expression (p.whole x) (us ++ xs) := hp.whole hx
        have h' := State.Holds.behind hg hp₀ (.group hm hin)
        simpa only [List.append_assoc, List.cons_append, List.nil_append] using h'

theorem State.Holds.take {base : Nat} {s s' : State} {us : List Token} (h : s.Holds r base ts)
    (hs : take r (base + ts.length) s us = some s') : s'.Holds r base (ts ++ us) := by
  induction us generalizing s ts with
  | nil =>
    cases hs
    rwa [List.append_nil]
  | cons t us ih =>
    obtain ⟨s₁, ht, hs⟩ := take_cons_eq_some_iff.mp hs
    rw [List.append_cons]
    refine ih (h.next ht) ?_
    rwa [List.length_append, List.length_singleton, ← Nat.add_assoc]

theorem State.holds_of_take {base : Nat} {s : State} (h : Parse.take r base .initial ts = some s) :
    s.Holds r base ts := (State.holds_initial r base).take h

/-- An open group begins at one of the tokens that were read. -/
theorem Opened.index_lt {base : Nat} {gs : List Group} (h : Opened r base gs ts) :
    ∀ g ∈ gs, g.index < base + ts.length := by
  induction h with
  | nil => simp
  | cons _ _ _ ih =>
    intro g hg
    simp only [List.length_append, List.length_singleton]
    rcases List.mem_cons.mp hg with rfl | hg
    · simp only [List.length_append]
      omega
    · have := ih g hg
      omega

theorem State.Holds.index_lt {base : Nat} {s : State} (h : s.Holds r base ts) :
    ∀ g ∈ s.groups, g.index < base + ts.length := by
  intro g hg
  cases h with
  | before ho _ =>
    have := ho.index_lt g hg
    simp only [List.length_append]
    omega
  | behind ho _ _ =>
    have := ho.index_lt g hg
    simp only [List.length_append]
    omega

/-- What stops a reading completes a derivation of all that was taken. -/
theorem State.Holds.stop {base pos : Nat} {s : State} {t : Token} {e : Expr}
    (h : s.Holds r base ts) (ht : step r pos s t = .stop e) :
    Derives r 0 r.level e ts ∧ ¬ r.level.Continues t := by
  cases effect_iff.mpr ht with
  | stop hc =>
    cases h with
    | behind hg hp hx =>
      cases hg with
      | nil => exact ⟨hp.whole hx, hc⟩

end Parse

open Parse

/-- A tree is read at a cursor exactly if it is derived from the tokens that are passed over and
the token behind them does not belong to it. -/
theorem Cursor.parse_eq_ok_iff {r : Rules} {c c' : Cursor} {e : Expr} :
    c.parse r = .ok (e, c') ↔
      ∃ ts, c.rest = ts ++ c'.rest ∧ c'.pos = c.pos + ts.length ∧ Derives r 0 r.level e ts ∧
        ¬ r.level.Continues c'.current := by
  unfold Cursor.parse
  rw [run_eq_ok_iff]
  constructor
  · rintro ⟨taken, s', hts, hpos, htake, hstop⟩
    obtain ⟨hd, hc⟩ := (State.holds_of_take htake).stop hstop
    exact ⟨taken, hts, hpos, hd, hc⟩
  · rintro ⟨ts, hts, hpos, hd, hc⟩
    obtain ⟨q, x, htake, hspan⟩ := hd.exists_take c.pos [] .empty rfl fun o h => h
    refine ⟨ts, ⟨[], q, some x⟩, hts, hpos, htake, ?_⟩
    rw [← hspan.whole_eq]
    exact effect_iff.mp (.stop hc)

/-! ## Reading at a place in a list of tokens -/

theorem Expr.Flattens.ne_nil {e : Expr} {ts : List Token} (h : e.Flattens ts) : ts ≠ [] := by
  cases h <;> simp

theorem drop_eq_extract_append {α : Type} (l : List α) {i j : Nat} (h : i ≤ j) :
    l.drop i = l.extract i j ++ l.drop j := by
  rw [List.extract_eq_take_drop]
  have hj : l.drop j = (l.drop i).drop (j - i) := by
    rw [List.drop_drop]
    congr 1
    omega
  rw [hj, List.take_append_drop]

/-- **Exactness.**  From the token number `i` on, a tree is read exactly if the tokens up to the
cursor behind it are written for it, it has the level that is asked for, its names are declared and
the next token does not continue it.  With a limit, as `parseLevel` has one, the tree is not nested
more deeply than that. -/
theorem Cursor.parse_within_iff (names : Names) (level : Level) (limit : Option Nat)
    (tokens : List Token) (i : Nat) (e : Expr) (c : Cursor) :
    (Cursor.within tokens i).parse ⟨names, level, limit⟩ = .ok (e, c) ↔
      c = .within tokens c.pos ∧ c.pos ≤ tokens.length ∧
        e.HasLevel level ∧ e.Flattens (tokens.extract i c.pos) ∧ (∀ n ∈ e.names, n ∈ names) ∧
        ¬ level.Continues c.current ∧ ∀ most ∈ limit, e.nesting ≤ most := by
  obtain ⟨pos, rest⟩ := c
  rw [parse_eq_ok_iff]
  constructor
  · rintro ⟨ts, hts, hpos, hd, hc⟩
    obtain ⟨hlevel, hflat, hnames, hnest⟩ := derives_iff.mp hd
    have hlen := congrArg List.length hts
    have hsome := List.length_pos_iff.mpr hflat.ne_nil
    simp only [Cursor.within] at hts hpos hlen
    rw [List.length_drop, List.length_append] at hlen
    have hrest : rest = tokens.drop pos := by
      rw [hpos, ← List.drop_drop, hts, List.drop_left]
    have hextract : tokens.extract i pos = ts := by
      rw [List.extract_eq_take_drop, hts, hpos, Nat.add_sub_cancel_left, List.take_left]
    refine ⟨by rw [hrest]; rfl, by show pos ≤ _; omega, hlevel, ?_, hnames, hc, hnest⟩
    rw [hextract]
    exact hflat
  · rintro ⟨hc', hpos, hlevel, hflat, hnames, hc, hnest⟩
    have hrest : rest = tokens.drop pos := congrArg Cursor.rest hc'
    have hsome := List.length_pos_iff.mpr hflat.ne_nil
    simp only [List.extract_eq_take_drop, List.length_take, List.length_drop] at hsome
    refine ⟨tokens.extract i pos, ?_, ?_, derives_iff.mpr ⟨hlevel, hflat, hnames, hnest⟩, hc⟩
    · rw [hrest]
      exact drop_eq_extract_append tokens (by omega)
    · replace hpos : pos ≤ tokens.length := hpos
      simp only [List.extract_eq_take_drop, List.length_take, List.length_drop, Cursor.within]
      omega

end LineCalc
