import LineCalc.Proofs.Parse.Taking

/-!
# Derivations

`Derives r depth level e ts` builds a tree of a level together with its tokens, by the rules that
hold inside `depth` groups.  At the outermost depth a derivation is no more than the four
properties that it combines:

    Derives r 0 level e ts  ↔  e.HasLevel level, e.Flattens ts, its names are declared and it is
                               not nested deeper than the limit                  (derives_iff)
-/

namespace LineCalc

/-! ## Levels of trees -/

/-- A factor and a term stand wherever an expression can. -/
theorem Expr.HasLevel.expression {level : Level} {e : Expr} (h : e.HasLevel level) :
    e.HasLevel .expression := by
  cases e with
  | number | identifier => trivial
  | binary operator left right =>
    rcases h with ⟨-, ho, hl, hr⟩ | ⟨-, ho, hl, hr⟩
    · exact .inl ⟨by simp, ho, hl, hr⟩
    · exact .inr ⟨rfl, ho, hl, hr⟩
  | parenthesized inner => exact h

/-- An operator of an expression is one of the four, and stands between expressions. -/
theorem Expr.HasLevel.operands {level : Level} {operator : Text} {left right : Expr}
    (h : (Expr.binary operator left right).HasLevel level) :
    (Level.Multiplicative operator ∨ Level.Additive operator) ∧
      left.HasLevel .expression ∧ right.HasLevel .expression := by
  rcases h with ⟨-, ho, hl, hr⟩ | ⟨-, ho, hl, hr⟩
  · exact ⟨.inl ho, hl.expression, hr.expression⟩
  · exact ⟨.inr ho, hl, hr.expression⟩

/-- No tree is written with a token that ends the input. -/
theorem Expr.Flattens.kind_ne_endOfInput {e : Expr} {ts : List Token} (h : e.Flattens ts) :
    ∀ t ∈ ts, t.kind ≠ .endOfInput := by
  induction h with
  | integer | float | identifier => simp
  | binary operator _ _ ihl ihr =>
    intro t ht
    rcases List.mem_append.mp ht with ht | ht
    · exact ihl t ht
    · rcases List.mem_cons.mp ht with rfl | ht
      · simp
      · exact ihr t ht
  | parenthesized _ ih =>
    intro t ht
    rcases List.mem_cons.mp ht with rfl | ht
    · simp [Token.opening]
    · rcases List.mem_append.mp ht with ht | ht
      · exact ih t ht
      · obtain rfl := List.mem_singleton.mp ht
        simp [Token.closing]

namespace Parse

/-! ## Derivations -/

/-- Inside `depth` groups, the tree of the level is written with the tokens. -/
inductive Derives (r : Rules) : Nat → Level → Expr → List Token → Prop
  | integer {depth level} (text : Text) :
      Derives r depth level (.number text) [⟨.integer, text⟩]
  | float {depth level} (text : Text) :
      Derives r depth level (.number text) [⟨.float, text⟩]
  | identifier {depth level name} : name ∈ r.names →
      Derives r depth level (.identifier name) [⟨.identifier, name⟩]
  | product {depth level operator left right ls rs} : level ≠ .factor →
      Level.Multiplicative operator →
      Derives r depth .term left ls → Derives r depth .factor right rs →
      Derives r depth level (.binary operator left right) (ls ++ ⟨.operator, operator⟩ :: rs)
  | sum {depth operator left right ls rs} : Level.Additive operator →
      Derives r depth .expression left ls → Derives r depth .term right rs →
      Derives r depth .expression (.binary operator left right)
        (ls ++ ⟨.operator, operator⟩ :: rs)
  | group {depth level inner ts} : r.mayOpen depth = true →
      Derives r (depth + 1) .expression inner ts →
      Derives r depth level (.parenthesized inner) (.opening :: (ts ++ [.closing]))

/-! ## Limits -/

/-- Whether the limit leaves room for the tree inside `depth` groups. -/
def Rules.HasRoom (r : Rules) (depth : Nat) (e : Expr) : Prop :=
  ∀ limit ∈ r.limit, depth + e.nesting ≤ limit

theorem mayOpen_iff {r : Rules} {depth : Nat} :
    r.mayOpen depth = true ↔ ∀ limit ∈ r.limit, depth < limit := by
  unfold Rules.mayOpen
  cases r.limit <;> simp

theorem hasRoom_binary {r : Rules} {depth : Nat} {operator : Text} {left right : Expr} :
    r.HasRoom depth (.binary operator left right) ↔
      r.HasRoom depth left ∧ r.HasRoom depth right := by
  unfold Rules.HasRoom
  constructor
  · intro h
    refine ⟨fun limit hl => ?_, fun limit hl => ?_⟩
    · have : depth + max left.nesting right.nesting ≤ limit := h limit hl
      omega
    · have : depth + max left.nesting right.nesting ≤ limit := h limit hl
      omega
  · rintro ⟨hleft, hright⟩ limit hl
    have := hleft limit hl
    have := hright limit hl
    show depth + max left.nesting right.nesting ≤ limit
    omega

theorem hasRoom_parenthesized {r : Rules} {depth : Nat} {inner : Expr} :
    r.HasRoom depth (.parenthesized inner) ↔ r.HasRoom (depth + 1) inner := by
  unfold Rules.HasRoom
  simp only [Expr.nesting, Nat.add_assoc, Nat.add_comm 1]

theorem mayOpen_of_hasRoom {r : Rules} {depth : Nat} {e : Expr} (h : r.HasRoom (depth + 1) e) :
    r.mayOpen depth = true := by
  refine mayOpen_iff.mpr fun limit hl => ?_
  have := h limit hl
  omega

/-- A factor stands wherever a term or an expression can stand. -/
theorem Derives.of_factor {r : Rules} {depth : Nat} {e : Expr} {ts : List Token}
    (h : Derives r depth .factor e ts) (level : Level) : Derives r depth level e ts := by
  cases h with
  | integer text => exact .integer text
  | float text => exact .float text
  | identifier hn => exact .identifier hn
  | product hl => exact absurd rfl hl
  | group hm hi => exact .group hm hi

/-! ## What a derivation combines -/

section
variable {r : Rules} {depth : Nat} {level : Level} {e : Expr} {ts : List Token}

theorem Derives.hasLevel (h : Derives r depth level e ts) : e.HasLevel level := by
  induction h with
  | integer | float | identifier => trivial
  | product hl ho _ _ ihl ihr => exact .inl ⟨hl, ho, ihl, ihr⟩
  | sum ho _ _ ihl ihr => exact .inr ⟨rfl, ho, ihl, ihr⟩
  | group _ _ ih => exact ih

theorem Derives.flattens (h : Derives r depth level e ts) : e.Flattens ts := by
  induction h with
  | integer text => exact .integer text
  | float text => exact .float text
  | identifier => exact .identifier _
  | product _ _ _ _ ihl ihr => exact .binary _ ihl ihr
  | sum _ _ _ ihl ihr => exact .binary _ ihl ihr
  | group _ _ ih => exact .parenthesized ih

theorem Derives.declared (h : Derives r depth level e ts) : ∀ n ∈ e.names, n ∈ r.names := by
  induction h with
  | integer | float => simp [Expr.names]
  | identifier hn => simpa [Expr.names] using hn
  | product _ _ _ _ ihl ihr | sum _ _ _ ihl ihr =>
    intro n hn
    rcases List.mem_append.mp hn with hn | hn
    · exact ihl n hn
    · exact ihr n hn
  | group _ _ ih => exact ih

/-- Groups are opened only where the limit allows one more. -/
theorem Derives.hasRoom (h : Derives r depth level e ts) (hd : ∀ limit ∈ r.limit, depth ≤ limit) :
    r.HasRoom depth e := by
  induction h with
  | integer | float | identifier => exact hd
  | product _ _ _ _ ihl ihr => exact hasRoom_binary.mpr ⟨ihl hd, ihr hd⟩
  | sum _ _ _ ihl ihr => exact hasRoom_binary.mpr ⟨ihl hd, ihr hd⟩
  | group hm _ ih => exact hasRoom_parenthesized.mpr (ih (mayOpen_iff.mp hm))

theorem derives_of_flattens (hf : e.Flattens ts) (hl : e.HasLevel level)
    (hn : ∀ n ∈ e.names, n ∈ r.names) (hd : r.HasRoom depth e) : Derives r depth level e ts := by
  induction hf generalizing depth level with
  | integer text => exact .integer text
  | float text => exact .float text
  | identifier name => exact .identifier (hn name (by simp [Expr.names]))
  | @binary left right ls rs operator _ _ ihl ihr =>
    have hnl : ∀ n ∈ left.names, n ∈ r.names := fun n h => hn n (List.mem_append_left _ h)
    have hnr : ∀ n ∈ right.names, n ∈ r.names := fun n h => hn n (List.mem_append_right _ h)
    obtain ⟨hdl, hdr⟩ := hasRoom_binary.mp hd
    rcases hl with ⟨hlevel, ho, hleft, hright⟩ | ⟨rfl, ho, hleft, hright⟩
    · exact .product hlevel ho (ihl hleft hnl hdl) (ihr hright hnr hdr)
    · exact .sum ho (ihl hleft hnl hdl) (ihr hright hnr hdr)
  | parenthesized _ ih =>
    have hdi := hasRoom_parenthesized.mp hd
    exact .group (mayOpen_of_hasRoom hdi) (ih hl hn hdi)

theorem derives_iff :
    Derives r 0 level e ts ↔ e.HasLevel level ∧ e.Flattens ts ∧
      (∀ n ∈ e.names, n ∈ r.names) ∧ ∀ limit ∈ r.limit, e.nesting ≤ limit := by
  have hroom : r.HasRoom 0 e ↔ ∀ limit ∈ r.limit, e.nesting ≤ limit := by
    simp only [Rules.HasRoom, Nat.zero_add]
  rw [← hroom]
  constructor
  · intro h
    exact ⟨h.hasLevel, h.flattens, h.declared, h.hasRoom fun limit _ => Nat.zero_le limit⟩
  · rintro ⟨hl, hf, hn, hd⟩
    exact derives_of_flattens hf hl hn hd

end

end Parse

end LineCalc
