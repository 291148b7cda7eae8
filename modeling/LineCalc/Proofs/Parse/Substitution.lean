import LineCalc.Proofs.Expr.Context
import LineCalc.Proofs.Parse.Reading

/-!
# An expression in parentheses for an operand

Where an operand is read, any expression can be read in parentheses, and the tree has it in the
place of the operand:

    Reads r ts rest e  ↔  Derives r 0 r.level e ts, and rest does not go on with e     (reads_iff)
    before ++ [t] ++ after is read as c around t
      → before ++ ( ts ) ++ after is read as c around the parentheses                  (reads_fill)

If the operand and the expression have one value, so have the trees.
-/

namespace LineCalc

namespace Parse

/-- The tree is read from the tokens `ts`, up to `rest`. -/
def Reads (r : Rules) (ts rest : List Token) (e : Expr) : Prop :=
  (Cursor.start (ts ++ rest)).parse r = .ok (e, ⟨ts.length, rest⟩)

theorem reads_iff {r : Rules} {ts rest : List Token} {e : Expr} :
    Reads r ts rest e ↔
      Derives r 0 r.level e ts ∧ ¬ r.level.Continues (rest.headD Token.endOfInput) := by
  unfold Reads
  rw [Cursor.parse_eq_ok_iff]
  constructor
  · rintro ⟨us, happend, -, hd, hc⟩
    obtain rfl : ts = us := List.append_cancel_right happend
    exact ⟨hd, hc⟩
  · rintro ⟨hd, hc⟩
    exact ⟨ts, rfl, (Nat.zero_add _).symm, hd, hc⟩

end Parse

open Parse

/-- **Substitution.**  An operand among the tokens of an expression is a place in its tree.  With
the tokens of another expression there, in parentheses, the tree is read that has this expression
in the place, if the limit leaves room for it.  The value stays if the expression has the value of
the operand, or fails as the operand does. -/
theorem reads_fill {names : Names} {limit : Option Nat} {before after inner rest others : List Token}
    {t : Token} {operand e a : Expr} (ht : t.operand? = some operand)
    (he : Reads ⟨names, .expression, limit⟩ (before ++ t :: after) rest e)
    (ha : Reads ⟨names, .expression, limit⟩ inner others a) :
    ∃ c : Expr.Context, c.Surrounds before after ∧ c.fill operand = e ∧
      ((∀ most ∈ limit, (c.fill (.parenthesized a)).nesting ≤ most) →
        Reads ⟨names, .expression, limit⟩
          (before ++ .opening :: (inner ++ [.closing]) ++ after) rest (c.fill (.parenthesized a))) ∧
      (a.evaluate = operand.evaluate → (c.fill (.parenthesized a)).evaluate = e.evaluate) := by
  obtain ⟨hde, hrest⟩ := reads_iff.mp he
  obtain ⟨hda, -⟩ := reads_iff.mp ha
  obtain ⟨hle, hfe, hne, -⟩ := derives_iff.mp hde
  obtain ⟨hla, hfa, hna, -⟩ := derives_iff.mp hda
  obtain ⟨c, hc, rfl⟩ := Expr.Context.exists_context hfe rfl ht
  refine ⟨c, hc, rfl, fun hroom => reads_iff.mpr ⟨derives_iff.mpr ⟨?_, ?_, ?_, hroom⟩, hrest⟩,
    fun hvalue => ?_⟩
  · exact c.hasLevel_fill hle hla
  · exact hc.flattens_fill hfa.parenthesized
  · intro n hn
    rcases c.mem_names_fill hn with hn | hn
    · exact hne n hn
    · exact hna n hn
  · rw [Expr.evaluate_eq, Expr.evaluate_eq] at hvalue ⊢
    have hinner : (Expr.parenthesized a).value = operand.value := hvalue
    exact c.value_fill_congr hinner

/-- In `2*3-x` the product `2*(1+2)` comes up, and the difference still fails at `x`. -/
theorem reads_product_of_sum :
    Reads ⟨⟨[['x']]⟩, .expression, none⟩ ([⟨.integer, ['2']⟩, ⟨.operator, ['*']⟩] ++
        ⟨.integer, ['3']⟩ :: [⟨.operator, ['-']⟩, ⟨.identifier, ['x']⟩]) []
        (.binary ['-'] (.binary ['*'] (.number ['2']) (.number ['3'])) (.identifier ['x'])) ∧
      Reads ⟨⟨[['x']]⟩, .expression, none⟩
        [⟨.integer, ['1']⟩, ⟨.operator, ['+']⟩, ⟨.integer, ['2']⟩] []
        (.binary ['+'] (.number ['1']) (.number ['2'])) ∧
      ∃ c : Expr.Context,
        Reads ⟨⟨[['x']]⟩, .expression, none⟩ ([⟨.integer, ['2']⟩, ⟨.operator, ['*']⟩] ++
          .opening :: ([⟨.integer, ['1']⟩, ⟨.operator, ['+']⟩, ⟨.integer, ['2']⟩] ++ [.closing]) ++
          [⟨.operator, ['-']⟩, ⟨.identifier, ['x']⟩]) []
          (c.fill (.parenthesized (.binary ['+'] (.number ['1']) (.number ['2'])))) ∧
        (c.fill (.parenthesized (.binary ['+'] (.number ['1']) (.number ['2'])))).evaluate =
          (Expr.binary ['-'] (.binary ['*'] (.number ['2']) (.number ['3']))
            (.identifier ['x'])).evaluate := by
  have he : Reads ⟨⟨[['x']]⟩, .expression, none⟩ ([⟨.integer, ['2']⟩, ⟨.operator, ['*']⟩] ++
      ⟨.integer, ['3']⟩ :: [⟨.operator, ['-']⟩, ⟨.identifier, ['x']⟩]) []
      (.binary ['-'] (.binary ['*'] (.number ['2']) (.number ['3'])) (.identifier ['x'])) := rfl
  have ha : Reads ⟨⟨[['x']]⟩, .expression, none⟩
      [⟨.integer, ['1']⟩, ⟨.operator, ['+']⟩, ⟨.integer, ['2']⟩] []
      (.binary ['+'] (.number ['1']) (.number ['2'])) := rfl
  have hvalue : (Expr.binary ['+'] (.number ['1']) (.number ['2'])).evaluate =
      (Expr.number ['3']).evaluate := by
    have hsum : Numeral.toBinary64 ⟨[1], []⟩ + Numeral.toBinary64 ⟨[2], []⟩ =
        Numeral.toBinary64 ⟨[3], []⟩ := by decide +kernel
    rw [Expr.evaluate_eq, Expr.evaluate_eq]
    exact congrArg Except.ok hsum
  obtain ⟨c, -, -, hread, hsame⟩ := reads_fill rfl he ha
  exact ⟨he, ha, c, hread (by simp), hsame hvalue⟩

end LineCalc
