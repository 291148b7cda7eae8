import LineCalc.Failure
import LineCalc.Proofs.Text.Quoted

/-!
# Messages that quote

Three messages show a name or the text of a number: that a variable is undeclared, that it is
already declared, and that a number is malformed.  Each puts the quoted text between the same words,
so it tells which text it is, and it has no character that cannot be shown:

    before ++ quote n ++ after = before ++ quote m ++ after ↔ n = m        (quoting_inj)
    Printable (before ++ quote n ++ after)                                 (printable_quoting)
-/

namespace LineCalc

open Text (Printable Unbroken quote unquote? printable_append)

variable {before after n m : Text}

theorem quoting_inj : before ++ quote n ++ after = before ++ quote m ++ after ↔ n = m := by
  rw [List.append_left_inj, List.append_right_inj, Text.quote_inj]

theorem printable_quoting (hbefore : Printable before) (hafter : Printable after) :
    Printable (before ++ quote n ++ after) :=
  printable_append.mpr ⟨printable_append.mpr ⟨hbefore, Text.printable_quote n⟩, hafter⟩

/-- **Messages that quote.**  A message that shows a name, or the text of a number, is that of no
other text.  What stands between its fixed words is read back as that text, and all characters of
the message are printable, so that it is one line. -/
theorem message_determines (n m : Text) (i j : Nat) :
    ((ParseError.undeclared n i).message = (ParseError.undeclared m j).message ↔ n = m) ∧
    ((AlreadyDeclared.mk n).message = (AlreadyDeclared.mk m).message ↔ n = m) ∧
    ((EvalError.malformedNumber n).message = (EvalError.malformedNumber m).message ↔ n = m) ∧
    (∃ quoted, unquote? quoted = some n ∧
      (ParseError.undeclared n i).message =
        "Variable ".toList ++ quoted ++ " is undeclared.".toList ∧
      (AlreadyDeclared.mk n).message =
        "Variable ".toList ++ quoted ++ " already declared.".toList ∧
      (EvalError.malformedNumber n).message = "Malformed number: ".toList ++ quoted) ∧
    (∀ s ∈ [(ParseError.undeclared n i).message, (AlreadyDeclared.mk n).message,
      (EvalError.malformedNumber n).message], Printable s ∧ Unbroken s) := by
  have hmalformed (t : Text) :
      (EvalError.malformedNumber t).message = "Malformed number: ".toList ++ quote t ++ [] :=
    (List.append_nil _).symm
  refine ⟨quoting_inj, quoting_inj, ?_, ⟨quote n, Text.unquote?_quote n, rfl, rfl, rfl⟩, ?_⟩
  · rw [hmalformed, hmalformed, quoting_inj]
  · have hprintable : ∀ s ∈ [(ParseError.undeclared n i).message, (AlreadyDeclared.mk n).message,
        (EvalError.malformedNumber n).message], Printable s := by
      simp only [List.forall_mem_cons]
      refine ⟨printable_quoting (by decide) (by decide),
        printable_quoting (by decide) (by decide), ?_, List.forall_mem_nil _⟩
      rw [hmalformed]
      exact printable_quoting (by decide) (by decide)
    exact fun s hs => ⟨hprintable s hs, (hprintable s hs).unbroken⟩

end LineCalc
