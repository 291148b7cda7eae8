import LineCalc.Report
import LineCalc.Proofs.Display
import LineCalc.Proofs.Expr.Fault
import LineCalc.Proofs.Expr.Outline
import LineCalc.Proofs.Parse.Earliest
import LineCalc.Proofs.Text.Quoted

/-!
# Reports say what they seem to say

A line of a report has no break in it: lexemes are free of blanks, every break is a blank, and what
a message quotes is escaped.  So a report breaks into the lines that it was made of.  The first
empty one ends the tokens, each of which is known by its line, and the outline behind the tokens is
that of one tree only:

    breakLines (run line declared) = lines line declared               (breakLines_run)
    run line declared = run line' declared' → same tokens, same tree   (run_exact)
-/

namespace LineCalc

open Text (Unbroken unbroken_append breakLines)
open Token (ofLine)

/-! ## Lines of tokens -/

namespace Token

theorem unbroken_text_of_mem_ofLine {s : Text} {t : Token} (h : t ∈ ofLine s) :
    Unbroken t.text := by
  rcases isLexeme_of_mem_ofLine h with hlexeme | rfl
  · exact Text.unbroken_of_isBlank (isBlank_of_mem_text hlexeme)
  · decide

theorem Kind.unbroken_label (k : Kind) : Unbroken k.label := by
  cases k <;> decide

theorem Kind.colon_not_mem_label (k : Kind) : ':' ∉ k.label := by
  cases k <;> decide

/-- No kind has the label of one that is listed before it. -/
theorem Kind.find?_label (k : Kind) : all.find? (fun k' => k'.label = k.label) = some k := by
  cases k <;> decide

theorem Kind.label_inj {k k' : Kind} (h : k.label = k'.label) : k = k' := by
  have hk := find?_label k
  rw [h, find?_label k'] at hk
  exact (Option.some.inj hk).symm

theorem unbroken_line {t : Token} (h : Unbroken t.text) : Unbroken t.line :=
  unbroken_append.mpr ⟨unbroken_append.mpr ⟨t.kind.unbroken_label, by decide⟩, h⟩

theorem line_eq (t : Token) : t.line = t.kind.label ++ ':' :: ' ' :: t.text := by
  show t.kind.label ++ [':', ' '] ++ t.text = _
  rw [List.append_assoc]
  rfl

theorem line_ne_nil (t : Token) : t.line ≠ [] := by
  rw [line_eq]
  exact List.append_ne_nil_of_right_ne_nil _ (List.cons_ne_nil _ _)

/-- The line of a token tells its kind, up to the first colon, and its text behind that. -/
theorem line_inj {t u : Token} (h : t.line = u.line) : t = u := by
  rw [line_eq, line_eq] at h
  obtain ⟨hlabel, hrest⟩ :=
    Text.append_separator_inj t.kind.colon_not_mem_label u.kind.colon_not_mem_label h
  obtain ⟨kind, text⟩ := t
  obtain ⟨kind', text'⟩ := u
  obtain rfl : kind = kind' := Kind.label_inj hlabel
  obtain rfl : text = text' := (List.cons.inj hrest).2
  rfl

end Token

/-! ## Messages -/

theorem AlreadyDeclared.unbroken_message (e : AlreadyDeclared) : Unbroken e.message := by
  have hname : Unbroken (Text.quote e.name) := (Text.printable_quote e.name).unbroken
  exact unbroken_append.mpr ⟨unbroken_append.mpr ⟨by decide, hname⟩, by decide⟩

/-- The text of a token is put into a message as it is. -/
theorem ParseError.unbroken_message {err : ParseError}
    (h : ∀ text index, err = .unexpected text index → Unbroken text) : Unbroken err.message := by
  cases err with
  | undeclared name index =>
    have hname : Unbroken (Text.quote name) := (Text.printable_quote name).unbroken
    exact unbroken_append.mpr ⟨unbroken_append.mpr ⟨by decide, hname⟩, by decide⟩
  | unmatched index =>
    show Unbroken "Expected closing parenthesis".toList
    decide
  | unexpected text index => exact unbroken_append.mpr ⟨by decide, h text index rfl⟩
  | tooDeep => decide

/-- The token that is unexpected in a line is one of its tokens. -/
theorem exists_unexpected {tokens : List Token} {declared : List Text} {text : Text} {index : Nat}
    (h : parse tokens declared = .error (.parse (.unexpected text index))) :
    text = Token.endOfInput.text ∨ ∃ t ∈ tokens, text = t.text := by
  obtain ⟨taken, rest, s, hsplit, htake, hfail⟩ :=
    Parse.run_eq_error_iff.mp (parse_eq_error_iff.mp h).2
  obtain ⟨-, hmessage⟩ := concerns_of_fail htake hfail
  have htext : text = (rest.headD Token.endOfInput).text := List.append_cancel_left hmessage
  cases rest with
  | nil => exact .inl htext
  | cons t rest =>
    have hmem : t ∈ tokens := by
      rw [show tokens = taken ++ t :: rest from hsplit]
      exact List.mem_append_right _ List.mem_cons_self
    exact .inr ⟨t, hmem, htext⟩

theorem unbroken_message_of_parse {line : Text} {declared : List Text} {e : Failure}
    (h : parse (ofLine line) declared = .error e) : Unbroken e.message := by
  cases e with
  | names e => exact e.unbroken_message
  | parse err =>
    refine ParseError.unbroken_message fun text index herr => ?_
    subst herr
    rcases exists_unexpected h with rfl | ⟨t, ht, rfl⟩
    · decide
    · exact Token.unbroken_text_of_mem_ofLine ht
  | evaluation err =>
    -- nothing is evaluated before there is a tree
    unfold parse at h
    split at h
    · cases h
    · split at h <;> cases h

/-! ## All lines -/

namespace Report

/-- The lines between those of the tokens and the last one. -/
def treeLines : Except Failure Expr → List Text
  | .error _ => []
  | .ok e => treeHeader :: (e.outline ++ [[]])

/-- Whatever becomes of a line, the last line is about its value. -/
theorem lines_eq (line : Text) (declared : List Text) :
    lines line declared =
      tokensHeader :: ((ofLine line).map Token.line ++
        [] :: (treeLines (parse (ofLine line) declared) ++
          [resultLine (calculate (ofLine line) declared)])) := by
  unfold lines calculate
  cases parse (ofLine line) declared with
  | error err => rfl
  | ok e => simp [outcomeLines, treeLines]

theorem treeLines_inj {parsed parsed' : Except Failure Expr} {last last' : Text}
    (h : treeLines parsed ++ [last] = treeLines parsed' ++ [last']) (e : Expr) :
    parsed = .ok e ↔ parsed' = .ok e := by
  have htree : treeLines parsed = treeLines parsed' := (List.append_inj' h rfl).1
  cases parsed with
  | error err =>
    cases parsed' with
    | error err' => simp
    | ok u => cases htree
  | ok t =>
    cases parsed' with
    | error err' => cases htree
    | ok u =>
      have houtline := (List.cons.inj htree).2
      rw [Expr.outline_eq, Expr.outline_eq] at houtline
      obtain ⟨rfl, -⟩ := Expr.linesFrom_append_inj houtline
      rfl

theorem unbroken_outline {line : Text} {declared : List Text} {e : Expr}
    (h : parse (ofLine line) declared = .ok e) : ∀ l ∈ e.outline, Unbroken l := by
  obtain ⟨ts, hflat, hts, -⟩ := exists_flattens_of_parse h
  rw [Expr.outline_eq]
  refine Expr.unbroken_linesFrom (fun x hx => ?_) 0
  rw [← hflat.map_text] at hx
  obtain ⟨t, ht, rfl⟩ := List.mem_map.mp hx
  exact Text.unbroken_of_isBlank (Token.isBlank_of_mem_text (hts t ht))

theorem unbroken_failureLine {err : Failure} (h : Unbroken err.message) :
    Unbroken (failureLine err) :=
  unbroken_append.mpr ⟨by decide, h⟩

theorem unbroken_resultLine (line : Text) (declared : List Text) :
    Unbroken (resultLine (calculate (ofLine line) declared)) := by
  unfold calculate
  cases h : parse (ofLine line) declared with
  | error err => exact unbroken_failureLine (unbroken_message_of_parse h)
  | ok e =>
    show Unbroken (resultLine e.calculate)
    unfold Expr.calculate
    cases hvalue : e.evaluate with
    | error err =>
      obtain ⟨ts, hflat, hts, hlevel, -⟩ := exists_flattens_of_parse h
      have hfault := (Expr.evaluate_eq_error_iff_firstFault hlevel (hflat.spellable hts)).mp hvalue
      rcases hfault.eq_identifier_or with rfl | rfl
      · exact unbroken_failureLine (by decide)
      · exact unbroken_failureLine (by decide)
    | ok x => exact unbroken_append.mpr ⟨by decide, x.printable_display.unbroken⟩

theorem resultLine_ne_nil (value : Except Failure Binary64) : resultLine value ≠ [] := by
  cases value with
  | error err => exact List.append_ne_nil_of_left_ne_nil (by decide) _
  | ok x => exact List.append_ne_nil_of_left_ne_nil (by decide) _

theorem unbroken_lines (line : Text) (declared : List Text) :
    ∀ l ∈ lines line declared, Unbroken l := by
  have htokens : ∀ l ∈ (ofLine line).map Token.line, Unbroken l := by
    intro l hl
    obtain ⟨t, ht, rfl⟩ := List.mem_map.mp hl
    exact Token.unbroken_line (Token.unbroken_text_of_mem_ofLine ht)
  have htree : ∀ l ∈ treeLines (parse (ofLine line) declared), Unbroken l := by
    cases h : parse (ofLine line) declared with
    | error err => exact List.forall_mem_nil _
    | ok e =>
      have hblank : ∀ l ∈ [([] : Text)], Unbroken l := by decide
      exact List.forall_mem_cons.mpr
        ⟨by decide, List.forall_mem_append.mpr ⟨unbroken_outline h, hblank⟩⟩
  have hlast := List.forall_mem_singleton.mpr (unbroken_resultLine line declared)
  rw [lines_eq]
  refine List.forall_mem_cons.mpr ⟨by decide, List.forall_mem_append.mpr ⟨htokens, ?_⟩⟩
  exact List.forall_mem_cons.mpr ⟨by decide, List.forall_mem_append.mpr ⟨htree, hlast⟩⟩

/-- A report breaks into the lines that it is made of. -/
theorem breakLines_run (line : Text) (declared : List Text) :
    breakLines (run line declared) = lines line declared := by
  refine Text.breakLines_intercalate (unbroken_lines line declared) fun l hl => ?_
  have hlast : (lines line declared).getLast? =
      some (resultLine (calculate (ofLine line) declared)) := by
    rw [lines_eq]
    simp [List.getLast?_cons, List.getLast?_append]
  rw [hlast] at hl
  obtain rfl := Option.some.inj hl
  exact resultLine_ne_nil _

/-- Equal reports have equal lines. -/
theorem lines_eq_of_run_eq {line line' : Text} {declared declared' : List Text}
    (h : run line declared = run line' declared') :
    lines line declared = lines line' declared' := by
  rw [← breakLines_run, h, breakLines_run]

theorem nil_not_mem_token_lines (tokens : List Token) : [] ∉ tokens.map Token.line := by
  intro h
  obtain ⟨t, -, ht⟩ := List.mem_map.mp h
  exact t.line_ne_nil ht

/-- **What a report tells.**  It breaks into lines at its line feeds alone: the header of the
tokens, one line for each token with its kind and its text, an empty line, then if there is a tree
its header, one line for each node and an empty line, and at last the value or the first failure.
Two lines with the same report, whatever names are declared for them, have the same tokens and the
same tree, if any. -/
theorem run_exact (line : Text) (declared : List Text) :
    (∃ shown tree last,
      breakLines (run line declared) = "Tokens:".toList :: (shown ++ [] :: (tree ++ [last])) ∧
        shown = (ofLine line).map (fun t => t.kind.label ++ ": ".toList ++ t.text) ∧
        (∀ l ∈ shown, l ≠ []) ∧
        match parse (ofLine line) declared with
        | .error err => tree = [] ∧ last = "Error: ".toList ++ err.message
        | .ok e =>
          tree = "Abstract Syntax Tree (AST):".toList :: (e.outline ++ [[]]) ∧
            e.outline.length = e.size ∧ (∀ l ∈ e.outline, l ≠ []) ∧
            match e.evaluate with
            | .error err => last = "Error: ".toList ++ err.message
            | .ok x => last = "Final Output: User, your final output is: ".toList ++ x.display) ∧
      (∀ k : Token.Kind, (k, k.label) ∈ [(.integer, "Integer".toList), (.float, "Float".toList),
        (.identifier, "Identifier".toList), (.operator, "Operator".toList),
        (.parenthesis, "Parenthesis".toList), (.endOfInput, "EndOfInput".toList),
        (.invalid, "Invalid".toList)]) ∧
      (∀ c ∈ run line declared, c ∈ ['\n', '\x0b', '\x0c', '\r', '\x1c', '\x1d', '\x1e',
        '\u0085', '\u2028', '\u2029'] → c = '\n') ∧
      (∀ l ∈ breakLines (run line declared), Unbroken l) ∧
      run line declared = ['\n'].intercalate (breakLines (run line declared)) ∧
      ∀ line' declared', run line declared = run line' declared' →
        ofLine line = ofLine line' ∧
          ∀ e, parse (ofLine line) declared = .ok e ↔ parse (ofLine line') declared' = .ok e := by
  refine ⟨?sections, fun k => ?labels, fun c hc => ?breaks, ?unbroken, ?joined,
    fun line' declared' h => ?equal⟩
  case sections =>
    refine ⟨_, _, _, (breakLines_run line declared).trans (lines_eq line declared), rfl,
      fun l hl => ne_of_mem_of_not_mem hl (nil_not_mem_token_lines _), ?_⟩
    unfold calculate
    cases parse (ofLine line) declared with
    | error err => exact ⟨rfl, rfl⟩
    | ok e =>
      have houtline := Expr.outline_eq e
      refine ⟨rfl, houtline ▸ Expr.length_linesFrom 0 e, houtline ▸ Expr.linesFrom_ne_nil, ?_⟩
      show match e.evaluate with
        | .error err => resultLine e.calculate = "Error: ".toList ++ EvalError.message err
        | .ok x => resultLine e.calculate =
            "Final Output: User, your final output is: ".toList ++ x.display
      unfold Expr.calculate
      cases e.evaluate with
      | error err => rfl
      | ok x => rfl
  case labels => cases k <;> decide
  case breaks => exact Text.eq_of_mem_intercalate (unbroken_lines line declared) hc
  case unbroken =>
    rw [breakLines_run]
    exact unbroken_lines line declared
  case joined =>
    rw [breakLines_run]
    rfl
  case equal =>
    have hlines := lines_eq_of_run_eq h
    rw [lines_eq, lines_eq] at hlines
    -- the line of a token is not empty, so the first empty line ends the tokens of either report
    obtain ⟨htokens, htree⟩ := Text.append_separator_inj (nil_not_mem_token_lines _)
      (nil_not_mem_token_lines _) (List.cons.inj hlines).2
    exact ⟨(List.map_inj_right fun _ _ => Token.line_inj).mp htokens, treeLines_inj htree⟩

/-- Neither blanks nor names that do not occur can be told from a report. -/
theorem run_sum_spaced :
    run ['1', '+', '2'] [] = run ['1', ' ', '+', ' ', '2'] [['x']] ∧
      ofLine ['1', '+', '2'] = ofLine ['1', ' ', '+', ' ', '2'] ∧
      ∀ e, parse (ofLine ['1', '+', '2']) [] = .ok e ↔
        parse (ofLine ['1', ' ', '+', ' ', '2']) [['x']] = .ok e := by
  have h : run ['1', '+', '2'] [] = run ['1', ' ', '+', ' ', '2'] [['x']] := by decide +kernel
  obtain ⟨-, -, -, -, -, hequal⟩ := run_exact ['1', '+', '2'] []
  exact ⟨h, hequal _ _ h⟩

end Report

end LineCalc
