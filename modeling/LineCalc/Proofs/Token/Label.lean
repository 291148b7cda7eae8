import Mathlib.Data.List.Pairwise
import Mathlib.Data.List.SplitBy
import LineCalc.Token.Label

/-!
# Labels tell names apart

A label has no underscore, but the first letter of each word is in upper case and no other letter
is, so the words are found again where the capitals are:

    InCapitals name → toName (ofName name) = name                    (Capitals.toName_flatMap)
    InCapitals name → the words of ofName name, in upper case, are those of name
                                                                     (Capitals.map_capitalRuns)
    ofName name = spell true name                                    (ofName_eq_spell)

The last equation holds of all names, those with empty words or small letters among them.  It makes
a label a matter of each character and the one before it (`spell_eq_filterMap`).
-/

namespace LineCalc.Label

/-- One or more words of capital letters, none of them empty. -/
structure Capitals (parts : List Text) : Prop where
  ne_nil : parts ≠ []
  words_ne_nil : ∀ w ∈ parts, w ≠ []
  isUpper : ∀ w ∈ parts, ∀ c ∈ w, c.isUpper = true

/-- The name is such words, joined by single underscores. -/
def InCapitals (name : Text) : Prop := ∃ parts, Capitals parts ∧ name = ['_'].intercalate parts

/-- The words of a label: a new one begins at each capital letter. -/
def capitalRuns (label : Text) : List Text := label.splitBy fun _ c => !c.isUpper

/-! ## Letters -/

theorem forall_isUpper (p : Char → Prop) (h : ∀ n < 26, p (Char.ofNat (65 + n))) {c : Char}
    (hc : c.isUpper = true) : p c := by
  obtain ⟨hlo, hhi⟩ : 65 ≤ c.toNat ∧ c.toNat ≤ 90 := of_decide_eq_true hc
  have hp := h (c.toNat - 65) (by omega)
  rwa [show 65 + (c.toNat - 65) = c.toNat by omega, Char.ofNat_toNat] at hp

variable {c : Char} {w : Text}

theorem ne_underscore (h : c.isUpper = true) : c ≠ '_' :=
  forall_isUpper (· ≠ '_') (by decide) h

theorem toUpper_eq (h : c.isUpper = true) : c.toUpper = c :=
  forall_isUpper (fun c => c.toUpper = c) (by decide) h

theorem toUpper_toLower (h : c.isUpper = true) : c.toLower.toUpper = c :=
  forall_isUpper (fun c => c.toLower.toUpper = c) (by decide) h

theorem isUpper_toLower (h : c.isUpper = true) : c.toLower.isUpper = false :=
  forall_isUpper (·.toLower.isUpper = false) (by decide) h

theorem isAlpha_toLower (h : c.isUpper = true) : c.toLower.isAlpha = true :=
  forall_isUpper (·.toLower.isAlpha = true) (by decide) h

theorem isAlpha_of_isUpper (h : c.isUpper = true) : c.isAlpha = true :=
  forall_isUpper (·.isAlpha = true) (by decide) h

/-! ## One word -/

theorem capitalize_cons (hc : c.isUpper = true) (rest : Text) :
    capitalize (c :: rest) = c :: rest.map Char.toLower := by
  rw [capitalize, toUpper_eq hc]

theorem map_toUpper_capitalize (hw : ∀ c ∈ w, c.isUpper = true) :
    (capitalize w).map Char.toUpper = w := by
  cases w with
  | nil => rfl
  | cons c rest =>
    obtain ⟨hc, hrest⟩ := List.forall_mem_cons.mp hw
    have hmap : rest.map (Char.toUpper ∘ Char.toLower) = rest.map id :=
      List.map_congr_left fun d hd => toUpper_toLower (hrest d hd)
    rw [capitalize_cons hc, List.map_cons, List.map_map, hmap, List.map_id, toUpper_eq hc]

theorem isAlpha_of_mem_capitalize (hw : ∀ c ∈ w, c.isUpper = true) :
    ∀ d ∈ capitalize w, d.isAlpha = true := by
  cases w with
  | nil => exact List.forall_mem_nil _
  | cons c rest =>
    obtain ⟨hc, hrest⟩ := List.forall_mem_cons.mp hw
    rw [capitalize_cons hc]
    exact List.forall_mem_cons.mpr ⟨isAlpha_of_isUpper hc,
      List.forall_mem_map.mpr fun d hd => isAlpha_toLower (hrest d hd)⟩

/-- Behind its first letter a word has no capital, so no other word begins there. -/
theorem isChain_capitalize (hw : ∀ c ∈ w, c.isUpper = true) :
    (capitalize w).IsChain fun _ d => (!d.isUpper) = true := by
  cases w with
  | nil => exact .nil
  | cons c rest =>
    obtain ⟨hc, hrest⟩ := List.forall_mem_cons.mp hw
    have hlower : ∀ d ∈ rest.map Char.toLower, (!d.isUpper) = true :=
      List.forall_mem_map.mpr fun d hd => by rw [isUpper_toLower (hrest d hd), Bool.not_false]
    rw [capitalize_cons hc]
    exact (List.pairwise_cons.mpr
      ⟨hlower, List.pairwise_of_forall_mem_list fun _ _ d hd => hlower d hd⟩).isChain

/-- The name of one word, with an underscore in front. -/
theorem flatMap_capitalize (hne : w ≠ []) (hw : ∀ c ∈ w, c.isUpper = true) :
    ((capitalize w).flatMap fun d => if d.isUpper then ['_', d] else [d.toUpper]) = '_' :: w := by
  obtain ⟨c, rest, rfl⟩ := List.exists_cons_of_ne_nil hne
  obtain ⟨hc, hrest⟩ := List.forall_mem_cons.mp hw
  rw [capitalize_cons hc, List.flatMap_cons, if_pos hc, List.flatMap_map]
  have hletter : ∀ d ∈ rest, (if d.toLower.isUpper then ['_', d.toLower] else [d.toLower.toUpper]) =
      [d] := fun d hd => by
    rw [isUpper_toLower (hrest d hd), toUpper_toLower (hrest d hd)]
    rfl
  rw [List.flatMap_congr hletter, List.flatMap_singleton']
  rfl

/-! ## The words of a name -/

namespace Capitals

variable {parts : List Text} (h : Capitals parts)
include h

/-- The words of a name are found at its underscores. -/
theorem ofName_intercalate : ofName (['_'].intercalate parts) = parts.flatMap capitalize := by
  have hsep : ∀ w ∈ parts, '_' ∉ w := fun w hw hc => ne_underscore (h.isUpper w hw _ hc) rfl
  rw [ofName, words, List.splitOn_intercalate '_' hsep h.ne_nil]

theorem exists_capitalize {r : Text} (hr : r ∈ parts.map capitalize) :
    ∃ c t, r = c :: t ∧ c.isUpper = true := by
  obtain ⟨w, hw, rfl⟩ := List.mem_map.mp hr
  obtain ⟨c, rest, rfl⟩ := List.exists_cons_of_ne_nil (h.words_ne_nil w hw)
  have hc := h.isUpper _ hw c List.mem_cons_self
  exact ⟨c, _, capitalize_cons hc rest, hc⟩

/-- The words of a label are found at its capitals. -/
theorem capitalRuns_flatMap : capitalRuns (parts.flatMap capitalize) = parts.map capitalize := by
  rw [capitalRuns, List.flatMap_def]
  refine List.splitBy_flatten (fun hnil => ?_) (List.forall_mem_map.mpr fun w hw => ?_) ?_
  · obtain ⟨c, t, hr, -⟩ := h.exists_capitalize hnil
    cases hr
  · exact isChain_capitalize (h.isUpper w hw)
  · refine (List.pairwise_of_forall_mem_list fun a ha b hb => ?_).isChain
    obtain ⟨-, -, rfl, -⟩ := h.exists_capitalize ha
    obtain ⟨c, t, rfl, hc⟩ := h.exists_capitalize hb
    exact ⟨List.cons_ne_nil _ _, List.cons_ne_nil _ _, by rw [List.head_cons, hc]; rfl⟩

theorem map_capitalRuns :
    (capitalRuns (parts.flatMap capitalize)).map (·.map Char.toUpper) = parts := by
  have hmap : parts.map ((·.map Char.toUpper) ∘ capitalize) = parts.map id :=
    List.map_congr_left fun w hw => map_toUpper_capitalize (h.isUpper w hw)
  rw [h.capitalRuns_flatMap, List.map_map, hmap, List.map_id]

theorem isAlpha_of_mem_flatMap : ∀ c ∈ parts.flatMap capitalize, c.isAlpha = true := by
  intro c hc
  obtain ⟨w, hw, hc⟩ := List.mem_flatMap.mp hc
  exact isAlpha_of_mem_capitalize (h.isUpper w hw) c hc

end Capitals

/-- Words with an underscore in front of each of them, the first one too. -/
theorem flatMap_underscore {parts : List Text} (hne : parts ≠ []) :
    (parts.flatMap fun w => '_' :: w) = '_' :: ['_'].intercalate parts := by
  induction parts with
  | nil => exact absurd rfl hne
  | cons w rest ih =>
    rw [List.flatMap_cons]
    cases rest with
    | nil => simp
    | cons v rest =>
      rw [ih (List.cons_ne_nil _ _), List.intercalate_cons_cons]
      simp

theorem Capitals.toName_flatMap {parts : List Text} (h : Capitals parts) :
    toName (parts.flatMap capitalize) = ['_'].intercalate parts := by
  have hall : ((parts.flatMap capitalize).flatMap fun d =>
      if d.isUpper then ['_', d] else [d.toUpper]) = '_' :: ['_'].intercalate parts := by
    rw [List.flatMap_assoc, ← flatMap_underscore h.ne_nil]
    exact List.flatMap_congr fun w hw => flatMap_capitalize (h.words_ne_nil w hw) (h.isUpper w hw)
  obtain ⟨w, rest, rfl⟩ := List.exists_cons_of_ne_nil h.ne_nil
  obtain ⟨c, t, hw, hc⟩ := h.exists_capitalize List.mem_cons_self
  rw [List.flatMap_cons, hw, List.cons_append] at hall ⊢
  rw [List.flatMap_cons, if_pos hc] at hall
  exact (List.cons.inj hall).2

/-! ## Character by character -/

theorem spell_of_words (name : Text) : ∀ w rest, words name = w :: rest →
    spell true name = capitalize w ++ rest.flatMap capitalize ∧
      spell false name = w.map Char.toLower ++ rest.flatMap capitalize := by
  induction name with
  | nil =>
    intro w rest h
    obtain ⟨rfl, rfl⟩ := List.cons.inj h
    exact ⟨rfl, rfl⟩
  | cons c name ih =>
    intro w rest h
    obtain ⟨v, more, hwords⟩ := List.exists_cons_of_ne_nil (List.splitOn_ne_nil '_' name)
    obtain ⟨htrue, hfalse⟩ := ih v more hwords
    rw [words, List.splitOn_cons_eq_if_modifyHead, hwords] at h
    by_cases hc : c = '_'
    · -- an empty word ends here, and the next one begins
      rw [if_pos (beq_iff_eq.mpr hc)] at h
      obtain ⟨rfl, rfl⟩ := List.cons.inj h
      rw [spell, spell, if_pos hc, if_pos hc, htrue]
      exact ⟨rfl, rfl⟩
    · rw [if_neg (by simpa using hc), List.modifyHead_cons] at h
      obtain ⟨rfl, rfl⟩ := List.cons.inj h
      rw [spell, spell, if_neg hc, if_neg hc, hfalse]
      exact ⟨rfl, rfl⟩

/-- A label is spelled in one pass over the name: no underscore, a capital where a word begins, and
small letters elsewhere. -/
theorem ofName_eq_spell (name : Text) : ofName name = spell true name := by
  obtain ⟨w, rest, h⟩ := List.exists_cons_of_ne_nil (List.splitOn_ne_nil '_' name)
  rw [ofName, words, h, List.flatMap_cons]
  exact ((spell_of_words name w rest h).1).symm

/-- What is shown of a character, by the one before it. -/
def shownAfter (before c : Char) : Option Char :=
  if c = '_' then none else some (if before = '_' then c.toUpper else c.toLower)

theorem spell_eq_filterMap (name : Text) (before : Char) :
    spell (before = '_') name =
      ((before :: name).zip name).filterMap fun p => shownAfter p.1 p.2 := by
  induction name generalizing before with
  | nil => rfl
  | cons c name ih =>
    rw [List.zip_cons_cons, List.filterMap_cons, ← ih c, spell, shownAfter]
    by_cases hc : c = '_'
    · simp only [hc, if_true, decide_true]
    · simp only [hc, if_false, decide_false, decide_eq_true_eq]

/-- **Labels tell names apart.**  The label of a name in capitals is made of letters, and its words,
put in upper case and joined by underscores, are the name, so no two such names have one label.
The label of any name has all its characters but the underscores, a letter being a capital exactly
where a word begins: at the start of the name and behind an underscore. -/
theorem ofName_determines :
    (∀ name, InCapitals name →
      (∀ c ∈ ofName name, c.isAlpha = true) ∧
      ['_'].intercalate ((capitalRuns (ofName name)).map (·.map Char.toUpper)) = name ∧
      toName (ofName name) = name) ∧
    (∀ name other, InCapitals name → InCapitals other →
      (ofName name = ofName other ↔ name = other)) ∧
    (∀ name, ofName name = (('_' :: name).zip name).filterMap fun p => shownAfter p.1 p.2) := by
  have hname : ∀ name, InCapitals name → toName (ofName name) = name := by
    rintro _ ⟨parts, h, rfl⟩
    rw [h.ofName_intercalate, h.toName_flatMap]
  refine ⟨fun name h => ⟨?_, ?_, hname name h⟩, fun name other h h' => ⟨fun heq => ?_, ?_⟩,
    fun name => ?_⟩
  · obtain ⟨parts, h, rfl⟩ := h
    rw [h.ofName_intercalate]
    exact h.isAlpha_of_mem_flatMap
  · obtain ⟨parts, h, rfl⟩ := h
    rw [h.ofName_intercalate, h.map_capitalRuns]
  · rw [← hname name h, heq, hname other h']
  · rintro rfl
    rfl
  · rw [ofName_eq_spell, ← spell_eq_filterMap, decide_eq_true rfl]

/-- `A_B` and `AB`, whose labels differ in one letter's case. -/
theorem ofName_two_words :
    InCapitals "A_B".toList ∧ InCapitals "AB".toList ∧
      ofName "A_B".toList = "AB".toList ∧ ofName "AB".toList = "Ab".toList ∧
      toName (ofName "A_B".toList) = "A_B".toList ∧
      (ofName "A_B".toList = ofName "AB".toList ↔ "A_B".toList = "AB".toList) := by
  have htwo : InCapitals "A_B".toList := ⟨[['A'], ['B']], ⟨by simp, by simp, by simp⟩, rfl⟩
  have hone : InCapitals "AB".toList := ⟨[['A', 'B']], ⟨by simp, by simp, by simp⟩, rfl⟩
  obtain ⟨hall, hsame, hshown⟩ := ofName_determines
  refine ⟨htwo, hone, ?_, ?_, (hall _ htwo).2.2, hsame _ _ htwo hone⟩
  · rw [hshown]
    decide
  · rw [hshown]
    decide

end LineCalc.Label
