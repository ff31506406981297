import Crosswalk.Accepted
import Crosswalk.Parameters
import Crosswalk.Proofs.Entries
import Crosswalk.Proofs.Trimming

/-!
# Looking up rows of reference tables

The rows of a reference table are known to rules by the texts that are shown for
them, and a value is looked up there. A row with a code is named by the code, bare
or in brackets, by its name and by the text shown. Each of these finds the row,
unless the value is an identifier already or an earlier row answers to it, and the
brackets of the shown text are found again as long as the code has none that open.
-/

namespace Crosswalk.Text

/-- The texts agree up to ASCII case and the white space around them. -/
def Agree (value text : String) : Prop := alike (trim value).toList (trim text).toList = true

instance (value text : String) : Decidable (Agree value text) :=
  inferInstanceAs (Decidable (_ = true))

theorem trim_ne_empty_of_agree {value text : String} (h : Agree value text)
    (hne : trim text ≠ "") : trim value ≠ "" := by
  intro hempty
  rw [Agree, alike, beq_iff_eq, hempty] at h
  have hlength := congrArg List.length h
  simp only [foldCase, List.length_map, String.toList_empty, List.length_nil] at hlength
  exact hne (String.toList_eq_nil_iff.1 (List.length_eq_zero_iff.1 hlength.symm))

theorem toList_trim_inBrackets (text : String) :
    (trim ("(" ++ text ++ ")")).toList = '(' :: (text.toList ++ [')']) := by
  have hlist : ("(" ++ text ++ ")").toList = '(' :: text.toList ++ [')'] := by simp
  have hfront : dropBlank ('(' :: text.toList ++ [')']) = '(' :: text.toList ++ [')'] := rfl
  rw [toList_trim, hlist, hfront, dropBlankEnd_concat _ _ (by decide), List.cons_append]

end Crosswalk.Text

namespace Crosswalk.Accepted

/-! ### Taking the shown text apart -/

theorem toList_display (row : ReferenceRow) (code : String) (hcode : row.code = some code) :
    row.display.toList = row.name.toList ++ ' ' :: '(' :: code.toList ++ [')'] := by
  rw [ReferenceRow.display, hcode]
  simp

/-- The name and the code of the shown text are those it was made of. -/
theorem bracketed?_display (row : ReferenceRow) (code : String) (hcode : row.code = some code)
    (hplain : '(' ∉ code.toList) :
    bracketed? row.display.toList
      = some ((Text.trim row.name).toList, (Text.trim code).toList) := by
  have hend : Text.dropBlankEnd row.display.toList = row.display.toList := by
    rw [toList_display row code hcode]
    exact Text.dropBlankEnd_concat _ _ (by decide)
  have hbody : row.display.toList.reverse
      = ')' :: (code.toList.reverse ++ '(' :: ' ' :: row.name.toList.reverse) := by
    rw [toList_display row code hcode]
    simp
  -- from the end, the first opening bracket is the one in front of the code
  have hcodeChars : ∀ c ∈ code.toList.reverse, (c != '(') = true := by
    intro c hc
    refine bne_iff_ne.2 ?_
    rintro rfl
    exact hplain (List.mem_reverse.1 hc)
  have hname : (' ' :: row.name.toList.reverse).reverse = row.name.toList ++ [' '] := by simp
  have hspace : Text.Blanks [' '] := by simp [Text.Blanks, Text.isBlank, Text.blankCodes]
  simp only [bracketed?, hend, hbody, List.dropWhile_append_of_pos hcodeChars,
    List.takeWhile_append_of_pos hcodeChars, List.dropWhile_cons, List.takeWhile_cons,
    bne_self_eq_false, Bool.false_eq_true, if_false, List.append_nil, List.reverse_reverse, hname,
    Text.trimmed_append _ _ hspace, Text.toList_trim]

/-! ### The texts that name a row -/

/-- The text is the code of the row, the code in brackets, its name or what is shown for it. -/
inductive Names (row : ReferenceRow) (code : String) : String → Prop where
  | code : Names row code code
  | inBrackets : Names row code ("(" ++ Text.trim code ++ ")")
  | name (h : Text.trim row.name ≠ "") : Names row code row.name
  | display : Names row code row.display

theorem Names.trim_ne_empty {row : ReferenceRow} {code text : String}
    (hcode : row.code = some code) (hne : Text.trim code ≠ "") (h : Names row code text) :
    Text.trim text ≠ "" := by
  cases h with
  | code => exact hne
  | inBrackets => exact Text.trim_ne_empty _ ')' (by simp) (by decide)
  | name h => exact h
  | display =>
    refine Text.trim_ne_empty _ ')' ?_ (by decide)
    rw [toList_display row code hcode]
    simp

theorem matchesText_of_names {row : ReferenceRow} {code text value : String}
    (hcode : row.code = some code) (htext : Names row code text) (hvalue : Text.Agree value text)
    (hplain : '(' ∉ code.toList ∨ text = row.display) :
    matchesText (Text.trim value).toList row.display.toList = true := by
  by_cases hdisplay : text = row.display
  · subst hdisplay
    rw [Text.Agree, Text.toList_trim row.display] at hvalue
    simp [matchesText, hvalue]
  · have hparts := bracketed?_display row code hcode (hplain.resolve_right hdisplay)
    rw [Text.Agree] at hvalue
    cases htext with
    | code => simp [matchesText, hparts, hvalue]
    | inBrackets =>
      rw [Text.toList_trim_inBrackets] at hvalue
      simp [matchesText, hparts, hvalue]
    | name h =>
      have hname : (Text.trim row.name).toList ≠ [] := by simpa using h
      simp [matchesText, hparts, hvalue, hname]
    | display => exact absurd rfl hdisplay

/-! ### Looking up -/

def ids (rows : List ReferenceRow) : List String := rows.map ReferenceRow.id

def answers (value : String) (row : ReferenceRow) : Bool :=
  matchesText (Text.trim value).toList row.display.toList

/-- An identifier stands for itself, any other text for the first row that answers to it. -/
theorem find?_acceptedOfRows (value : String) (rows : List ReferenceRow) (hids : (ids rows).Nodup)
    (hne : Text.trim value ≠ "") :
    find? value (Parameters.acceptedOfRows rows)
      = if Text.trim value ∈ ids rows then some (Text.trim value)
        else (rows.find? fun row => answers value row).map fun row => row.id := by
  have hkeys : Entries.keys (rows.map fun row => (row.id, row.display)) = ids rows := by
    simp [Entries.keys, ids]
  have hdistinct : Entries.Distinct (rows.map fun row => (row.id, row.display)) := by
    rw [Entries.Distinct, hkeys]
    exact hids
  have hcontains : Entries.contains (Text.trim value)
      (rows.map fun row => (row.id, row.display)) = true ↔ Text.trim value ∈ ids rows := by
    rw [Entries.contains_iff, hkeys]
  rw [Parameters.acceptedOfRows, Entries.ofPairs_of_distinct _ hdistinct]
  by_cases hid : Text.trim value ∈ ids rows
  · simp only [find?, if_neg hne, hcontains.2 hid, if_pos hid, if_true]
  · have hmissing := Bool.not_eq_true _ ▸ mt hcontains.1 hid
    simp only [find?, if_neg hne, hmissing, if_neg hid, Bool.false_eq_true, if_false,
      List.find?_map, Option.map_map, Function.comp_def, answers]

/-- In a table with distinct identifiers, a row whose code is no blank text is found by each text
that names it, if the code has no opening bracket or the text is the one shown for the row: a value
that agrees with the text stands for the row's identifier, unless it is an identifier as it stands
or an earlier row answers to it as well. -/
theorem row_is_found_by_its_names (parameters : Parameters) (table : String)
    (before after : List ReferenceRow) (row : ReferenceRow) (code text value : String)
    (hrows : parameters.table table = before ++ row :: after)
    (hids : (ids (parameters.table table)).Nodup) (hcode : row.code = some code)
    (hne : Text.trim code ≠ "") (htext : Names row code text) (hvalue : Text.Agree value text)
    (hplain : '(' ∉ code.toList ∨ text = row.display) :
    ∃ id, find? value (parameters.accepted table) = some id ∧
      (id = row.id ∨ (id = Text.trim value ∧ id ∈ ids (parameters.table table)) ∨
        ∃ earlier ∈ before, id = earlier.id ∧ answers value earlier = true) := by
  have hanswers : answers value row = true := matchesText_of_names hcode htext hvalue hplain
  have hsome := Text.trim_ne_empty_of_agree hvalue (htext.trim_ne_empty hcode hne)
  rw [Parameters.accepted, find?_acceptedOfRows value _ hids hsome]
  by_cases hid : Text.trim value ∈ ids (parameters.table table)
  · exact ⟨Text.trim value, if_pos hid, Or.inr (Or.inl ⟨rfl, hid⟩)⟩
  · rw [if_neg hid, hrows, List.find?_append]
    cases hfound : before.find? fun row => answers value row with
    | some earlier =>
      exact ⟨earlier.id, rfl, Or.inr (Or.inr ⟨earlier, List.mem_of_find?_eq_some hfound, rfl,
        List.find?_some hfound⟩)⟩
    | none =>
      refine ⟨row.id, ?_, Or.inl rfl⟩
      rw [Option.none_or, List.find?_cons_of_pos hanswers, Option.map_some]

theorem annex_is_found_by_code_and_name :
    let hall : ReferenceRow := ⟨"loc-1", none, "Hall"⟩
    let annex : ReferenceRow := ⟨"loc-2", some " KU/A ", "Library (Annex) "⟩
    let parameters : Parameters := { tables := [("locations", [hall, annex])] }
    (∃ id, find? "\t(ku/a)\n" (parameters.accepted "locations") = some id ∧
      (id = annex.id ∨
        (id = Text.trim "\t(ku/a)\n" ∧ id ∈ ids (parameters.table "locations")) ∨
        ∃ earlier ∈ [hall], id = earlier.id ∧ answers "\t(ku/a)\n" earlier = true)) ∧
      find? "\t(ku/a)\n" (parameters.accepted "locations") = some "loc-2" ∧
      find? "LIBRARY (Annex)" (parameters.accepted "locations") = some "loc-2" := by
  intro hall annex parameters
  refine ⟨row_is_found_by_its_names parameters "locations" [hall] [] annex " KU/A " "(KU/A)"
    "\t(ku/a)\n" rfl (by decide) rfl (by decide +kernel) ?_ (by decide +kernel)
    (Or.inl (by decide)), by decide +kernel, by decide +kernel⟩
  have htrim : "(KU/A)" = "(" ++ Text.trim " KU/A " ++ ")" := by decide +kernel
  rw [htrim]
  exact Names.inBrackets

/-- An opening bracket in the code is taken for the one in front of it, so that the code is not
found, although it names the row. -/
theorem code_with_bracket_is_not_found :
    let row : ReferenceRow := ⟨"loc-1", some "KU(2)", "Library"⟩
    let parameters : Parameters := { tables := [("locations", [row])] }
    parameters.table "locations" = [row] ∧ (ids (parameters.table "locations")).Nodup ∧
      row.code = some "KU(2)" ∧ Text.trim "KU(2)" ≠ "" ∧ Names row "KU(2)" "KU(2)" ∧
      Text.Agree "KU(2)" "KU(2)" ∧ find? "KU(2)" (parameters.accepted "locations") = none := by
  intro row parameters
  exact ⟨rfl, by decide, rfl, by decide +kernel, Names.code, by decide +kernel, by decide +kernel⟩

end Crosswalk.Accepted
