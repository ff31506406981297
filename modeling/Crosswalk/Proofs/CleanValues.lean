import Crosswalk.Proofs.Fields
import Mathlib.Data.List.Zip

/-!
# Texts that are not blank

However its tokens are put together, an expression that is read as a list has no
blank text in it: a list is made of values that are not blank, joining and
appending included. A value has no blanks where that is so of all its texts, at
any depth.
-/

namespace Crosswalk

theorem Text.isBlankText_append (front back : String) :
    isBlankText (front ++ back) = (isBlankText front && isBlankText back) := by
  rw [isBlankText, String.toList_append, List.all_append, isBlankText, isBlankText]

def NoBlankTexts (texts : List String) : Prop := ∀ text ∈ texts, Text.isBlankText text = false

/-- No text in the value is blank, at any depth. -/
inductive Value.NoBlanks : Value → Prop where
  | missing : NoBlanks .missing
  | string (text : String) (h : Text.isBlankText text = false) : NoBlanks (.string text)
  | removal (text : String) : NoBlanks (.removal text)
  | bool (flag : Bool) : NoBlanks (.bool flag)
  | list (texts : List String) (policy : Policy) (h : NoBlankTexts texts) :
      NoBlanks (.list texts policy)
  | repeatable (items : List Item) (policy : Policy) (root : String)
      (h : ∀ item ∈ items, ∀ entry ∈ item, NoBlanks entry.2) :
      NoBlanks (.repeatable items policy root)

namespace Reading

/-! ### Lists of values -/

theorem noBlankTexts_nonBlank (texts : List String) : NoBlankTexts (nonBlank texts) := by
  intro text htext
  rw [← Bool.not_eq_true', (List.mem_filter.1 htext).2]

theorem noBlankTexts_correlate (elements values : List String) (helements : NoBlankTexts elements)
    (hvalues : NoBlankTexts values) : NoBlankTexts (correlate elements values) := by
  rw [correlate]
  split
  · exact helements
  · split
    · rw [← List.map_uncurry_zip_eq_zipWith]
      intro text htext
      obtain ⟨⟨front, back⟩, hpair, rfl⟩ := List.mem_map.1 htext
      -- a text that is appended to cannot become blank
      have hfront := helements front (List.of_mem_zip hpair).1
      rw [Function.uncurry_apply_pair, Text.isBlankText_append, hfront, Bool.false_and]
    · intro text htext
      rcases List.mem_append.1 htext with hold | hnew
      · exact helements text hold
      · exact hvalues text hnew

theorem noBlankTexts_fanOut (values : List (List String)) : NoBlankTexts (fanOut values) := by
  have hfold (elements : List String) (helements : NoBlankTexts elements) :
      NoBlankTexts
        (values.foldl (fun elements texts => correlate elements (nonBlank texts)) elements) := by
    induction values generalizing elements with
    | nil => exact helements
    | cons texts rest ih =>
      exact ih _ (noBlankTexts_correlate elements _ helements (noBlankTexts_nonBlank texts))
  exact hfold [] (List.forall_mem_nil _)

/-! ### Expressions -/

section

variable (setting : Setting) (head : RuleHead) (record : Marc.Record)

theorem noBlankTexts_of_clausesYield (fan : Bool) (clauses : List Expression.Clause)
    (texts : List String)
    (h : clausesYield setting fan head record clauses = .ok (.items texts)) :
    NoBlankTexts texts := by
  rcases clausesYield_cases setting head record fan clauses _ h with hempty | ⟨clause, -, hyield⟩
  · split at hempty
    · cases hempty
      exact List.forall_mem_nil _
    · cases hempty
  · rcases clauseYield_cases setting head record fan clause _ hyield with
      ⟨-, hremoval⟩ | ⟨values, -, hitems⟩
    · cases hremoval
    · split at hitems
      · cases hitems
        exact noBlankTexts_fanOut values
      · cases hitems

end

end Reading

end Crosswalk
