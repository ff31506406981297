import Crosswalk.Proofs.CleanValues
import Crosswalk.Proofs.Entries
import Crosswalk.Proofs.Fields
import Mathlib.Data.List.Forall2

/-!
# Fields that take accepted values only

Whatever such a field finds in a record, it passes on accepted identifiers alone,
as long as its rule lists any: every text that it reads consists of identifiers
and of the current date, each put there by a token of one clause, in the order of
the tokens. A clause of one token that reads data leaves a text no choice but to
be an identifier.
-/

namespace Crosswalk

/-- The token takes a value from data: from the record or from the expression itself. -/
def Expression.Token.takesData : Token → Bool
  | .field .. | .range .. | .literal _ => true
  | .today | .remove => false

/-- The value is a text, or a list of texts, with the property. -/
inductive Value.HoldsTexts (P : String → Prop) : Value → Prop where
  | string (text : String) (h : P text) : HoldsTexts P (.string text)
  | list (texts : List String) (policy : Policy) (h : ∀ text ∈ texts, P text) :
      HoldsTexts P (.list texts policy)

theorem Value.HoldsTexts.mono {P Q : String → Prop} {value : Value} (h : value.HoldsTexts P)
    (himp : ∀ text, P text → Q text) : value.HoldsTexts Q := by
  cases h with
  | string text h => exact .string text (himp text h)
  | list texts policy h => exact .list texts policy fun text htext => himp text (h text htext)

namespace Reading

/-- What a token may add to a text where only accepted values are allowed. -/
inductive StrictPart (setting : Setting) (head : RuleHead) : Expression.Token → String → Prop where
  | identifier (token : Expression.Token) (id : String) (htoken : token.takesData = true)
      (hid : id ∈ Entries.keys head.accepted) : StrictPart setting head token id
  | today (date : String) (h : setting.localToday = .ok date) : StrictPart setting head .today date

/-- The text is made of what some of the tokens add, one after the other. -/
def MadeStrictly (setting : Setting) (head : RuleHead) (tokens : List Expression.Token)
    (text : String) : Prop :=
  ∃ used parts, used.Sublist tokens ∧ List.Forall₂ (StrictPart setting head) used parts ∧
    text = String.join parts

def StrictValues (setting : Setting) (head : RuleHead) (token : Expression.Token)
    (values : List String) : Prop :=
  ∀ text ∈ values, text = "" ∨ StrictPart setting head token text

section

variable {setting : Setting} {head : RuleHead}

/-! ### Texts made of parts -/

theorem MadeStrictly.empty (tokens : List Expression.Token) :
    MadeStrictly setting head tokens "" :=
  ⟨[], [], List.nil_sublist tokens, .nil, rfl⟩

theorem MadeStrictly.of_part {token : Expression.Token} {text : String}
    (h : text = "" ∨ StrictPart setting head token text) :
    MadeStrictly setting head [token] text := by
  rcases h with rfl | h
  · exact .empty [token]
  · exact ⟨[token], [text], List.Sublist.refl _, .cons h .nil, by simp [String.join]⟩

theorem MadeStrictly.append {first second : List Expression.Token} {front back : String}
    (hfirst : MadeStrictly setting head first front)
    (hsecond : MadeStrictly setting head second back) :
    MadeStrictly setting head (first ++ second) (front ++ back) := by
  obtain ⟨used, parts, hused, hparts, rfl⟩ := hfirst
  obtain ⟨more, others, hmore, hothers, rfl⟩ := hsecond
  exact ⟨used ++ more, parts ++ others, hused.append hmore, List.rel_append hparts hothers,
    String.join_append.symm⟩

theorem MadeStrictly.identifier {token : Expression.Token} {text : String}
    (htoken : token.takesData = true) (h : MadeStrictly setting head [token] text)
    (hne : text ≠ "") : text ∈ Entries.keys head.accepted := by
  obtain ⟨used, parts, hused, hparts, rfl⟩ := h
  rcases List.sublist_singleton.1 hused with rfl | rfl
  · cases hparts
    exact absurd rfl hne
  · cases hparts with
    | cons hpart hnil =>
      cases hnil
      cases hpart with
      | identifier _ id _ hid => simpa [String.join] using hid
      | today date h => cases htoken

/-! ### The values of a token -/

theorem mem_keys_of_find? {value id : String} {accepted : List (String × String)}
    (h : Accepted.find? value accepted = some id) : id ∈ Entries.keys accepted := by
  simp only [Accepted.find?] at h
  split at h
  · cases h
  · split at h
    · rename_i hcontains
      cases h
      exact (Entries.contains_iff _ _).1 hcontains
    · obtain ⟨entry, hentry, rfl⟩ := Option.map_eq_some_iff.1 h
      exact List.mem_map_of_mem (List.mem_of_find?_eq_some hentry)

theorem settled_of_strict (hstrict : setting.config.requiresAccepted head.fieldName = true)
    (haccepted : head.accepted ≠ []) (text : String) :
    settled setting head text = "" ∨
      settled setting head text ∈ Entries.keys head.accepted := by
  have hsome : head.accepted.isEmpty = false := List.isEmpty_eq_false_iff.2 haccepted
  simp only [settled, Accepted.substitute, hstrict, hsome, Bool.false_eq_true, if_false]
  split
  · rename_i id hid
    exact Or.inr (mem_keys_of_find? hid)
  · exact Or.inl rfl

theorem strictValues_of_tokenValues (record : Marc.Record)
    (hstrict : setting.config.requiresAccepted head.fieldName = true)
    (haccepted : head.accepted ≠ []) (token : Expression.Token) (values : List String)
    (h : tokenValues setting head record token = .ok values) :
    StrictValues setting head token values := by
  have hdata (htoken : token.takesData = true) (raw : String) :
      settled setting head raw = "" ∨ StrictPart setting head token (settled setting head raw) :=
    (settled_of_strict hstrict haccepted raw).imp_right fun hid => .identifier token _ htoken hid
  intro text htext
  cases valueOf_of_tokenValues setting head record token values h text htext with
  | today _ hdate => exact Or.inr (.today text hdate)
  | literal text => exact hdata rfl text
  | field tag codes raw => exact hdata rfl raw
  | range tag start stop raw => exact hdata rfl raw

/-! ### The texts of a clause -/

theorem madeStrictly_joinFirst {clause : Expression.Clause} {values : List (List String)}
    (h : List.Forall₂ (StrictValues setting head) clause values) :
    MadeStrictly setting head clause (joinFirst values) := by
  induction h with
  | nil => exact .empty []
  | @cons token texts rest others hfirst hrest ih =>
    cases texts with
    | nil =>
      -- a token without values adds nothing
      have hskip := (MadeStrictly.empty [token]).append ih
      rwa [String.empty_append] at hskip
    | cons text more =>
      have hadd := (MadeStrictly.of_part (hfirst text List.mem_cons_self)).append ih
      rwa [joinFirst, ← String.join_cons] at hadd

theorem madeStrictly_correlate {done : List Expression.Token} {token : Expression.Token}
    {elements values : List String}
    (helements : ∀ text ∈ elements, MadeStrictly setting head done text)
    (hvalues : StrictValues setting head token values) :
    ∀ text ∈ correlate elements values, MadeStrictly setting head (done ++ [token]) text := by
  have hkept : ∀ text ∈ elements, MadeStrictly setting head (done ++ [token]) text := by
    intro text htext
    simpa using (helements text htext).append (.empty [token])
  rw [correlate]
  split
  · exact hkept
  · split
    · rw [← List.map_uncurry_zip_eq_zipWith]
      intro text htext
      obtain ⟨⟨front, back⟩, hpair, rfl⟩ := List.mem_map.1 htext
      obtain ⟨hfront, hback⟩ := List.of_mem_zip hpair
      exact (helements front hfront).append (.of_part (hvalues back hback))
    · intro text htext
      rcases List.mem_append.1 htext with hold | hnew
      · exact hkept text hold
      · simpa using (MadeStrictly.empty done).append (.of_part (hvalues text hnew))

theorem madeStrictly_fanOut {clause : Expression.Clause} {values : List (List String)}
    (h : List.Forall₂ (StrictValues setting head) clause values) :
    ∀ text ∈ fanOut values, MadeStrictly setting head clause text := by
  -- the elements so far are made by the tokens that have been dealt with
  have hfold (done : List Expression.Token) (elements : List String)
      (helements : ∀ text ∈ elements, MadeStrictly setting head done text) :
      ∀ text ∈ values.foldl (fun elements vs => correlate elements (nonBlank vs)) elements,
        MadeStrictly setting head (done ++ clause) text := by
    induction h generalizing done elements with
    | nil => simpa using helements
    | @cons token texts rest others hfirst hrest ih =>
      have hvalues : StrictValues setting head token (nonBlank texts) :=
        fun text htext => hfirst text (List.mem_of_mem_filter htext)
      simpa using ih (done ++ [token]) _ (madeStrictly_correlate helements hvalues)
  exact hfold [] [] (List.forall_mem_nil _)

/-! ### The value of a rule -/

theorem holdsTexts_of_clauseYield (record : Marc.Record)
    (hstrict : setting.config.requiresAccepted head.fieldName = true)
    (haccepted : head.accepted ≠ []) (fan : Bool) (policy : Policy) (clause : Expression.Clause)
    (yielded : Yield) (h : clauseYield setting fan head record clause = .ok yielded) :
    yieldValue policy yielded = .missing ∨ yieldValue policy yielded = .removal "" ∨
      (yieldValue policy yielded).HoldsTexts fun text =>
        text ≠ "" ∧ MadeStrictly setting head clause text := by
  rcases clauseYield_cases setting head record fan clause yielded h with
    ⟨-, rfl⟩ | ⟨values, hvalues, rfl⟩
  · exact Or.inr (Or.inl rfl)
  · have hstrictly : List.Forall₂ (StrictValues setting head) clause values :=
      (forall₂_clauseValues setting head record clause values hvalues).imp fun token texts htexts =>
        strictValues_of_tokenValues record hstrict haccepted token texts htexts
    have hsome (text : String) (hblank : Text.isBlankText text = false) : text ≠ "" := by
      rintro rfl
      rw [Text.isBlankText_empty] at hblank
      cases hblank
    cases fan with
    | false =>
      rw [if_neg Bool.false_ne_true, yieldValue]
      split
      · exact Or.inl rfl
      · rename_i hblank
        exact Or.inr (Or.inr (.string _ ⟨hsome _ (Bool.eq_false_iff.2 hblank),
          madeStrictly_joinFirst hstrictly⟩))
    | true =>
      have hclean := noBlankTexts_fanOut values
      have hmade := madeStrictly_fanOut hstrictly
      rw [if_pos rfl]
      cases hitems : fanOut values with
      | nil => exact Or.inl rfl
      | cons first rest =>
        rw [hitems] at hclean hmade
        exact Or.inr (Or.inr (.list _ policy fun text htext =>
          ⟨hsome text (hclean text htext), hmade text htext⟩))

end

/-- A field that takes accepted values only, and has some listed, reads nothing, a removal, or texts
that one clause makes of listed identifiers and, where it asks for it, of the current date; a clause
of a single token that takes a value from data makes nothing but listed identifiers. -/
theorem strict_field_reads_identifiers (setting : Setting) (rule : Rule) (record : Marc.Record)
    (value : Value) (hkind : rule.kind = .expression)
    (hstrict : setting.config.requiresAccepted rule.head.fieldName = true)
    (haccepted : rule.head.accepted ≠ [])
    (h : read setting rule record = .ok value ∨ readAll setting rule record = .ok value) :
    value = .missing ∨ value = .removal "" ∨
      ∃ text e, rule.head.expression = some text ∧ Expression.parse text = .ok e ∧
        ∃ clause ∈ e.clauses, value.HoldsTexts (MadeStrictly setting rule.head clause) ∧
          ((∃ token : Expression.Token, clause = [token] ∧ token.takesData = true) →
            value.HoldsTexts fun text => text ∈ Entries.keys rule.head.accepted) := by
  have hread : ∃ fan, readExpression setting fan rule.head record = .ok value := by
    simp only [read, readAll, readRule_of_expression setting record rule _ hkind] at h
    exact h.elim (fun h => ⟨false, h⟩) fun h => ⟨true, h⟩
  obtain ⟨fan, hread⟩ := hread
  rcases exists_yield_of_readExpression setting rule.head record fan value hread with
    rfl | ⟨text, e, yielded, htext, hparse, hclauses, rfl⟩
  · exact Or.inl rfl
  · rcases clausesYield_cases setting rule.head record _ e.clauses yielded hclauses with
      rfl | ⟨clause, hclause, hyield⟩
    · left
      split <;> rfl
    · refine (holdsTexts_of_clauseYield record hstrict haccepted _ rule.head.policyOrDefault clause
        yielded hyield).imp_right (Or.imp_right fun hholds => ?_)
      refine ⟨text, e, htext, hparse, clause, hclause, hholds.mono fun _ hmade => hmade.2, ?_⟩
      rintro ⟨token, rfl, htoken⟩
      exact hholds.mono fun _ hmade => hmade.2.identifier htoken hmade.1

theorem unlisted_vendor_is_dropped :
    let setting : Setting := ⟨{}, {}, fun _ => "2024-05-01"⟩
    let rule : Rule :=
      ⟨{ path := "order.vendor", expression := some "980$a ###TODAY### 980$b",
         accepted := [("v-1", "Yankee (YBP)")] }, []⟩
    let record : Marc.Record :=
      ⟨"", [], [⟨"980", ' ', ' ', [⟨'a', "ybp"⟩, ⟨'b', "Corner Shop"⟩]⟩]⟩
    let value : Value := .string "v-12024-05-01"
    rule.kind = .expression ∧ setting.config.requiresAccepted rule.head.fieldName = true ∧
      rule.head.accepted ≠ [] ∧ read setting rule record = .ok value ∧
      ∃ text e, rule.head.expression = some text ∧ Expression.parse text = .ok e ∧
        ∃ clause ∈ e.clauses, value.HoldsTexts (MadeStrictly setting rule.head clause) ∧
          ((∃ token : Expression.Token, clause = [token] ∧ token.takesData = true) →
            value.HoldsTexts fun text => text ∈ Entries.keys rule.head.accepted) := by
  intro setting rule record value
  have hkind : rule.kind = .expression := by decide +kernel
  have hstrict : setting.config.requiresAccepted rule.head.fieldName = true := by decide +kernel
  have haccepted : rule.head.accepted ≠ [] := by decide
  have hread : read setting rule record = .ok value := by
    unfold record rule setting value
    with_unfolding_all rfl
  refine ⟨hkind, hstrict, haccepted, hread, ?_⟩
  rcases strict_field_reads_identifiers setting rule record value hkind hstrict haccepted
    (Or.inl hread) with hmissing | hremoval | hholds
  · simp only [value, reduceCtorEq] at hmissing
  · simp only [value, reduceCtorEq] at hremoval
  · exact hholds

end Reading

end Crosswalk
