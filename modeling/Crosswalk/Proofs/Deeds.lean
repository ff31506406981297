import Crosswalk.Proofs.Destinations
import Crosswalk.Proofs.Fields
import Crosswalk.Proofs.Merging
import Crosswalk.Proofs.Steps

/-!
# Deeds at a destination

A rule that removes nothing decides by what it finds at its destination, and by
nothing else in the document, what it does there: it fails, it does nothing, or it
stores a value that is no object. `Deed` names the ways in which it decides, and
every rule of a kind that only adds to documents has one.
-/

namespace Crosswalk

namespace Document

/-! ### Changes that come to the same -/

theorem changeWithin_congr (first second : List (String × Json) → List (String × Json))
    (keys : List String) (members : List (String × Json))
    (h : first (Json.membersAt keys (.obj members)) = second (Json.membersAt keys (.obj members))) :
    changeWithin first keys members = changeWithin second keys members := by
  induction keys generalizing members with
  | nil => exact congrArg (·, none) h
  | cons key rest ih =>
    rw [changeWithin, changeWithin]
    cases hstored : storage? ((Entries.get? key members).getD .null) with
    | none => rfl
    | some inner =>
      have hinner : changeWithin first rest inner = changeWithin second rest inner := by
        apply ih
        rw [Json.membersAt_cons_obj, membersAt_of_storage? rest _ inner hstored] at h
        exact h
      simp only [hinner]

theorem changeAt_congr (shown : String) (keys : List String)
    (first second : List (String × Json) → List (String × Json)) (document : Json)
    (h : first (document.membersAt keys) = second (document.membersAt keys)) :
    changeAt shown keys first document = changeAt shown keys second document := by
  cases hstored : storage? document with
  | none => simp only [changeAt, hstored]
  | some members =>
    rw [membersAt_of_storage? keys document members hstored] at h
    simp only [changeAt, hstored, changeWithin_congr first second keys members h]

/-- The document with the value at the target, unless something stands in the way. -/
def place? (target : Path) (value document : Json) : Option Json :=
  (changeAt "" target.parents (Entries.insert target.leaf value) document).outcome.toOption

theorem toOption_changeAt (target : Path) (shown : String)
    (value : List (String × Json) → Json) (document : Json) :
    (changeAt shown target.parents
        (fun members => Entries.insert target.leaf (value members) members)
        document).outcome.toOption
      = place? target (value (document.membersAt target.parents)) document := by
  have hchange := changeAt_congr shown target.parents
    (fun members => Entries.insert target.leaf (value members) members)
    (Entries.insert target.leaf (value (document.membersAt target.parents))) document rfl
  rw [hchange, place?]
  cases hstored : storage? document with
  | none => simp only [changeAt, hstored, Written.outcome, Except.toOption]
  | some members =>
    simp only [changeAt, hstored, Written.outcome]
    cases (changeWithin (Entries.insert target.leaf (value (document.membersAt target.parents)))
      target.parents members).2 <;> rfl

theorem changeAt_of_place? (target : Path) (value document result : Json)
    (h : place? target value document = some result) :
    changeAt "" target.parents (Entries.insert target.leaf value) document = ⟨result, none⟩ := by
  exact (Written.outcome_eq_ok_iff _ _).1 (eq_ok_of_toOption _ result h)

/-! ### Deeds -/

/-- How a rule decides what it does at its destination. -/
inductive Deed where
  | refuse
  | keep
  | put (value : Json)
  /-- It adds the elements to the array that is there. -/
  | extend (elements : List Json)
  /-- It puts an array of the elements in the place of the one that is there. -/
  | exchange (elements : List Json)

/-- The elements of an array that was found; none where there was nothing, or null. -/
def arrayFound? : Option Json → Option (List Json)
  | none | some .null => some []
  | some (.arr old) => some old
  | some _ => none

namespace Deed

/-- What is to be stored, if anything, where the value was found; nothing if that is a failure. -/
def stored? (found : Option Json) : Deed → Option (Option Json)
  | refuse => none
  | keep => some none
  | put value => some (some value)
  | extend elements =>
    (arrayFound? found).map fun old =>
      if elements.isEmpty then none else some (.arr (old ++ elements))
  | exchange elements => (arrayFound? found).map fun _ => some (.arr elements)

def perform (target : Path) (deed : Deed) (document : Json) : Option Json :=
  match deed.stored? (document.at? target.keys) with
  | none => none
  | some none => some document
  | some (some value) => place? target value document

/-- No object is stored. -/
def Plain (deed : Deed) : Prop :=
  ∀ found value, deed.stored? found = some (some value) → value.members? = none

/-- What is stored does not depend on what was there: an array where the target is one, and a plain
value elsewhere. -/
def Fixed (target : Path) : Deed → Prop
  | refuse | keep => True
  | put _ => target.isArray = false
  | extend _ => False
  | exchange _ => target.isArray = true

theorem plain_refuse : refuse.Plain := fun _ _ h => nomatch h

theorem plain_keep : keep.Plain := fun _ _ h => nomatch h

theorem plain_put (value : Json) (h : value.members? = none) : (put value).Plain := by
  intro found stored hstored
  cases hstored
  exact h

theorem plain_extend (elements : List Json) : (extend elements).Plain := by
  intro found stored hstored
  obtain ⟨old, -, hvalue⟩ := Option.map_eq_some_iff.1 hstored
  split at hvalue
  · cases hvalue
  · cases hvalue
    rfl

theorem plain_exchange (elements : List Json) : (exchange elements).Plain := by
  intro found stored hstored
  obtain ⟨old, -, hvalue⟩ := Option.map_eq_some_iff.1 hstored
  cases hvalue
  rfl

end Deed

/-! ### Stored content -/

theorem toOption_store_scalar (target : Path) (shown : String) (policy : Option Policy)
    (document value : Json) :
    (store target shown policy document (.scalar value)).outcome.toOption
      = (if target.isArray then Deed.refuse else .put value).perform target document := by
  rw [store]
  split
  · rfl
  · exact toOption_changeAt target shown (fun _ => value) document

theorem toOption_store_elements_of_not_isArray (target : Path) (shown : String)
    (policy : Option Policy) (document : Json) (kind : String) (elements : List Json)
    (h : target.isArray = false) :
    (store target shown policy document (.elements kind elements)).outcome.toOption
      = Deed.refuse.perform target document := by
  simp only [store, h, Bool.false_eq_true, not_false_eq_true, if_true]
  rfl

theorem toOption_store_elements (target : Path) (shown : String) (policy : Option Policy)
    (document : Json) (kind : String) (elements : List Json) (h : target.isArray = true) :
    (store target shown policy document (.elements kind elements)).outcome.toOption
      = (arrayFound? (document.at? target.keys)).bind fun _ =>
          (mergeArray target shown (policy.getD default) elements document).outcome.toOption := by
  simp only [store, h, not_true, if_false]
  cases document.at? target.keys with
  | none => rfl
  | some value => cases value <;> rfl

theorem arrayFound?_eq_some (target : Path) (document : Json) (old : List Json)
    (h : arrayFound? (document.at? target.keys) = some old) :
    oldElements target document = old := by
  rw [oldElements]
  cases hat : document.at? target.keys with
  | none =>
    rw [hat] at h
    cases h
    rfl
  | some value =>
    rw [hat] at h
    cases value with
    | null | arr =>
      cases h
      rfl
    | _ => cases h

theorem toOption_store_extend (target : Path) (shown : String) (policy : Option Policy)
    (document : Json) (kind : String) (elements : List Json)
    (hpolicy : policy.getD default = .extendExisting) :
    (store target shown policy document (.elements kind elements)).outcome.toOption
      = (if target.isArray then Deed.extend elements else .refuse).perform target document := by
  cases harray : target.isArray with
  | false => exact toOption_store_elements_of_not_isArray _ _ _ _ _ _ harray
  | true =>
    rw [toOption_store_elements _ _ _ _ _ _ harray, hpolicy, mergeArray, if_pos rfl,
      Deed.perform, Deed.stored?]
    cases hfound : arrayFound? (document.at? target.keys) with
    | none => rfl
    | some old =>
      rw [Option.bind_some, Option.map_some]
      split
      · rfl
      · have hold := arrayFound?_eq_some target document old hfound
        have hplace := toOption_changeAt target shown
          (fun members => .arr (elementsAt target.leaf members ++ elements)) document
        rw [elementsAt_membersAt, hold] at hplace
        exact hplace

theorem toOption_store_exchange (target : Path) (shown : String) (document : Json) (kind : String)
    (elements : List Json) (hsome : elements ≠ []) :
    (store target shown (some .exchangeExisting) document
        (.elements kind elements)).outcome.toOption
      = (if target.isArray then Deed.exchange elements else .refuse).perform target document := by
  cases harray : target.isArray with
  | false => exact toOption_store_elements_of_not_isArray _ _ _ _ _ _ harray
  | true =>
    have hcons : elements.isEmpty = false := List.isEmpty_eq_false_iff.2 hsome
    rw [toOption_store_elements _ _ _ _ _ _ harray, Option.getD_some, mergeArray, hcons,
      if_neg Bool.false_ne_true, if_pos rfl, Deed.perform, Deed.stored?]
    cases arrayFound? (document.at? target.keys) with
    | none => rfl
    | some old => exact toOption_changeAt target shown (fun _ => .arr elements) document

end Document

/-! ### What rules read that remove nothing -/

/-- The expression of the rule has no token that asks for a removal. -/
def RuleHead.RemovesNothing (head : RuleHead) : Prop :=
  ∀ text expression, head.expression = some text → Expression.parse text = .ok expression →
    ∀ clause ∈ expression.clauses, Expression.Token.remove ∉ clause

theorem RuleHead.removesNothing_of_parse (head : RuleHead) (text : String) (expression : Expression)
    (htext : head.expression = some text) (hparse : Expression.parse text = .ok expression)
    (h : ∀ clause ∈ expression.clauses, Expression.Token.remove ∉ clause) :
    head.RemovesNothing := by
  intro other parsed hother hparsed
  cases htext.symm.trans hother
  cases hparse.symm.trans hparsed
  exact h

namespace Reading

variable (setting : Setting) (head : RuleHead) (record : Marc.Record)

theorem ne_removal_of_clausesYield (fan : Bool) (clauses : List Expression.Clause)
    (yielded : Yield) (hclauses : ∀ clause ∈ clauses, Expression.Token.remove ∉ clause)
    (h : clausesYield setting fan head record clauses = .ok yielded) : yielded ≠ .removal := by
  rcases clausesYield_cases setting head record fan clauses yielded h with
    rfl | ⟨clause, hclause, hyield⟩
  · cases fan <;> simp
  · rcases clauseYield_cases setting head record fan clause yielded hyield with
      ⟨hnone, -⟩ | ⟨values, -, rfl⟩
    · exact absurd hnone (clauseValues_ne_none setting head record clause (hclauses clause hclause))
    · cases fan <;> simp

theorem readRule_of_boolean (rule : Rule) (fan : Bool) (record : Marc.Record)
    (h : rule.kind = .boolean) :
    readRule setting rule fan record = .ok (boolValue rule.head.boolAction) := by
  obtain ⟨head, groups⟩ := rule
  rw [readRule, h]

theorem readExpression_cases (value : Value) (hremoves : head.RemovesNothing)
    (h : readExpression setting false head record = .ok value) :
    value = .missing ∨ (∃ text, value = .string text) ∨
      ∃ texts policy, value = .list texts policy ∧ texts ≠ [] ∧
        Path.isMarked head.path = true := by
  rcases exists_yield_of_readExpression setting head record false value h with
    rfl | ⟨text, expression, yielded, htext, hparse, hclauses, rfl⟩
  · exact Or.inl rfl
  · rw [Bool.false_or] at hclauses
    have hfits := fits_of_clausesYield setting head record _ _ yielded hclauses
    have hstays := ne_removal_of_clausesYield setting head record _ _ yielded
      (hremoves text expression htext hparse) hclauses
    cases yielded with
    | removal => exact absurd rfl hstays
    | scalar text =>
      rw [yieldValue]
      split
      · exact Or.inl rfl
      · exact Or.inr (Or.inl ⟨text, rfl⟩)
    | items texts =>
      cases texts with
      | nil => exact Or.inl rfl
      | cons first rest =>
        exact Or.inr (Or.inr ⟨first :: rest, _, rfl, List.cons_ne_nil _ _, hfits⟩)

end Reading

/-! ### Deeds of rules -/

/-- The rule only adds to documents: it sets a Boolean, or stores a text or a list, or adds the
items of its groups to an array. -/
inductive Rule.Additive (rule : Rule) : Prop where
  | boolean (hkind : rule.kind = .boolean) (haction : rule.head.boolAction ≠ some .remove)
  | expression (hkind : rule.kind = .expression) (hremoves : rule.head.RemovesNothing)
      (hpolicy : rule.head.policy = none ∨ rule.head.policy = some .extendExisting ∨
        rule.head.policy = some .exchangeExisting)
  | repeatable (hkind : rule.kind = .repeatable)
      (hpolicy : rule.head.policy = some .extendExisting)

namespace Mapping

open Document (Deed)

variable {setting : Setting} {record : Marc.Record} {rule : Rule} {target : Path}

/-- The rule does the deed at the target, in every document. -/
def Performs (setting : Setting) (record : Marc.Record) (rule : Rule) (target : Path)
    (deed : Deed) : Prop :=
  ∀ document, (applyRule setting record document rule).toOption = deed.perform target document

theorem Stores.performs_scalar {value : Value} {scalar : Json}
    (h : Stores setting record rule value target (.scalar scalar)) :
    Performs setting record rule target (if target.isArray then .refuse else .put scalar) := by
  intro document
  rw [h.apply, Document.toOption_store_scalar]

theorem Stores.performs_extend {value : Value} {kind : String} {elements : List Json}
    (h : Stores setting record rule value target (.elements kind elements))
    (harray : value.isArray = true) (hpolicy : rule.head.policyOrDefault = .extendExisting) :
    Performs setting record rule target
      (if target.isArray then .extend elements else .refuse) := by
  intro document
  rw [h.apply, if_pos harray, Document.toOption_store_extend _ _ _ _ _ _ hpolicy]

theorem Stores.performs_exchange {value : Value} {kind : String} {elements : List Json}
    (h : Stores setting record rule value target (.elements kind elements))
    (harray : value.isArray = true) (hpolicy : rule.head.policy = some .exchangeExisting)
    (hsome : elements ≠ []) :
    Performs setting record rule target
      (if target.isArray then .exchange elements else .refuse) := by
  intro document
  rw [h.apply, if_pos harray, hpolicy, Document.toOption_store_exchange _ _ _ _ _ hsome]

theorem exists_deed_of_stores (good : Deed → Prop) (hrefuse : good .refuse) (hkeep : good .keep)
    (hpath : Path.parse rule.head.path = .ok target)
    (h : ∀ value amount, Stores setting record rule value target amount →
      ∃ deed, good deed ∧ Performs setting record rule target deed) :
    ∃ deed, good deed ∧ Performs setting record rule target deed := by
  rcases applyRule_cases setting record rule with
    ⟨e, hfails⟩ | hkeeps | ⟨value, other, amount, hstores⟩
  · refine ⟨.refuse, hrefuse, fun document => ?_⟩
    rw [hfails]
    rfl
  · refine ⟨.keep, hkeep, fun document => ?_⟩
    rw [hkeeps]
    rfl
  · have hsame : other = target := Except.ok.inj (hstores.path.symm.trans hpath)
    rw [hsame] at hstores
    exact h value amount hstores

theorem exists_deed_of_boolean (hkind : rule.kind = .boolean)
    (haction : rule.head.boolAction ≠ some .remove)
    (hpath : Path.parse rule.head.path = .ok target) :
    ∃ deed : Deed, (deed.Plain ∧ deed.Fixed target) ∧
      Performs setting record rule target deed := by
  refine exists_deed_of_stores (fun deed => deed.Plain ∧ deed.Fixed target)
    ⟨Deed.plain_refuse, trivial⟩ ⟨Deed.plain_keep, trivial⟩ hpath ?_
  intro value amount hstores
  have hvalue : ∃ flag, value = .bool flag := by
    have hread := hstores.read
    have hmissing := hstores.not_missing
    rw [Reading.read, Reading.readRule_of_boolean setting rule false record hkind,
      Except.ok.injEq] at hread
    rw [← hread, Reading.boolValue.eq_def] at hmissing ⊢
    split
    · exact ⟨true, rfl⟩
    · exact ⟨false, rfl⟩
    · rename_i hremove
      exact absurd hremove haction
    · rename_i hstays
      rw [hstays] at hmissing
      cases hmissing
    · rename_i hnone
      rw [hnone] at hmissing
      cases hmissing
  obtain ⟨flag, rfl⟩ := hvalue
  have hcontent := hstores.content
  cases hcontent
  refine ⟨_, ?_, hstores.performs_scalar⟩
  split
  · exact ⟨Deed.plain_refuse, trivial⟩
  · rename_i harray
    exact ⟨Deed.plain_put _ rfl, Bool.eq_false_iff.2 harray⟩

theorem exists_deed_of_expression (hkind : rule.kind = .expression)
    (hremoves : rule.head.RemovesNothing) (hpath : Path.parse rule.head.path = .ok target)
    (hpolicy : Path.isMarked rule.head.path = true →
      rule.head.policyOrDefault = .extendExisting ∨ rule.head.policy = some .exchangeExisting) :
    ∃ deed : Deed,
      (deed.Plain ∧ ((Path.isMarked rule.head.path = true →
        rule.head.policy = some .exchangeExisting) → deed.Fixed target)) ∧
      Performs setting record rule target deed := by
  refine exists_deed_of_stores (fun deed => deed.Plain ∧ (_ → deed.Fixed target))
    ⟨Deed.plain_refuse, fun _ => trivial⟩ ⟨Deed.plain_keep, fun _ => trivial⟩ hpath ?_
  intro value amount hstores
  have hread := hstores.read
  rw [Reading.read, Reading.readRule_of_expression setting record rule false hkind] at hread
  have hcontent := hstores.content
  rcases Reading.readExpression_cases setting rule.head record value hremoves hread with
    rfl | ⟨text, rfl⟩ | ⟨texts, policy, rfl, hsome, hmarked⟩
  · cases hstores.not_missing
  · cases hcontent
    refine ⟨_, ?_, hstores.performs_scalar⟩
    split
    · exact ⟨Deed.plain_refuse, fun _ => trivial⟩
    · rename_i harray
      exact ⟨Deed.plain_put _ rfl, fun _ => Bool.eq_false_iff.2 harray⟩
  · cases hcontent
    by_cases hexchange : rule.head.policy = some .exchangeExisting
    · have hnew : texts.map Json.str ≠ [] := fun h => hsome (List.map_eq_nil_iff.1 h)
      refine ⟨_, ?_, hstores.performs_exchange rfl hexchange hnew⟩
      split
      · rename_i harray
        exact ⟨Deed.plain_exchange _, fun _ => harray⟩
      · exact ⟨Deed.plain_refuse, fun _ => trivial⟩
    · have hextend := (hpolicy hmarked).resolve_right hexchange
      refine ⟨_, ⟨?_, fun h => absurd (h hmarked) hexchange⟩, hstores.performs_extend rfl hextend⟩
      split
      · exact Deed.plain_extend _
      · exact Deed.plain_refuse

theorem exists_deed_of_repeatable (hkind : rule.kind = .repeatable)
    (hpolicy : rule.head.policy = some .extendExisting)
    (hpath : Path.parse rule.head.path = .ok target) :
    ∃ deed : Deed, deed.Plain ∧ Performs setting record rule target deed := by
  have hdefault := rule.head.policyOrDefault_of_policy .extendExisting hpolicy
  refine exists_deed_of_stores Deed.Plain Deed.plain_refuse Deed.plain_keep hpath ?_
  intro value amount hstores
  have harray : value.isArray = true := by
    obtain ⟨items, -, hvalue⟩ := (map_eq_ok_iff _ _ _).1
      ((Reading.readRule_eq_inOrder setting rule false record hkind).symm.trans hstores.read)
    have hmissing := hstores.not_missing
    rw [← hvalue, Reading.itemsValue] at hmissing ⊢
    split
    · rename_i hempty
      rw [if_pos hempty] at hmissing
      cases hmissing
    · rfl
  obtain ⟨kind, elements, rfl, -⟩ := Document.content_of_isArray value amount harray hstores.content
  refine ⟨_, ?_, hstores.performs_extend harray hdefault⟩
  split
  · exact Deed.plain_extend _
  · exact Deed.plain_refuse

theorem exists_deed_of_additive (h : rule.Additive)
    (hpath : Path.parse rule.head.path = .ok target) :
    ∃ deed : Deed, deed.Plain ∧ Performs setting record rule target deed := by
  cases h with
  | boolean hkind haction =>
    obtain ⟨deed, ⟨hplain, -⟩, hperforms⟩ := exists_deed_of_boolean hkind haction hpath
    exact ⟨deed, hplain, hperforms⟩
  | expression hkind hremoves hpolicy =>
    have hmerges : rule.head.policyOrDefault = .extendExisting ∨
        rule.head.policy = some .exchangeExisting := by
      rcases hpolicy with hnone | hextend | hexchange
      · exact Or.inl (by rw [RuleHead.policyOrDefault, hnone]; rfl)
      · exact Or.inl (rule.head.policyOrDefault_of_policy .extendExisting hextend)
      · exact Or.inr hexchange
    obtain ⟨deed, ⟨hplain, -⟩, hperforms⟩ :=
      exists_deed_of_expression hkind hremoves hpath fun _ => hmerges
    exact ⟨deed, hplain, hperforms⟩
  | repeatable hkind hpolicy => exact exists_deed_of_repeatable hkind hpolicy hpath

end Mapping

end Crosswalk
