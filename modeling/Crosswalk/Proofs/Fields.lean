import Crosswalk.Reading.Rule
import Crosswalk.Proofs.Success

/-!
# Clauses, fields and groups as traversals

The values of a clause are those of its tokens, unless it asks for a removal, and
an expression comes down to one clause with something in it: what a token, a clause
or an expression can amount to is said here once, by cases. The fields of a group
are read by going through the ones that are enabled, and the items of a group are
made scope by scope. What is made so, before anything is filled up from the first
item, has a name of its own here: `unfilledItems`.
-/

namespace Crosswalk.Reading

/-- What a value of a token is: of what is found in a record nothing blank is left. -/
inductive ValueOf (setting : Setting) (head : RuleHead) : Expression.Token → String → Prop where
  | today (date : String) (h : setting.localToday = .ok date) : ValueOf setting head .today date
  | literal (text : String) : ValueOf setting head (.literal text) (settled setting head text)
  | field (tag : String) (codes : List Char) (raw : String)
      (h : Text.isBlankText (settled setting head raw) = false) :
      ValueOf setting head (.field tag codes) (settled setting head raw)
  | range (tag : String) (start stop : Nat) (raw : String)
      (h : Text.isBlankText (settled setting head raw) = false) :
      ValueOf setting head (.range tag start stop) (settled setting head raw)

section

variable (setting : Setting) (head : RuleHead) (record : Marc.Record)

theorem valueOf_of_tokenValues (token : Expression.Token) (values : List String)
    (h : tokenValues setting head record token = .ok values) :
    ∀ text ∈ values, ValueOf setting head token text := by
  have hfound (raw : List String) (text : String)
      (htext : text ∈ nonBlank (raw.map (settled setting head))) :
      ∃ found, Text.isBlankText (settled setting head found) = false ∧
        settled setting head found = text := by
    obtain ⟨hmem, hblank⟩ := List.mem_filter.1 htext
    obtain ⟨found, -, rfl⟩ := List.mem_map.1 hmem
    exact ⟨found, by simpa using hblank, rfl⟩
  intro text htext
  cases token with
  | remove =>
    cases h
    cases htext
  | today =>
    obtain ⟨date, hdate, rfl⟩ := (map_eq_ok_iff _ _ _).1 h
    rw [List.mem_singleton.1 htext]
    exact .today date hdate
  | literal literal =>
    cases h
    rw [List.mem_singleton.1 htext]
    exact .literal literal
  | field tag codes =>
    cases h
    obtain ⟨found, hblank, rfl⟩ := hfound _ text htext
    exact .field tag codes found hblank
  | range tag start stop =>
    obtain ⟨texts, -, hvalues⟩ := (bind_eq_ok_iff _ _ _).1 h
    cases hvalues
    obtain ⟨found, hblank, rfl⟩ := hfound _ text htext
    exact .range tag start stop found hblank

theorem clauseValues_eq_mapM (clause : Expression.Clause) (h : Expression.Token.remove ∉ clause) :
    clauseValues setting head record clause
      = (clause.mapM (tokenValues setting head record)).map some := by
  induction clause with
  | nil => rfl
  | cons token rest ih =>
    have htoken : token ≠ .remove := fun he => h (he ▸ List.mem_cons_self)
    have hrest := ih fun hmem => h (List.mem_cons_of_mem token hmem)
    rw [clauseValues.eq_3 _ _ _ _ _ htoken, hrest, List.mapM_cons]
    cases tokenValues setting head record token with
    | error e => rfl
    | ok values => cases rest.mapM (tokenValues setting head record) <;> rfl

theorem clauseValues_ne_none (clause : Expression.Clause)
    (hclause : Expression.Token.remove ∉ clause) :
    clauseValues setting head record clause ≠ .ok none := by
  intro h
  rw [clauseValues_eq_mapM setting head record clause hclause, map_eq_ok_iff] at h
  obtain ⟨values, -, hnone⟩ := h
  cases hnone

theorem remove_not_mem_of_clauseValues (clause : Expression.Clause) (values : List (List String))
    (h : clauseValues setting head record clause = .ok (some values)) :
    Expression.Token.remove ∉ clause := by
  induction clause generalizing values with
  | nil => exact List.not_mem_nil
  | cons token rest ih =>
    by_cases htoken : token = .remove
    · rw [htoken] at h
      cases h
    · rw [clauseValues.eq_3 _ _ _ _ _ htoken] at h
      obtain ⟨first, -, hnext⟩ := (bind_eq_ok_iff _ _ _).1 h
      obtain ⟨found, hfound, hvalues⟩ := (bind_eq_ok_iff _ _ _).1 hnext
      obtain ⟨others, rfl, -⟩ := Option.map_eq_some_iff.1 (Except.ok.inj hvalues)
      rw [List.mem_cons, not_or]
      exact ⟨fun he => htoken he.symm, ih others hfound⟩

theorem forall₂_clauseValues (clause : Expression.Clause) (values : List (List String))
    (h : clauseValues setting head record clause = .ok (some values)) :
    List.Forall₂ (fun token texts => tokenValues setting head record token = .ok texts)
      clause values := by
  have hremove := remove_not_mem_of_clauseValues setting head record clause values h
  rw [clauseValues_eq_mapM setting head record clause hremove] at h
  obtain ⟨found, hfound, hsome⟩ := (map_eq_ok_iff _ _ _).1 h
  rw [← Option.some.inj hsome]
  exact (mapM_eq_ok_iff _ _ _).1 hfound

/-- Of a rule's head an evaluation looks at what makes the values of texts only. -/
theorem tokenValues_of_settled (other : RuleHead)
    (hsettled : settled setting other = settled setting head) (token : Expression.Token) :
    tokenValues setting other record token = tokenValues setting head record token := by
  cases token <;> simp only [tokenValues, hsettled]

theorem clauseValues_of_settled (other : RuleHead)
    (hsettled : settled setting other = settled setting head) (clause : Expression.Clause) :
    clauseValues setting other record clause = clauseValues setting head record clause := by
  induction clause with
  | nil => rfl
  | cons token rest ih =>
    have htoken := tokenValues_of_settled setting head record other hsettled token
    cases token <;> simp only [clauseValues, htoken, ih]

theorem clausesYield_of_settled (other : RuleHead)
    (hsettled : settled setting other = settled setting head) (fan : Bool)
    (clauses : List Expression.Clause) :
    clausesYield setting fan other record clauses
      = clausesYield setting fan head record clauses := by
  induction clauses with
  | nil => rfl
  | cons clause rest ih =>
    have hvalues := clauseValues_of_settled setting head record other hsettled clause
    simp only [clausesYield, clauseYield, hvalues, ih]

/-! ### What clauses and expressions yield -/

theorem clauseYield_cases (fan : Bool) (clause : Expression.Clause) (yielded : Yield)
    (h : clauseYield setting fan head record clause = .ok yielded) :
    (clauseValues setting head record clause = .ok none ∧ yielded = .removal) ∨
      ∃ values, clauseValues setting head record clause = .ok (some values) ∧
        yielded = if fan then .items (fanOut values) else .scalar (joinFirst values) := by
  obtain ⟨values, hvalues, hyield⟩ := (bind_eq_ok_iff _ _ _).1 h
  cases values with
  | none => exact Or.inl ⟨hvalues, (Except.ok.inj hyield).symm⟩
  | some values => exact Or.inr ⟨values, hvalues, (Except.ok.inj hyield).symm⟩

theorem clausesYield_cases (fan : Bool) (clauses : List Expression.Clause) (yielded : Yield)
    (h : clausesYield setting fan head record clauses = .ok yielded) :
    (yielded = if fan then .items [] else .scalar "") ∨
      ∃ clause ∈ clauses, clauseYield setting fan head record clause = .ok yielded := by
  induction clauses with
  | nil => exact Or.inl (Except.ok.inj h).symm
  | cons clause rest ih =>
    obtain ⟨first, hfirst, hnext⟩ := (bind_eq_ok_iff _ _ _).1 h
    split at hnext
    · rcases ih hnext with hempty | ⟨other, hother, hyield⟩
      · exact Or.inl hempty
      · exact Or.inr ⟨other, List.mem_cons_of_mem clause hother, hyield⟩
    · cases hnext
      exact Or.inr ⟨clause, List.mem_cons_self, hfirst⟩

theorem exists_yield_of_readExpression (fan : Bool) (value : Value)
    (h : readExpression setting fan head record = .ok value) :
    value = .missing ∨ ∃ text expression yielded, head.expression = some text ∧
      Expression.parse text = .ok expression ∧
      clausesYield setting (fan || Path.isMarked head.path) head record expression.clauses
        = .ok yielded ∧
      value = yieldValue head.policyOrDefault yielded := by
  rw [readExpression] at h
  split at h
  · exact Or.inl (Except.ok.inj h).symm
  · rename_i text htext
    split at h
    · rename_i yielded hyield
      obtain ⟨expression, hparse, hclauses⟩ := (bind_eq_ok_iff _ _ _).1 hyield
      exact Or.inr ⟨text, expression, yielded, htext, hparse, hclauses, (Except.ok.inj h).symm⟩
    · split at h
      · cases h
      · exact Or.inl (Except.ok.inj h).symm

end

def enabled (rules : List Rule) : List Rule := rules.filter fun rule => rule.head.enabled

theorem enabled_cons_of_enabled (rule : Rule) (rest : List Rule) (h : rule.head.enabled = true) :
    enabled (rule :: rest) = rule :: enabled rest := List.filter_cons_of_pos h

theorem enabled_cons_of_disabled (rule : Rule) (rest : List Rule)
    (h : rule.head.enabled = false) : enabled (rule :: rest) = enabled rest :=
  List.filter_cons_of_neg (by simp only [h, Bool.false_eq_true, not_false_eq_true])

theorem sizeOf_lt_of_mem_enabled (rule field : Rule) (group : Group) (hgroup : group ∈ rule.groups)
    (hfield : field ∈ enabled group.fields) : sizeOf field < sizeOf rule := by
  obtain ⟨head, groups⟩ := rule
  obtain ⟨order, path, fields⟩ := group
  have hfields : sizeOf field < sizeOf fields :=
    List.sizeOf_lt_of_mem (List.mem_of_mem_filter hfield)
  have hgroups : sizeOf (Group.mk order path fields) < sizeOf groups :=
    List.sizeOf_lt_of_mem hgroup
  rw [Group.mk.sizeOf_spec] at hgroups
  rw [Rule.mk.sizeOf_spec]
  omega

def fieldValue (setting : Setting) (groupPath rulePath : String) (record : Marc.Record)
    (field : Rule) : Except Error FieldValue :=
  (readRule setting field true record).map fun value =>
    ⟨relativeKey groupPath rulePath field.head.path, value, field.head.required⟩

theorem readFields_cons_of_enabled (setting : Setting) (groupPath rulePath : String)
    (record : Marc.Record) (field : Rule) (rest : List Rule) (h : field.head.enabled = true) :
    readFields setting groupPath rulePath (field :: rest) record
      = (do
          let first ← fieldValue setting groupPath rulePath record field
          let others ← readFields setting groupPath rulePath rest record
          .ok (first :: others)) := by
  obtain ⟨head, groups⟩ := field
  rw [readFields, if_pos h, fieldValue]
  cases readRule setting ⟨head, groups⟩ true record <;> rfl

theorem readFields_cons_of_disabled (setting : Setting) (groupPath rulePath : String)
    (record : Marc.Record) (field : Rule) (rest : List Rule) (h : field.head.enabled = false) :
    readFields setting groupPath rulePath (field :: rest) record
      = readFields setting groupPath rulePath rest record := by
  obtain ⟨head, groups⟩ := field
  rw [readFields, h, if_neg Bool.false_ne_true]

theorem readFields_eq_mapM (setting : Setting) (groupPath rulePath : String)
    (record : Marc.Record) (fields : List Rule) :
    readFields setting groupPath rulePath fields record
      = (enabled fields).mapM (fieldValue setting groupPath rulePath record) := by
  induction fields with
  | nil => rfl
  | cons field rest ih =>
    cases h : field.head.enabled with
    | true =>
      rw [readFields_cons_of_enabled _ _ _ _ _ _ h, ih, enabled_cons_of_enabled _ _ h,
        List.mapM_cons]
      rfl
    | false =>
      rw [readFields_cons_of_disabled _ _ _ _ _ _ h, ih, enabled_cons_of_disabled _ _ h]

/-- The items that a group makes, before they are filled up from the first one. -/
def unfilledItems (setting : Setting) (groupPath rulePath : String) (fields : List Rule)
    (record : Marc.Record) : Except Error (List Item) :=
  ((scopes record (groupTags groupPath rulePath fields)).mapM fun scope =>
    (readFields setting groupPath rulePath fields scope).map explode).map List.flatten

theorem readGroups_cons (setting : Setting) (rulePath : String) (group : Group)
    (rest : List Group) (record : Marc.Record) :
    readGroups setting rulePath (group :: rest) record
      = (group.order,
          (unfilledItems setting group.path rulePath group.fields record).map sparseFill)
        :: readGroups setting rulePath rest record := by
  obtain ⟨order, path, fields⟩ := group
  rw [readGroups, unfilledItems]
  cases (scopes record (groupTags path rulePath fields)).mapM fun scope =>
    (readFields setting path rulePath fields scope).map explode <;> rfl

theorem readGroups_eq_map (setting : Setting) (rulePath : String) (groups : List Group)
    (record : Marc.Record) :
    readGroups setting rulePath groups record
      = groups.map fun group =>
          (group.order,
            (unfilledItems setting group.path rulePath group.fields record).map sparseFill) := by
  induction groups with
  | nil => rw [readGroups, List.map_nil]
  | cons group rest ih => rw [readGroups_cons, ih, List.map_cons]

theorem readRule_eq_inOrder (setting : Setting) (rule : Rule) (fan : Bool) (record : Marc.Record)
    (h : rule.kind = .repeatable) :
    readRule setting rule fan record
      = (inOrder (readGroups setting rule.head.path rule.groups record)).map
          (itemsValue rule.head) := by
  obtain ⟨head, groups⟩ := rule
  rw [readRule, h]

theorem readRule_of_expression (setting : Setting) (record : Marc.Record) (rule : Rule) (fan : Bool)
    (h : rule.kind = .expression) :
    readRule setting rule fan record = readExpression setting fan rule.head record := by
  obtain ⟨head, groups⟩ := rule
  rw [readRule, h]

theorem readRule_of_not_repeatable (setting : Setting) (rule : Rule) (fan : Bool)
    (record : Marc.Record) (h : rule.kind ≠ .repeatable) :
    readRule setting rule fan record = readExpression setting fan rule.head record ∨
      readRule setting rule fan record = .ok (boolValue rule.head.boolAction) ∨
      readRule setting rule fan record = .ok .missing := by
  obtain ⟨head, groups⟩ := rule
  rw [readRule]
  cases hkind : Rule.kind ⟨head, groups⟩ with
  | repeatable => exact absurd hkind h
  | expression => exact Or.inl rfl
  | boolean => exact Or.inr (Or.inl rfl)
  | empty => exact Or.inr (Or.inr rfl)

theorem readRule_of_one_group (setting : Setting) (head : RuleHead) (group : Group) (fan : Bool)
    (record : Marc.Record) (h : Rule.kind ⟨head, [group]⟩ = .repeatable) :
    readRule setting ⟨head, [group]⟩ fan record
      = (unfilledItems setting group.path head.path group.fields record).map fun items =>
          itemsValue head (sparseFill items) := by
  rw [readRule, h, readGroups_eq_map, List.map_singleton]
  simp only [inOrder, List.mergeSort_singleton, List.mapM_cons, List.mapM_nil]
  cases unfilledItems setting group.path head.path group.fields record with
  | error e => rfl
  | ok items =>
    simp only [Except.map, bind, Except.bind, pure, Except.pure, List.flatten_cons,
      List.flatten_nil, List.append_nil]

end Crosswalk.Reading
