import Crosswalk.Proofs.CleanValues
import Crosswalk.Proofs.SourcedItems

/-!
# The normal form of what is read

Whatever a rule reads is nothing, a marker that removes, a text that is not blank,
a truth value, a list of such texts, or the items of its groups. A list is not
empty and carries the policy of its rule, or the default one. Items carry the
rule's path and its policy; only a rule that deletes may come with none of them,
no item is empty, and each of their entries is again something that a field of a
group reads, never nothing, with lists under keys of arrays only.
-/

namespace Crosswalk

mutual

/-- The value has the form of those that the rule reads. -/
inductive Value.NormalFor : Rule → Value → Prop where
  | missing (rule : Rule) : NormalFor rule .missing
  | removal (rule : Rule) : NormalFor rule (.removal "")
  | string (rule : Rule) (text : String) (h : Text.isBlankText text = false) :
      NormalFor rule (.string text)
  | bool (rule : Rule) (flag : Bool) : NormalFor rule (.bool flag)
  | list (rule : Rule) (texts : List String) (hne : texts ≠ []) (h : NoBlankTexts texts) :
      NormalFor rule (.list texts rule.head.policyOrDefault)
  | repeatable (rule : Rule) (items : List Item) (policy : Policy)
      (hpolicy : rule.head.policy = some policy) (hnone : items = [] → policy = .deleteExisting)
      (hitems : ∀ item ∈ items, item ≠ [] ∧ Entries.Distinct item)
      (h : ∀ item ∈ items, ∀ entry ∈ item, NormalEntryFor rule entry) :
      NormalFor rule (.repeatable items policy rule.head.path)

/-- The entry has the form of those that the fields in the groups of the rule make. -/
inductive Value.NormalEntryFor : Rule → String × Value → Prop where
  | ofField (rule : Rule) (group : Group) (field : Rule) (value : Value)
      (hgroup : group ∈ rule.groups) (hfield : field ∈ Reading.enabled group.fields)
      (hpresent : value ≠ .missing)
      (hlist : ∀ texts policy, value = .list texts policy →
        Path.isMarked (Reading.relativeKey group.path rule.head.path field.head.path) = true)
      (h : NormalFor field value) :
      NormalEntryFor rule (Reading.relativeKey group.path rule.head.path field.head.path, value)

end

namespace Value

mutual

theorem NormalFor.noBlanks {rule : Rule} {value : Value} : value.NormalFor rule → value.NoBlanks
  | .missing _ => .missing
  | .removal _ => .removal ""
  | .string _ text h => .string text h
  | .bool _ flag => .bool flag
  | .list _ texts _ h => .list texts _ h
  | .repeatable _ items policy _ _ _ h =>
    .repeatable items policy _ fun item hitem entry hentry => (h item hitem entry hentry).noBlanks

theorem NormalEntryFor.noBlanks {rule : Rule} {entry : String × Value} :
    NormalEntryFor rule entry → entry.2.NoBlanks
  | .ofField _ _ _ _ _ _ _ _ h => h.noBlanks

end

end Value

namespace Reading

/-! ### Values of expressions and of Boolean actions -/

theorem normalFor_yieldValue (rule : Rule) (yielded : Yield)
    (h : ∀ texts, yielded = .items texts → NoBlankTexts texts) :
    (yieldValue rule.head.policyOrDefault yielded).NormalFor rule := by
  cases yielded with
  | removal => exact .removal rule
  | scalar text =>
    rw [yieldValue]
    split
    · exact .missing rule
    · rename_i hblank
      exact .string rule text (Bool.eq_false_iff.2 hblank)
  | items texts =>
    cases texts with
    | nil => exact .missing rule
    | cons first rest => exact .list rule _ (List.cons_ne_nil first rest) (h _ rfl)

theorem normalFor_of_readExpression (setting : Setting) (rule : Rule) (record : Marc.Record)
    (fan : Bool) (value : Value)
    (h : readExpression setting fan rule.head record = .ok value) : value.NormalFor rule := by
  rcases exists_yield_of_readExpression setting rule.head record fan value h with
    rfl | ⟨text, expression, yielded, -, -, hclauses, rfl⟩
  · exact .missing rule
  · refine normalFor_yieldValue rule yielded fun texts htexts => ?_
    rw [htexts] at hclauses
    exact noBlankTexts_of_clausesYield setting rule.head record _ expression.clauses texts
      hclauses

theorem normalFor_boolValue (rule : Rule) (action : Option BoolAction) :
    (boolValue action).NormalFor rule := by
  rw [boolValue.eq_def]
  split
  · exact .bool rule true
  · exact .bool rule false
  · exact .removal rule
  · exact .missing rule
  · exact .missing rule

/-! ### Entries of items -/

theorem normalFor_of_spread? (field : Rule) (value : FieldValue) (texts : List String)
    (hvalue : value.value.NormalFor field) (h : value.spread? = some texts) (text : String)
    (htext : text ∈ texts) : (Value.string text).NormalFor field := by
  rw [FieldValue.spread?] at h
  split at h
  · rename_i values policy hlist
    rw [hlist] at hvalue
    split at h
    · cases h
    · cases h
      cases hvalue with
      | list _ _ _ htexts => exact .string field text (htexts text htext)
  · cases h

theorem normalFor_of_slot? (field : Rule) (value : FieldValue) (index : Nat) (stored : Value)
    (hvalue : value.value.NormalFor field) (h : value.slot? index = some stored) :
    stored.NormalFor field ∧ stored ≠ .missing := by
  rw [FieldValue.slot?] at h
  split at h
  · rename_i text hspread
    cases h
    exact ⟨normalFor_of_spread? field value _ hvalue hspread text List.mem_cons_self,
      Value.noConfusion⟩
  · rename_i texts _ hspread
    obtain ⟨text, htext, rfl⟩ := Option.map_eq_some_iff.1 h
    exact ⟨normalFor_of_spread? field value _ hvalue hspread text (List.mem_of_getElem? htext),
      Value.noConfusion⟩
  · split at h
    · cases h
    · rename_i hpresent
      cases h
      refine ⟨hvalue, fun hmissing => hpresent ?_⟩
      rw [hmissing]
      rfl

theorem normalEntryFor_of_comesFromField (setting : Setting) (rule : Rule)
    (entry : String × Sourced) (h : ComesFromField setting rule entry)
    (hfields : ∀ group ∈ rule.groups, ∀ field ∈ enabled group.fields, ∀ scope value,
      readRule setting field true scope = .ok value → value.NormalFor field) :
    Value.NormalEntryFor rule (entry.1, entry.2.value) := by
  obtain ⟨key, name, stored⟩ := entry
  obtain ⟨group, hgroup, field, hfield, scope, value, index, hread, hslot, rfl, -⟩ := h
  obtain ⟨read, hreadField, rfl⟩ := (map_eq_ok_iff _ _ _).1 hread
  have hnormal := normalFor_of_slot? field _ index stored
    (hfields group hgroup field hfield scope read hreadField) hslot
  refine .ofField rule group field stored hgroup hfield hnormal.2 ?_ hnormal.1
  rintro texts policy rfl
  have hmarked := isMarked_of_slot?_list _ index texts policy hslot
  exact hmarked

/-! ### Values of rules -/

theorem policy_of_repeatable (rule : Rule) (h : rule.kind = .repeatable) :
    rule.head.policy = some rule.head.policyOrDefault := by
  rw [Rule.kind] at h
  split at h
  · rename_i hgroups
    obtain ⟨policy, hpolicy⟩ := Option.isSome_iff_exists.1 (Bool.and_eq_true_iff.1 hgroups).2
    rw [rule.head.policyOrDefault_of_policy policy hpolicy, hpolicy]
  · split at h
    · rename_i hdelete
      have hpolicy := of_decide_eq_true (Bool.and_eq_true_iff.1 hdelete).1
      rw [rule.head.policyOrDefault_of_policy .deleteExisting hpolicy, hpolicy]
    · split at h
      · cases h
      · split at h <;> cases h

theorem normalFor_itemsValue (rule : Rule) (items : List Item) (hkind : rule.kind = .repeatable)
    (hitems : ∀ item ∈ items, item ≠ [] ∧ Entries.Distinct item)
    (h : ∀ item ∈ items, ∀ entry ∈ item, Value.NormalEntryFor rule entry) :
    (itemsValue rule.head items).NormalFor rule := by
  rw [itemsValue]
  split
  · exact .missing rule
  · rename_i hkept
    refine .repeatable rule items _ (policy_of_repeatable rule hkind) (fun hnone => ?_) hitems h
    rw [hnone, List.isEmpty_nil, Bool.true_and, bne_iff_ne, not_not] at hkept
    exact hkept

theorem normalFor_of_readRule (setting : Setting) (rule : Rule) (fan : Bool) (record : Marc.Record)
    (value : Value) (h : readRule setting rule fan record = .ok value) : value.NormalFor rule := by
  by_cases hkind : rule.kind = .repeatable
  · rw [readRule_of_repeatable setting rule fan record hkind] at h
    obtain ⟨items, hitems, rfl⟩ := (map_eq_ok_iff _ _ _).1 h
    refine normalFor_itemsValue rule _ hkind (List.forall_mem_map.2 ?_) (List.forall_mem_map.2 ?_)
    · intro item hitem
      obtain ⟨hne, hdistinct⟩ :=
        distinct_of_sourcedItems setting rule record items hitems item hitem
      rw [Entries.Distinct, ← Entries.keys_mapValues Sourced.value] at hdistinct
      exact ⟨mt List.map_eq_nil_iff.1 hne, hdistinct⟩
    · intro item hitem
      refine List.forall_mem_map.2 fun entry hentry => ?_
      refine normalEntryFor_of_comesFromField setting rule entry
        (comesFromField_of_sourcedItems setting rule record items hitems item hitem entry hentry) ?_
      intro group hgroup field hfield scope read hread
      -- the fields of its groups are smaller than the rule, and they are read by the same theorem
      have hlt := sizeOf_lt_of_mem_enabled rule field group hgroup hfield
      exact normalFor_of_readRule setting field true scope read hread
  · rcases readRule_of_not_repeatable setting rule fan record hkind with hread | hread | hread
    · rw [hread] at h
      exact normalFor_of_readExpression setting rule record fan value h
    · rw [hread, Except.ok.injEq] at h
      rw [← h]
      exact normalFor_boolValue rule rule.head.boolAction
    · rw [hread, Except.ok.injEq] at h
      rw [← h]
      exact .missing rule
termination_by sizeOf rule

/-- A rule reads a value in its normal form, with all occurrences and without. -/
theorem read_values_are_normal (setting : Setting) (rule : Rule) (record : Marc.Record)
    (value : Value)
    (h : read setting rule record = .ok value ∨ readAll setting rule record = .ok value) :
    value.NormalFor rule := by
  rcases h with hread | hreadAll
  · exact normalFor_of_readRule setting rule false record value hread
  · exact normalFor_of_readRule setting rule true record value hreadAll

theorem contributor_is_normal :
    let setting : Setting := ⟨default, {}, fun _ => "2000-01-01"⟩
    let path := "instance.contributors[]"
    let roles := Rule.ofGroups "instance.contributors[].roles[]" .extendExisting
      [⟨0, "instance.contributors[].roles[]",
        [Rule.ofExpression "instance.contributors[].roles[].term" "700$e",
          Rule.ofExpression "instance.contributors[].roles[].code" "700$4"]⟩]
    let rule := Rule.ofGroups path .exchangeExisting
      [⟨0, path, [Rule.ofExpression "instance.contributors[].name" "100$a",
        Rule.ofExpression "instance.contributors[].aliases[]" "400$a",
        Rule.ofBoolAction "instance.contributors[].primary" .allTrue, roles]⟩]
    let record : Marc.Record := ⟨"", [], [⟨"100", ' ', ' ', [⟨'a', "N"⟩]⟩,
      ⟨"400", ' ', ' ', [⟨'a', "A"⟩]⟩, ⟨"400", ' ', ' ', [⟨'a', " "⟩]⟩,
      ⟨"700", ' ', ' ', [⟨'4', "aut"⟩]⟩, ⟨"700", ' ', ' ', [⟨'4', "edt"⟩, ⟨'e', "editor"⟩]⟩]⟩
    let value : Value := .repeatable
      [[("name", .string "N"), ("aliases[]", .list ["A"] .extendExisting), ("primary", .bool true),
        ("roles[]", .repeatable
          [[("code", .string "aut")], [("term", .string "editor"), ("code", .string "edt")]]
          .extendExisting "instance.contributors[].roles[]")]]
      .exchangeExisting path
    (read setting rule record = .ok value ∨ readAll setting rule record = .ok value) ∧
      value.NormalFor rule := by
  intro setting path roles rule record value
  have hread : read setting rule record = .ok value := by
    unfold value record rule roles path setting
    with_unfolding_all rfl
  exact ⟨Or.inl hread, read_values_are_normal setting rule record value (Or.inl hread)⟩

end Reading

end Crosswalk
