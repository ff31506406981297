import Crosswalk.Proofs.Entries
import Crosswalk.Proofs.Fields

/-!
# Items with the names of their fields

An item stores values under keys and forgets which field of the group put them
there. Here the items of a repeatable rule are made once more, every value
together with the logical name of its field: the same spreading over items, the
same filling up from the first one, the same order of the groups. Forgetting the
names gives back what the rule reads, and each value with its name can be traced
to an enabled field of one of the groups.
-/

namespace Crosswalk.Reading

/-- A value together with the logical name of the field that it was read for. -/
structure Sourced where
  name : String
  value : Value

abbrev SourcedItem := List (String × Sourced)

def plain (item : SourcedItem) : Item := Entries.mapValues Sourced.value item

/-! ### One reading of a group

`sourcedAt`, `explodeSourced`, `filledSourced`, `sparseFillSourced` and the definitions for whole
groups each do what their counterpart for plain items does, and a lemma beside them says so. -/

structure NamedField where
  name : String
  field : FieldValue

def NamedField.entryAt? (index : Nat) (named : NamedField) : Option (String × Sourced) :=
  (named.field.slot? index).map fun value => (named.field.key, ⟨named.name, value⟩)

def sourcedAt (fields : List NamedField) (index : Nat) : SourcedItem :=
  Entries.ofPairs (fields.filterMap (NamedField.entryAt? index))

def explodeSourced (fields : List NamedField) : List SourcedItem :=
  (List.range (width (fields.map NamedField.field))).filterMap fun index =>
    if isComplete (fields.map NamedField.field) index && !(sourcedAt fields index).isEmpty then
      some (sourcedAt fields index)
    else none

theorem plain_sourcedAt (fields : List NamedField) (index : Nat) :
    plain (sourcedAt fields index) = itemAt (fields.map NamedField.field) index := by
  rw [plain, sourcedAt, Entries.mapValues_ofPairs, itemAt, Entries.mapValues, List.map_filterMap,
    List.filterMap_map]
  congr 2
  funext named
  rw [NamedField.entryAt?, Option.map_map]
  rfl

theorem isEmpty_plain (item : SourcedItem) : (plain item).isEmpty = item.isEmpty :=
  List.isEmpty_map

theorem map_plain_explodeSourced (fields : List NamedField) :
    (explodeSourced fields).map plain = explode (fields.map NamedField.field) := by
  rw [explodeSourced, explode, List.map_filterMap]
  congr 1
  funext index
  rw [← plain_sourcedAt, isEmpty_plain]
  split <;> rfl

/-! ### Filling up -/

def filledSourced (first item : SourcedItem) : SourcedItem :=
  item ++ first.filter fun entry => !Entries.contains entry.1 item

def sparseFillSourced : List SourcedItem → List SourcedItem
  | [] => []
  | first :: rest => first :: rest.map (filledSourced first)

theorem plain_filledSourced (first item : SourcedItem) :
    plain (filledSourced first item) = filled (plain first) (plain item) := by
  have hcontains (key : String) :
      Entries.contains key (plain item) = Entries.contains key item :=
    Entries.contains_mapValues Sourced.value key item
  simp only [filledSourced, filled, hcontains]
  simp only [plain, Entries.mapValues, List.map_append, List.filter_map, Function.comp_def]

theorem map_plain_sparseFillSourced (items : List SourcedItem) :
    (sparseFillSourced items).map plain = sparseFill (items.map plain) := by
  cases items with
  | nil => rfl
  | cons first rest =>
    rw [sparseFillSourced, List.map_cons, List.map_cons, sparseFill, List.map_map, List.map_map]
    congr 2
    funext item
    exact plain_filledSourced first item

theorem forall_sparseFillSourced {P : SourcedItem → Prop} (items : List SourcedItem)
    (hfilled : ∀ first item, P first → P item → P (filledSourced first item))
    (h : ∀ item ∈ items, P item) : ∀ item ∈ sparseFillSourced items, P item := by
  cases items with
  | nil => exact h
  | cons first rest =>
    intro item hitem
    rcases List.mem_cons.1 hitem with rfl | hrest
    · exact h item List.mem_cons_self
    · obtain ⟨own, hown, rfl⟩ := List.mem_map.1 hrest
      exact hfilled first own (h first List.mem_cons_self) (h own (List.mem_cons_of_mem first hown))

/-! ### All groups of a rule -/

section

variable (setting : Setting)

def namedField (groupPath rulePath : String) (record : Marc.Record) (field : Rule) :
    Except Error NamedField :=
  (fieldValue setting groupPath rulePath record field).map (NamedField.mk field.head.fieldName)

def sourcedReading (rulePath : String) (group : Group) (scope : Marc.Record) :
    Except Error (List SourcedItem) :=
  ((enabled group.fields).mapM (namedField setting group.path rulePath scope)).map explodeSourced

def sourcedGroup (rulePath : String) (record : Marc.Record) (group : Group) :
    Except Error (List SourcedItem) :=
  ((scopes record (groupTags group.path rulePath group.fields)).mapM
    (sourcedReading setting rulePath group)).map (sparseFillSourced ∘ List.flatten)

def sortedGroups (rule : Rule) : List Group :=
  rule.groups.mergeSort fun a b => decide (a.order ≤ b.order)

/-- The items of all groups of a rule, in ascending order of the groups. -/
def sourcedItems (rule : Rule) (record : Marc.Record) : Except Error (List SourcedItem) :=
  ((sortedGroups rule).mapM (sourcedGroup setting rule.head.path record)).map List.flatten

theorem map_field_namedField (groupPath rulePath : String) (record : Marc.Record) (field : Rule) :
    (namedField setting groupPath rulePath record field).map NamedField.field
      = fieldValue setting groupPath rulePath record field := by
  rw [namedField, map_map]
  cases fieldValue setting groupPath rulePath record field <;> rfl

theorem map_plain_sourcedReading (rulePath : String) (group : Group) (scope : Marc.Record) :
    (sourcedReading setting rulePath group scope).map (List.map plain)
      = (readFields setting group.path rulePath group.fields scope).map explode := by
  have hfields : readFields setting group.path rulePath group.fields scope
      = ((enabled group.fields).mapM (namedField setting group.path rulePath scope)).map
          (List.map NamedField.field) := by
    rw [readFields_eq_mapM, ← mapM_map_results]
    simp only [map_field_namedField]
  rw [hfields, sourcedReading, map_map, map_map]
  congr 1
  funext fields
  exact map_plain_explodeSourced fields

theorem map_plain_sourcedGroup (rulePath : String) (record : Marc.Record) (group : Group) :
    (sourcedGroup setting rulePath record group).map (List.map plain)
      = (unfilledItems setting group.path rulePath group.fields record).map sparseFill := by
  rw [sourcedGroup, unfilledItems, map_map, map_map]
  simp only [← map_plain_sourcedReading]
  rw [mapM_map_results, map_map]
  congr 1
  funext readings
  simp only [Function.comp_apply, map_plain_sparseFillSourced, List.map_flatten]

theorem inOrder_readGroups (rule : Rule) (record : Marc.Record) :
    inOrder (readGroups setting rule.head.path rule.groups record)
      = ((sortedGroups rule).mapM fun group =>
          (unfilledItems setting group.path rule.head.path group.fields record).map
            sparseFill).map List.flatten := by
  rw [inOrder, readGroups_eq_map, ← List.map_mergeSort (r := fun a b => decide (a.order ≤ b.order))
    (fun _ _ _ _ => rfl), List.mapM_map, sortedGroups]
  rfl

theorem map_plain_sourcedItems (rule : Rule) (record : Marc.Record) :
    (sourcedItems setting rule record).map (List.map plain)
      = inOrder (readGroups setting rule.head.path rule.groups record) := by
  simp only [inOrder_readGroups, sourcedItems, ← map_plain_sourcedGroup, mapM_map_results, map_map]
  congr 1
  funext groups
  exact List.map_flatten

theorem readRule_of_repeatable (rule : Rule) (fan : Bool) (record : Marc.Record)
    (h : rule.kind = .repeatable) :
    readRule setting rule fan record
      = (sourcedItems setting rule record).map fun items =>
          itemsValue rule.head (items.map plain) := by
  have hitems := map_plain_sourcedItems setting rule record
  obtain ⟨head, groups⟩ := rule
  rw [readRule, h, ← hitems, map_map]
  rfl

/-! ### Where an entry comes from -/

theorem isMarked_of_slot?_list (field : FieldValue) (index : Nat) (texts : List String)
    (policy : Policy) (h : field.slot? index = some (.list texts policy)) :
    Path.isMarked field.key = true := by
  rw [FieldValue.slot?] at h
  split at h
  · cases h
  · obtain ⟨text, -, hlist⟩ := Option.map_eq_some_iff.1 h
    cases hlist
  · rename_i hspread
    split at h
    · cases h
    · refine eq_true_of_ne_false fun hunmarked => ?_
      rw [FieldValue.spread?, Option.some.inj h, hunmarked] at hspread
      cases hspread

/-- The entry is what an enabled field of one of the rule's groups puts into an item, and it has
that field's name. -/
def ComesFromField (rule : Rule) (entry : String × Sourced) : Prop :=
  ∃ group ∈ rule.groups, ∃ field ∈ enabled group.fields, ∃ scope value index,
    fieldValue setting group.path rule.head.path scope field = .ok value ∧
      value.slot? index = some entry.2.value ∧
      entry.1 = relativeKey group.path rule.head.path field.head.path ∧
      entry.2.name = field.head.fieldName

theorem exists_of_mem_explodeSourced (fields : List NamedField) (item : SourcedItem)
    (hitem : item ∈ explodeSourced fields) (entry : String × Sourced) (hentry : entry ∈ item) :
    ∃ named ∈ fields, ∃ index, named.entryAt? index = some entry := by
  obtain ⟨index, -, hmade⟩ := List.mem_filterMap.1 hitem
  split at hmade
  · cases hmade
    obtain ⟨named, hnamed, hslot⟩ := List.mem_filterMap.1 (Entries.mem_ofPairs _ entry hentry)
    exact ⟨named, hnamed, index, hslot⟩
  · cases hmade

theorem comesFromField_of_sourcedReading (rule : Rule) (group : Group)
    (hgroup : group ∈ rule.groups) (scope : Marc.Record) (items : List SourcedItem)
    (h : sourcedReading setting rule.head.path group scope = .ok items) (item : SourcedItem)
    (hitem : item ∈ items) (entry : String × Sourced) (hentry : entry ∈ item) :
    ComesFromField setting rule entry := by
  obtain ⟨fields, hfields, rfl⟩ := (map_eq_ok_iff _ _ _).1 h
  obtain ⟨named, hnamed, index, hslot⟩ :=
    exists_of_mem_explodeSourced fields item hitem entry hentry
  obtain ⟨field, hfield, hread⟩ :=
    exists_of_mem_forall₂ ((mapM_eq_ok_iff _ _ _).1 hfields) named hnamed
  obtain ⟨value, hvalue, rfl⟩ := (map_eq_ok_iff _ _ _).1 hread
  obtain ⟨stored, hstored, rfl⟩ := Option.map_eq_some_iff.1 hslot
  have hkey : value.key = relativeKey group.path rule.head.path field.head.path := by
    obtain ⟨_, -, rfl⟩ := (map_eq_ok_iff _ _ _).1 hvalue
    rfl
  exact ⟨group, hgroup, field, hfield, scope, value, index, hvalue, hstored, hkey, rfl⟩

theorem forall_sourcedItems {P : SourcedItem → Prop} (rule : Rule) (record : Marc.Record)
    (items : List SourcedItem) (h : sourcedItems setting rule record = .ok items)
    (hreading : ∀ group ∈ rule.groups, ∀ scope reading,
      sourcedReading setting rule.head.path group scope = .ok reading → ∀ item ∈ reading, P item)
    (hfilled : ∀ first item, P first → P item → P (filledSourced first item)) :
    ∀ item ∈ items, P item := by
  obtain ⟨groups, hgroups, rfl⟩ := (map_eq_ok_iff _ _ _).1 h
  intro item hitem
  obtain ⟨ofGroup, hofGroup, hmem⟩ := List.mem_flatten.1 hitem
  obtain ⟨group, hgroup, hread⟩ :=
    exists_of_mem_forall₂ ((mapM_eq_ok_iff _ _ _).1 hgroups) ofGroup hofGroup
  obtain ⟨readings, hreadings, rfl⟩ := (map_eq_ok_iff _ _ _).1 hread
  refine forall_sparseFillSourced readings.flatten hfilled (fun own hown => ?_) item hmem
  obtain ⟨reading, hmade, hofReading⟩ := List.mem_flatten.1 hown
  obtain ⟨scope, -, hscope⟩ :=
    exists_of_mem_forall₂ ((mapM_eq_ok_iff _ _ _).1 hreadings) reading hmade
  exact hreading group (List.mem_mergeSort.1 hgroup) scope reading hscope own hofReading

theorem comesFromField_of_sourcedItems (rule : Rule) (record : Marc.Record)
    (items : List SourcedItem) (h : sourcedItems setting rule record = .ok items) :
    ∀ item ∈ items, ∀ entry ∈ item, ComesFromField setting rule entry := by
  refine forall_sourcedItems setting rule record items h
    (fun group hgroup scope reading hread item hitem entry hentry =>
      comesFromField_of_sourcedReading setting rule group hgroup scope reading hread item hitem
        entry hentry)
    fun first item hfirst hitem entry hentry => ?_
  -- filling up only copies entries
  rcases List.mem_append.1 hentry with hown | hcopied
  · exact hitem entry hown
  · exact hfirst entry (List.mem_of_mem_filter hcopied)

theorem distinct_of_sourcedItems (rule : Rule) (record : Marc.Record)
    (items : List SourcedItem) (h : sourcedItems setting rule record = .ok items) :
    ∀ item ∈ items, item ≠ [] ∧ Entries.Distinct item := by
  refine forall_sourcedItems setting rule record items h
    (fun _ _ _ reading hread item hitem => ?_) fun first item hfirst hitem => ?_
  · obtain ⟨fields, -, rfl⟩ := (map_eq_ok_iff _ _ _).1 hread
    obtain ⟨index, -, hmade⟩ := List.mem_filterMap.1 hitem
    split at hmade
    · rename_i hkept
      cases hmade
      rw [Bool.and_eq_true, Bool.not_eq_true', List.isEmpty_eq_false_iff] at hkept
      exact ⟨hkept.2, Entries.distinct_ofPairs _⟩
    · cases hmade
  · exact ⟨List.append_ne_nil_of_left_ne_nil hitem.1 _,
      Entries.distinct_append_lacking first item hfirst.2 hitem.2⟩

end

end Crosswalk.Reading
