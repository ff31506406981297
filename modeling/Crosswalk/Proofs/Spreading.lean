import Crosswalk.Proofs.NormalForm
import Crosswalk.Proofs.Occurrences
import Mathlib.Data.List.Nodup

/-!
# Spreading values and required fields

The fields of a group spread what they read over its items: each of several texts
goes into an item of its own, the first into the first item and so on, and what is
there once goes into all of them, so there are as many items as the widest field
asks for. That a field is required changes none of this. It takes away the items
without an entry of the field, and the others stay what they are, before they are
filled up from the first one that is left.
-/

namespace Crosswalk

def Rule.waived (rule : Rule) : Rule := ⟨{ rule.head with required := false }, rule.groups⟩

namespace Reading

def FieldValue.waived (field : FieldValue) : FieldValue := { field with required := false }

/-! ### Reading fields that are not required -/

section

variable (setting : Setting) (groupPath rulePath : String) (record : Marc.Record)

theorem readRule_waived (rule : Rule) (fan : Bool) :
    readRule setting rule.waived fan record = readRule setting rule fan record := by
  obtain ⟨head, groups⟩ := rule
  have hkind : Rule.kind ⟨{ head with required := false }, groups⟩ = Rule.kind ⟨head, groups⟩ := rfl
  have hsettled : settled setting { head with required := false } = settled setting head := rfl
  have hread : readExpression setting fan { head with required := false } record
      = readExpression setting fan head record := by
    simp only [readExpression, expressionYield,
      clausesYield_of_settled setting head record _ hsettled]
    rfl
  rw [Rule.waived, readRule, readRule, hkind, hread]
  rfl

theorem fieldValue_waived (field : Rule) :
    fieldValue setting groupPath rulePath record field.waived
      = (fieldValue setting groupPath rulePath record field).map FieldValue.waived := by
  rw [fieldValue, fieldValue, readRule_waived, map_map]
  rfl

theorem enabled_map_waived (fields : List Rule) :
    enabled (fields.map Rule.waived) = (enabled fields).map Rule.waived := by
  rw [enabled, List.filter_map]
  rfl

theorem readFields_waived (fields : List Rule) :
    readFields setting groupPath rulePath (fields.map Rule.waived) record
      = (readFields setting groupPath rulePath fields record).map
          (List.map FieldValue.waived) := by
  rw [readFields_eq_mapM, readFields_eq_mapM, enabled_map_waived, List.mapM_map,
    ← mapM_map_results]
  simp only [Function.comp_def, fieldValue_waived]

theorem groupTags_waived (fields : List Rule) :
    groupTags groupPath rulePath (fields.map Rule.waived)
      = groupTags groupPath rulePath fields := by
  rw [groupTags, List.filter_map, List.flatMap_map]
  rfl

end

/-! ### Entries of spread items -/

theorem get?_itemAt (fields : List FieldValue) (hkeys : (fields.map FieldValue.key).Nodup)
    (index : Nat) (field : FieldValue) (hfield : field ∈ fields) :
    Entries.get? field.key (itemAt fields index) = field.slot? index := by
  have hdistinct : Entries.Distinct (itemAt fields index) := Entries.distinct_ofPairs _
  have hitem := itemAt_of_distinct fields hkeys index
  cases hslot : field.slot? index with
  | some value =>
    refine Entries.get?_of_mem field.key value _ hdistinct ?_
    rw [hitem]
    exact List.mem_filterMap.2 ⟨field, hfield, by rw [hslot, Option.map_some]⟩
  | none =>
    refine (Entries.get?_eq_none_iff _ _).2 fun hkey => ?_
    rw [hitem] at hkey
    obtain ⟨entry, hentry, hsame⟩ := List.mem_map.1 hkey
    obtain ⟨other, hother, hput⟩ := List.mem_filterMap.1 hentry
    obtain ⟨value, hvalue, rfl⟩ := Option.map_eq_some_iff.1 hput
    -- no other field has the key
    rw [List.inj_on_of_nodup_map hkeys hother hfield hsame, hslot] at hvalue
    cases hvalue

theorem exists_field_of_mem_itemAt (fields : List FieldValue) (index : Nat)
    (entry : String × Value) (hentry : entry ∈ itemAt fields index) :
    ∃ field ∈ fields, field.key = entry.1 := by
  obtain ⟨field, hfield, hput⟩ := List.mem_filterMap.1 (Entries.mem_ofPairs _ entry hentry)
  obtain ⟨value, -, rfl⟩ := Option.map_eq_some_iff.1 hput
  exact ⟨field, hfield, rfl⟩

/-! ### Required fields only filter -/

theorem isComplete_eq_all (fields : List FieldValue) (hkeys : (fields.map FieldValue.key).Nodup)
    (index : Nat) :
    isComplete fields index
      = fields.all fun field =>
          !field.required || Entries.contains field.key (itemAt fields index) := by
  rw [isComplete, Bool.eq_iff_iff, List.all_eq_true, List.all_eq_true]
  refine forall₂_congr fun field hfield => ?_
  rw [Entries.contains, get?_itemAt fields hkeys index field hfield]

theorem isComplete_waived (fields : List FieldValue) (index : Nat) :
    isComplete (fields.map FieldValue.waived) index = true := by
  rw [isComplete, List.all_map]
  exact List.all_eq_true.2 fun _ _ => rfl

theorem width_waived (fields : List FieldValue) :
    width (fields.map FieldValue.waived) = width fields := by
  rw [width, List.map_map]
  rfl

theorem itemAt_waived (fields : List FieldValue) (index : Nat) :
    itemAt (fields.map FieldValue.waived) index = itemAt fields index := by
  rw [itemAt, List.filterMap_map]
  rfl

theorem explode_waived (fields : List FieldValue) :
    explode (fields.map FieldValue.waived)
      = (List.range (width fields)).filterMap fun index =>
          if (itemAt fields index).isEmpty then none else some (itemAt fields index) := by
  simp only [explode, width_waived, itemAt_waived, isComplete_waived, Bool.true_and]
  congr 1
  funext index
  cases (itemAt fields index).isEmpty <;> rfl

/-- Of the items that the fields make if none is required, those stay that have an entry for every
required field. -/
theorem explode_eq_filter (fields : List FieldValue)
    (hkeys : (fields.map FieldValue.key).Nodup) :
    explode fields
      = (explode (fields.map FieldValue.waived)).filter fun item =>
          fields.all fun field => !field.required || Entries.contains field.key item := by
  rw [explode_waived, List.filter_filterMap, explode]
  congr 1
  funext index
  -- empty items are left out on both sides, so only what is required can tell them apart
  rw [isComplete_eq_all fields hkeys index]
  cases (itemAt fields index).isEmpty with
  | true =>
    rw [Bool.not_true, Bool.and_false, if_neg Bool.false_ne_true]
    rfl
  | false =>
    rw [Bool.not_false, Bool.and_true]
    rfl

def hasRequired (groupPath rulePath : String) (fields : List Rule) (item : Item) : Bool :=
  (enabled fields).all fun field =>
    !field.head.required || Entries.contains (relativeKey groupPath rulePath field.head.path) item

section

variable (setting : Setting) (groupPath rulePath : String) (record : Marc.Record)

theorem all_required_of_fieldValues (item : Item) (rules : List Rule) (values : List FieldValue)
    (h : List.Forall₂
      (fun field value => fieldValue setting groupPath rulePath record field = .ok value)
      rules values) :
    (values.all fun value => !value.required || Entries.contains value.key item)
      = rules.all fun field => !field.head.required
          || Entries.contains (relativeKey groupPath rulePath field.head.path) item := by
  induction h with
  | nil => rfl
  | cons hfirst _ ih =>
    obtain ⟨read, -, rfl⟩ := (map_eq_ok_iff _ _ _).1 hfirst
    rw [List.all_cons, List.all_cons, ih]

variable (fields : List Rule)

theorem map_explode_readFields (hkeys : ((enabled fields).map fun field =>
      relativeKey groupPath rulePath field.head.path).Nodup) :
    (readFields setting groupPath rulePath fields record).map explode
      = ((readFields setting groupPath rulePath (fields.map Rule.waived) record).map explode).map
          (List.filter (hasRequired groupPath rulePath fields)) := by
  rw [readFields_waived, map_map, map_map]
  cases hread : readFields setting groupPath rulePath fields record with
  | error e => rfl
  | ok values =>
    have hexplode := explode_eq_filter values
      (nodup_keys_of_readFields setting groupPath rulePath fields record values hkeys hread)
    rw [readFields_eq_mapM] at hread
    have hrequired := fun item => all_required_of_fieldValues setting groupPath rulePath record item
      _ values ((mapM_eq_ok_iff _ _ _).1 hread)
    simp only [hrequired] at hexplode
    exact congrArg Except.ok hexplode

/-- Every scope is filtered alike, and the driving tag does not depend on what is required. -/
theorem unfilledItems_eq_filter (hkeys : ((enabled fields).map fun field =>
      relativeKey groupPath rulePath field.head.path).Nodup) :
    unfilledItems setting groupPath rulePath fields record
      = (unfilledItems setting groupPath rulePath (fields.map Rule.waived) record).map
          (List.filter (hasRequired groupPath rulePath fields)) := by
  rw [unfilledItems, unfilledItems, groupTags_waived,
    mapM_congr fun scope _ =>
      map_explode_readFields setting groupPath rulePath scope fields hkeys,
    mapM_map_results, map_map, map_map]
  congr 1
  funext readings
  exact List.filter_flatten.symm

end

/-! ### Where the values go -/

namespace FieldValue

def IsNormal (field : FieldValue) : Prop := ∃ rule, field.value.NormalFor rule

def SpreadsOne (field : FieldValue) : Prop :=
  ∀ texts, field.spread? = some texts → texts.length ≤ 1

theorem eq_missing_of_isMissing (field : FieldValue) (h : field.IsNormal)
    (hmissing : field.value.isMissing = true) : field.value = .missing := by
  obtain ⟨rule, hnormal⟩ := h
  generalize field.value = value at hnormal hmissing
  cases hnormal with
  | missing => rfl
  | string _ text hblank => rw [Value.isMissing, hblank] at hmissing; cases hmissing
  | _ => cases hmissing

theorem isSingle_of_isNormal (field : FieldValue) (h : field.IsNormal) (hone : field.SpreadsOne) :
    field.IsSingle := by
  intro texts policy hlist
  obtain ⟨rule, hnormal⟩ := h
  rw [hlist] at hnormal
  cases hnormal with
  | list _ _ hne _ =>
    refine ⟨hne, fun hunmarked => hone texts ?_⟩
    rw [spread?, hlist, hunmarked]
    rfl

theorem width_of_spread? (field : FieldValue) (texts : List String)
    (h : field.spread? = some texts) : field.width = texts.length := by
  rw [width, h]

theorem slot?_of_several (field : FieldValue) (texts : List String)
    (h : field.spread? = some texts) (hseveral : 2 ≤ texts.length) (index : Nat) :
    field.slot? index = texts[index]?.map .string := by
  match texts with
  | first :: second :: rest => rw [slot?, h]

theorem slot?_of_spreadsOne (field : FieldValue) (h : field.IsNormal) (hone : field.SpreadsOne)
    (hpresent : field.value ≠ .missing) (index : Nat) :
    field.slot? index = some field.content := by
  rw [field.slot?_of_isSingle (field.isSingle_of_isNormal h hone), if_neg]
  exact fun hmissing => hpresent (field.eq_missing_of_isMissing h hmissing)

theorem slot?_of_missing (field : FieldValue) (h : field.value = .missing) (index : Nat) :
    field.slot? index = none := by
  simp only [slot?, spread?, h, Value.isMissing, if_true]

theorem isSome_slot?_of_lt (field : FieldValue) (h : field.IsNormal) (index : Nat)
    (hindex : index < field.width) : (field.slot? index).isSome = true := by
  by_cases hone : field.SpreadsOne
  · have hpresent : field.value ≠ .missing := by
      intro hmissing
      simp only [width, spread?, hmissing] at hindex
      exact absurd hindex (Nat.not_lt_zero index)
    rw [field.slot?_of_spreadsOne h hone hpresent, Option.isSome_some]
  · simp only [SpreadsOne, not_forall, Nat.not_le] at hone
    obtain ⟨texts, hspread, hseveral⟩ := hone
    rw [field.width_of_spread? texts hspread] at hindex
    rw [field.slot?_of_several texts hspread hseveral, List.getElem?_eq_getElem hindex,
      Option.map_some, Option.isSome_some]

end FieldValue

theorem width_le_width (fields : List FieldValue) (field : FieldValue) (h : field ∈ fields) :
    field.width ≤ width fields := by
  induction fields with
  | nil => cases h
  | cons first rest ih =>
    rw [width_cons]
    rcases List.mem_cons.1 h with rfl | hrest
    · exact Nat.le_max_left _ _
    · exact Nat.le_trans (ih hrest) (Nat.le_max_right _ _)

theorem exists_width_eq (fields : List FieldValue) (h : 0 < width fields) :
    ∃ field ∈ fields, field.width = width fields := by
  induction fields with
  | nil => cases h
  | cons first rest ih =>
    rw [width_cons] at h ⊢
    by_cases hfirst : width rest ≤ first.width
    · exact ⟨first, List.mem_cons_self, (Nat.max_eq_left hfirst).symm⟩
    · have hrest : max first.width (width rest) = width rest := Nat.max_eq_right (by omega)
      rw [hrest] at h ⊢
      obtain ⟨field, hfield, hwidth⟩ := ih h
      exact ⟨field, List.mem_cons_of_mem first hfield, hwidth⟩

theorem explode_waived_eq_map (fields : List FieldValue)
    (hkeys : (fields.map FieldValue.key).Nodup) (hnormal : ∀ field ∈ fields, field.IsNormal) :
    explode (fields.map FieldValue.waived) = (List.range (width fields)).map (itemAt fields) := by
  rw [explode_waived, ← List.filterMap_eq_map]
  refine List.filterMap_congr fun index hindex => ?_
  have hlt := List.mem_range.1 hindex
  obtain ⟨field, hfield, hwidth⟩ := exists_width_eq fields (Nat.zero_lt_of_lt hlt)
  -- the widest field has something for every item
  have hput := field.isSome_slot?_of_lt (hnormal field hfield) index (by rwa [hwidth])
  rw [if_neg, Function.comp_apply]
  intro hempty
  rw [← get?_itemAt fields hkeys index field hfield, List.isEmpty_iff.1 hempty] at hput
  cases hput

/-- The items are those over which the values of the fields are spread. -/
structure Spread (fields : List FieldValue) (items : List Item) : Prop where
  width_le : ∀ field ∈ fields, field.width ≤ items.length
  widest : items ≠ [] → ∃ field ∈ fields, field.width = items.length
  /-- Of several texts each is in the item with its number and in no other one. -/
  several : ∀ field ∈ fields, ∀ texts, field.spread? = some texts → 2 ≤ texts.length →
    ∀ index : Nat, items[index]?.bind (Entries.get? field.key) = texts[index]?.map .string
  /-- What is there once goes into every item. -/
  once : ∀ field ∈ fields, field.SpreadsOne → field.value ≠ .missing →
    ∀ item ∈ items, Entries.get? field.key item = some field.content
  nothing : ∀ field ∈ fields, field.value = .missing →
    ∀ item ∈ items, Entries.get? field.key item = none
  of_fields : ∀ item ∈ items, ∀ entry ∈ item, ∃ field ∈ fields, field.key = entry.1

theorem spread_items (fields : List FieldValue) (hkeys : (fields.map FieldValue.key).Nodup)
    (hnormal : ∀ field ∈ fields, field.IsNormal) :
    Spread fields ((List.range (width fields)).map (itemAt fields)) := by
  have hitem (item : Item) (h : item ∈ (List.range (width fields)).map (itemAt fields)) :
      ∃ index, item = itemAt fields index := by
    obtain ⟨index, -, rfl⟩ := List.mem_map.1 h
    exact ⟨index, rfl⟩
  constructor
  · intro field hfield
    rw [List.length_map, List.length_range]
    exact width_le_width fields field hfield
  · intro hne
    rw [List.length_map, List.length_range]
    refine exists_width_eq fields (Nat.pos_of_ne_zero fun hzero => hne ?_)
    rw [hzero, List.range_zero, List.map_nil]
  · intro field hfield texts hspread hseveral index
    rw [List.getElem?_map]
    by_cases hindex : index < width fields
    · rw [List.getElem?_range hindex, Option.map_some, Option.bind_some,
        get?_itemAt fields hkeys index field hfield,
        field.slot?_of_several texts hspread hseveral]
    · -- there are as many items as texts at least
      have htexts := width_le_width fields field hfield
      rw [field.width_of_spread? texts hspread] at htexts
      have hitems : (List.range (width fields))[index]? = none :=
        List.getElem?_eq_none (by rw [List.length_range]; omega)
      rw [hitems, List.getElem?_eq_none (by omega)]
      rfl
  · intro field hfield hone hpresent item hmem
    obtain ⟨index, rfl⟩ := hitem item hmem
    rw [get?_itemAt fields hkeys index field hfield,
      field.slot?_of_spreadsOne (hnormal field hfield) hone hpresent]
  · intro field hfield hmissing item hmem
    obtain ⟨index, rfl⟩ := hitem item hmem
    rw [get?_itemAt fields hkeys index field hfield, field.slot?_of_missing hmissing]
  · intro item hmem entry hentry
    obtain ⟨index, rfl⟩ := hitem item hmem
    exact exists_field_of_mem_itemAt fields index entry hentry

theorem isNormal_of_readFields (setting : Setting) (groupPath rulePath : String)
    (record : Marc.Record) (fields : List Rule) (values : List FieldValue)
    (h : readFields setting groupPath rulePath fields record = .ok values) :
    ∀ value ∈ values, value.IsNormal := by
  rw [readFields_eq_mapM] at h
  intro value hvalue
  obtain ⟨field, -, hfield⟩ := exists_of_mem_forall₂ ((mapM_eq_ok_iff _ _ _).1 h) value hvalue
  obtain ⟨read, hread, rfl⟩ := (map_eq_ok_iff _ _ _).1 hfield
  exact ⟨field, normalFor_of_readRule setting field true record read hread⟩

theorem spread_explode_of_waived (setting : Setting) (groupPath rulePath : String)
    (record : Marc.Record) (fields : List Rule) (values : List FieldValue)
    (hkeys : ((enabled fields).map fun field =>
      relativeKey groupPath rulePath field.head.path).Nodup)
    (h : readFields setting groupPath rulePath (fields.map Rule.waived) record = .ok values) :
    Spread values (explode values) := by
  have hnormal := isNormal_of_readFields setting groupPath rulePath record _ values h
  rw [readFields_waived] at h
  obtain ⟨read, hread, rfl⟩ := (map_eq_ok_iff _ _ _).1 h
  have hdistinct : ((read.map FieldValue.waived).map FieldValue.key).Nodup := by
    rw [List.map_map]
    exact nodup_keys_of_readFields setting groupPath rulePath fields record read hkeys hread
  -- clearing the flags twice is clearing them once
  have htwice : explode (read.map FieldValue.waived)
      = explode ((read.map FieldValue.waived).map FieldValue.waived) := by
    rw [List.map_map]
    rfl
  rw [htwice, explode_waived_eq_map _ hdistinct hnormal]
  exact spread_items _ hdistinct hnormal

/-- Required fields only take items away: what a group makes before anything is filled up is, in
order and unchanged, what it would make without its required flags, less the items that lack an
entry of a required field. Without the flags, each reading spreads the values of the fields: of
several texts each goes into the item with its number, and what is there once goes into all
items. -/
theorem required_fields_filter_items (setting : Setting) (rule : Rule) (group : Group)
    (record : Marc.Record)
    (hkeys : ((enabled group.fields).map fun field =>
      relativeKey group.path rule.head.path field.head.path).Nodup) :
    readGroups setting rule.head.path [group] record
        = [(group.order, (unfilledItems setting group.path rule.head.path group.fields
            record).map sparseFill)] ∧
      unfilledItems setting group.path rule.head.path group.fields record
        = (unfilledItems setting group.path rule.head.path (group.fields.map Rule.waived)
            record).map (List.filter (hasRequired group.path rule.head.path group.fields)) ∧
      ∀ scope values,
        readFields setting group.path rule.head.path (group.fields.map Rule.waived) scope
            = .ok values →
          Spread values (explode values) :=
  ⟨readGroups_eq_map setting rule.head.path [group] record,
    unfilledItems_eq_filter setting group.path rule.head.path record group.fields hkeys,
    fun scope values =>
      spread_explode_of_waived setting group.path rule.head.path scope group.fields values hkeys⟩

/-- Two occurrences of the driving tag make three items each without the required flags. With them
the items without a shelf go, and so does the one that the two series do not reach. -/
theorem shelved_series_stay :
    let setting : Setting := ⟨default, {}, fun _ => "2000-01-01"⟩
    let path := "item.parts[]"
    let required (key expression : String) : Rule :=
      ⟨{ path := path ++ "." ++ key, expression := some expression, required := true }, []⟩
    let group : Group := ⟨0, path, [required "shelf" "852$h",
      Rule.ofExpression (path ++ ".form") "007/1", required "series" "006/1",
      Rule.ofExpression (path ++ ".notes[]") "500$a"]⟩
    let rule := Rule.ofGroups path .extendExisting [group]
    let record : Marc.Record := ⟨"", [⟨"006", "s"⟩, ⟨"006", "t"⟩, ⟨"007", "a"⟩, ⟨"007", "b"⟩,
      ⟨"007", "c"⟩], [⟨"852", ' ', ' ', [⟨'h', "Q 1"⟩]⟩, ⟨"852", ' ', ' ', [⟨'z', "torn"⟩]⟩,
      ⟨"500", ' ', ' ', [⟨'a', "n"⟩]⟩]⟩
    let notes : String × Value := ("notes[]", .list ["n"] .extendExisting)
    let shelved : List Item := [
      [("shelf", .string "Q 1"), ("form", .string "a"), ("series", .string "s"), notes],
      [("shelf", .string "Q 1"), ("form", .string "b"), ("series", .string "t"), notes]]
    let others : List Item := [
      [("shelf", .string "Q 1"), ("form", .string "c"), notes],
      [("form", .string "a"), ("series", .string "s"), notes],
      [("form", .string "b"), ("series", .string "t"), notes],
      [("form", .string "c"), notes]]
    ((enabled group.fields).map fun field =>
        relativeKey group.path rule.head.path field.head.path).Nodup ∧
      unfilledItems setting group.path rule.head.path (group.fields.map Rule.waived) record
        = .ok (shelved ++ others) ∧
      unfilledItems setting group.path rule.head.path group.fields record = .ok shelved ∧
      readRule setting rule false record = .ok (.repeatable shelved .extendExisting path) ∧
      ∀ scope values,
        readFields setting group.path rule.head.path (group.fields.map Rule.waived) scope
            = .ok values →
          Spread values (explode values) := by
  intro setting path required group rule record notes shelved others
  have hkeys : ((enabled group.fields).map fun field =>
      relativeKey group.path rule.head.path field.head.path).Nodup := by decide +kernel
  have hall : unfilledItems setting group.path rule.head.path (group.fields.map Rule.waived) record
      = .ok (shelved ++ others) := by
    unfold others shelved notes record rule group required path setting
    with_unfolding_all rfl
  obtain ⟨-, hfilter, hspread⟩ := required_fields_filter_items setting rule group record hkeys
  have hkept : unfilledItems setting group.path rule.head.path group.fields record
      = .ok shelved := by
    rw [hfilter, hall]
    unfold others shelved notes rule group required path
    with_unfolding_all rfl
  have hvalue : readRule setting rule false record
      = .ok (.repeatable shelved .extendExisting path) := by
    have hrule := readRule_of_one_group setting rule.head group false record rfl
    rw [hkept] at hrule
    exact hrule
  exact ⟨hkeys, hall, hkept, hvalue, hspread⟩

end Reading

end Crosswalk
