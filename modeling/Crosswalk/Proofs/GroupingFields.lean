import Crosswalk.Proofs.Grouping
import Crosswalk.Proofs.SourcedItems
import Crosswalk.Proofs.Trimming

/-!
# Grouping values of nested fields

The rule that is held back may be about the grouping field only because a field of
one of its groups has the field's name. The grouping values are then looked for by
the keys of the items, and a field's key comes from its path, not from its name.
Where both say the same about every field of the rule, the grouping values are
what the fields of that name have put into the items, in the order of the items.
They do say the same about a field without a name of its own whose path has no
array mark.
-/

namespace Crosswalk

/-! ### The last piece of a path -/

namespace Path

def lastPiece (cs : List Char) : List Char := (pieces '.' cs).getLastD []

theorem lastPiece_append_dot (front rest : List Char) :
    lastPiece (front ++ '.' :: rest) = lastPiece rest := by
  rw [lastPiece, pieces_append_cut, List.getLastD_eq_getLast?,
    List.getLast?_append_of_ne_nil _ (pieces_ne_nil '.' rest), ← List.getLastD_eq_getLast?,
    lastPiece]

theorem lastPiece_of_not_mem (cs : List Char) (h : '.' ∉ cs) : lastPiece cs = cs := by
  rw [lastPiece, pieces_of_not_mem '.' cs h]
  rfl

theorem eq_or_append_lastPiece (cs : List Char) :
    '.' ∉ lastPiece cs ∧ (cs = lastPiece cs ∨ ∃ front, cs = front ++ '.' :: lastPiece cs) := by
  by_cases hdot : '.' ∈ cs
  · obtain ⟨back, front, hsplit, hback⟩ := List.eq_append_cons_of_mem (List.mem_reverse.2 hdot)
    have hcs : cs = front.reverse ++ '.' :: back.reverse := by
      rw [← List.reverse_reverse cs, hsplit, List.reverse_append, List.reverse_cons,
        List.append_assoc, List.singleton_append]
    have hlast : '.' ∉ back.reverse := fun hmem => hback (List.mem_reverse.1 hmem)
    rw [hcs, lastPiece_append_dot, lastPiece_of_not_mem _ hlast]
    exact ⟨hlast, Or.inr ⟨front.reverse, rfl⟩⟩
  · rw [lastPiece_of_not_mem cs hdot]
    exact ⟨hdot, Or.inl rfl⟩

theorem isMarked_iff_lastPiece (text : String) :
    isMarked text = true ↔ arrayMark <:+ lastPiece text.toList := by
  rw [isMarked_iff, lastPiece, marked_last_piece_iff]

end Path

/-! ### Keys and names of fields -/

namespace Reading

theorem append_of_below? (base path key : List Char) (h : below? base path = some key) :
    path = base ++ '.' :: key := by
  rw [below?] at h
  split at h
  · rename_i hbase
    obtain ⟨rest, hpath⟩ := List.isPrefixOf_iff_prefix.1 (Bool.and_eq_true_iff.1 hbase).2
    rw [← hpath, List.drop_left] at h
    split at h
    · cases h
      exact hpath.symm
    · cases h
  · cases h

theorem lastPiece_relativeKey (groupPath rulePath fieldPath : String) :
    Path.lastPiece (relativeKey groupPath rulePath fieldPath).toList
      = Path.lastPiece fieldPath.toList := by
  rw [relativeKey, String.toList_ofList]
  cases hbelow : (below? groupPath.toList fieldPath.toList).or
      (below? rulePath.toList fieldPath.toList) with
  | none => exact Path.lastPiece_of_not_mem _ (Path.eq_or_append_lastPiece _).1
  | some key =>
    have happend : ∃ base, fieldPath.toList = base ++ '.' :: key := by
      rcases Option.or_eq_some_iff.1 hbelow with hgroup | ⟨-, hrule⟩
      · exact ⟨_, append_of_below? _ _ key hgroup⟩
      · exact ⟨_, append_of_below? _ _ key hrule⟩
    obtain ⟨base, hpath⟩ := happend
    rw [Option.getD_some, hpath, Path.lastPiece_append_dot]

theorem isMarked_relativeKey (groupPath rulePath fieldPath : String) :
    Path.isMarked (relativeKey groupPath rulePath fieldPath) = Path.isMarked fieldPath := by
  rw [Bool.eq_iff_iff, Path.isMarked_iff_lastPiece, Path.isMarked_iff_lastPiece,
    lastPiece_relativeKey]

end Reading

namespace Mapping

open Reading

theorem isKeyOf_iff_lastPiece (field key : String) (hdot : '.' ∉ field.toList) :
    isKeyOf field key = true ↔ Path.lastPiece key.toList = field.toList := by
  rw [isKeyOf, Bool.or_eq_true, decide_eq_true_iff, List.isSuffixOf_iff_suffix]
  constructor
  · rintro (rfl | ⟨front, hkey⟩)
    · exact Path.lastPiece_of_not_mem _ hdot
    · rw [← hkey, Path.lastPiece_append_dot, Path.lastPiece_of_not_mem _ hdot]
  · intro hlast
    rcases (Path.eq_or_append_lastPiece key.toList).2 with hkey | ⟨front, hkey⟩
    · exact Or.inl (String.toList_inj.1 (hkey.trans hlast))
    · rw [hlast] at hkey
      exact Or.inr ⟨front, hkey.symm⟩

/-- The key of the field in the items says the same about the grouping field as its name, and if
it has that name, the key is not one of an array. -/
structure AgreesOn (field groupPath rulePath : String) (nested : Rule) : Prop where
  key_iff : isKeyOf field (relativeKey groupPath rulePath nested.head.path) = true ↔
    nested.head.fieldName = field
  unmarked : nested.head.fieldName = field →
    Path.isMarked (relativeKey groupPath rulePath nested.head.path) = false

theorem agreesOn_of_unnamed (field groupPath rulePath : String) (nested : Rule)
    (hname : nested.head.name = none) (hmark : Path.isMarked nested.head.path = false)
    (hdot : '.' ∉ field.toList) : AgreesOn field groupPath rulePath nested := by
  have hlast : ¬ Path.arrayMark <:+ Path.lastPiece nested.head.path.toList := by
    rw [← Path.isMarked_iff_lastPiece, hmark]
    exact Bool.false_ne_true
  have hfieldName : nested.head.fieldName
      = String.ofList (Path.lastPiece nested.head.path.toList) := by
    rw [RuleHead.fieldName, hname, Option.getD_none, lastName, ← Path.lastPiece, Path.unmark,
      if_neg (fun h => hlast (List.isSuffixOf_iff_suffix.1 h))]
  constructor
  · rw [isKeyOf_iff_lastPiece field _ hdot, lastPiece_relativeKey, hfieldName, ← String.toList_inj,
      String.toList_ofList]
  · intro _
    rw [isMarked_relativeKey, hmark]

/-! ### What the fields of a name contribute -/

def textsOf : Value → List String
  | .string text => [text]
  | .list texts _ => texts
  | _ => []

/-- The texts that fields with the logical name have put into the items, in the order of the
items. -/
def contributed (field : String) (items : List SourcedItem) : List String :=
  items.flatten.flatMap fun entry =>
    if entry.2.name = field then textsOf entry.2.value else []

theorem entryText?_of_comesFromField (setting : Setting) (field : String) (rule : Rule)
    (entry : String × Sourced)
    (hagree : ∀ group ∈ rule.groups, ∀ nested ∈ enabled group.fields,
      AgreesOn field group.path rule.head.path nested)
    (h : ComesFromField setting rule entry) :
    (entryText? field (entry.1, entry.2.value)).toList
      = if entry.2.name = field then textsOf entry.2.value else [] := by
  obtain ⟨key, name, stored⟩ := entry
  obtain ⟨group, hgroup, nested, hnested, scope, value, index, hread, hslot, hkey, hname⟩ := h
  obtain ⟨hiff, hunmarked⟩ := hagree group hgroup nested hnested
  obtain ⟨read, -, rfl⟩ := (map_eq_ok_iff _ _ _).1 hread
  rw [← hkey, ← hname] at hiff
  by_cases hfield : name = field
  · have hkeyOf : isKeyOf field key = true := hiff.2 hfield
    have hmark := hunmarked (hname.symm.trans hfield)
    cases stored with
    | string text => rw [entryText?, if_pos hkeyOf, if_pos hfield]; rfl
    | list texts policy =>
      exact absurd (isMarked_of_slot?_list _ index texts policy hslot) (ne_true_of_eq_false hmark)
    | _ => rw [if_pos hfield]; rfl
  · have hkeyOf : ¬ isKeyOf field key = true := fun h => hfield (hiff.1 h)
    rw [if_neg hfield]
    cases stored with
    | string text => rw [entryText?, if_neg hkeyOf]; rfl
    | _ => rfl

theorem groupingValues_itemsValue (field : String) (head : RuleHead) (items : List Item) :
    groupingValues field (itemsValue head items)
      = nonBlank (items.flatten.filterMap (entryText? field)) := by
  cases items with
  | nil =>
    rw [itemsValue]
    split <;> rfl
  | cons first rest => rfl

theorem groupingValues_of_sourcedItems (setting : Setting) (field : String) (rule : Rule)
    (record : Marc.Record) (items : List SourcedItem)
    (hagree : ∀ group ∈ rule.groups, ∀ nested ∈ enabled group.fields,
      AgreesOn field group.path rule.head.path nested)
    (h : sourcedItems setting rule record = .ok items) :
    groupingValues field (itemsValue rule.head (items.map plain))
      = nonBlank (contributed field items) := by
  have hentries : (items.map plain).flatten
      = items.flatten.map fun entry => (entry.1, entry.2.value) := by
    rw [List.map_flatten]
    rfl
  rw [groupingValues_itemsValue, hentries, List.filterMap_map, List.filterMap_eq_flatMap_toList,
    contributed]
  congr 1
  refine List.flatMap_congr fun entry hentry => ?_
  obtain ⟨item, hitem, hinside⟩ := List.mem_flatten.1 hentry
  exact entryText?_of_comesFromField setting field rule entry hagree
    (comesFromField_of_sourcedItems setting rule record items h item hitem entry hinside)

/-- The items that a rule reads; a rule of another kind than a repeatable one reads none. -/
structure ItemsRead (setting : Setting) (rule : Rule) (record : Marc.Record)
    (items : List SourcedItem) : Prop where
  of_repeatable : rule.kind = .repeatable →
    sourcedItems setting rule record = .ok items ∧
      readAll setting rule record = .ok (itemsValue rule.head (items.map plain))
  of_other : rule.kind ≠ .repeatable → items = []

theorem exists_itemsRead (setting : Setting) (field : String) (rule : Rule) (record : Marc.Record)
    (value : Value) (hkind : rule.kind ≠ .expression)
    (hagree : ∀ group ∈ rule.groups, ∀ nested ∈ enabled group.fields,
      AgreesOn field group.path rule.head.path nested)
    (hread : readAll setting rule record = .ok value) :
    ∃ items, ItemsRead setting rule record items ∧
      groupingValues field value = nonBlank (contributed field items) := by
  by_cases hrepeatable : rule.kind = .repeatable
  · have hvalue := hread
    rw [readAll, readRule_of_repeatable setting rule true record hrepeatable] at hvalue
    obtain ⟨items, hitems, rfl⟩ := (map_eq_ok_iff _ _ _).1 hvalue
    exact ⟨items, ⟨fun _ => ⟨hitems, hread⟩, fun hother => absurd hrepeatable hother⟩,
      groupingValues_of_sourcedItems setting field rule record items hagree hitems⟩
  · refine ⟨[], ⟨fun h => absurd h hrepeatable, fun _ => rfl⟩, ?_⟩
    -- neither a truth value nor nothing at all has a text in it
    obtain ⟨head, groups⟩ := rule
    rw [readAll, readRule] at hread
    cases hcases : Rule.kind ⟨head, groups⟩ with
    | repeatable => exact absurd hcases hrepeatable
    | expression => exact absurd hcases hkind
    | boolean =>
      rw [hcases, Except.ok.injEq, boolValue.eq_def] at hread
      rw [← hread]
      split <;> rfl
    | empty =>
      rw [hcases, Except.ok.injEq] at hread
      rw [← hread]
      rfl

/-- If the names and the keys of its fields agree about the grouping field, a rule that is held back
and that is not read as an expression is split by exactly the texts, apart from blank ones, that
the fields of that name have put into its items. -/
theorem grouping_values_from_named_fields (setting : Setting) (rules : List Rule)
    (record : Marc.Record) (document : Json) (before after : List Rule) (held : Rule)
    (mapped : Mapped)
    (hheld : heldBack? setting.config.groupingField rules = some (before, held, after))
    (hkind : held.kind ≠ .expression)
    (hagree : ∀ group ∈ held.groups, ∀ nested ∈ enabled group.fields,
      AgreesOn setting.config.groupingField group.path held.head.path nested)
    (hmap : map setting .holdings ⟨some rules⟩ record document = .ok mapped) :
    ∃ items base, ItemsRead setting held record items ∧
      applyRules setting record (before ++ after) (Document.start document) = .ok base ∧
      mapped.groupingValues = nonBlank (contributed setting.config.groupingField items) ∧
      (mapped.groupingValues = [] → mapped.documents = [base]) ∧
      (mapped.groupingValues ≠ [] →
        SplitBy ("holdings." ++ setting.config.groupingField) mapped.groupingValues base
          mapped.documents) := by
  rw [map_holdings_of_heldBack? setting rules record document before after held hheld] at hmap
  obtain ⟨base, hbase, hrest⟩ := (bind_eq_ok_iff _ _ _).1 hmap
  obtain ⟨value, hvalue, hsplit⟩ := (bind_eq_ok_iff _ _ _).1 hrest
  obtain ⟨hvalues, hnone, hsome⟩ := split_eq_ok _ _ _ _ _ hsplit
  obtain ⟨items, hitems, hcontributed⟩ :=
    exists_itemsRead setting setting.config.groupingField held record value hkind hagree hvalue
  refine ⟨items, base, hitems, hbase, hvalues.trans hcontributed, ?_, ?_⟩
  · rw [hvalues]
    exact hnone
  · rw [hvalues]
    exact hsome

/-- A location without a note and a note without a location: the second item takes its location
from the first one, and the grouping values follow the items. -/
theorem filled_up_location_counts :
    let setting : Setting := ⟨default, {}, fun _ => "2000-01-01"⟩
    let fields : List Rule :=
      [Rule.ofExpression "holdings.items[].permanentLocationId" "852$b",
        Rule.ofExpression "holdings.items[].note" "852$z"]
    let held := Rule.ofGroups "holdings.items[]" .extendExisting [⟨0, "holdings.items[]", fields⟩]
    let number := Rule.ofExpression "holdings.callNumber" "852$h"
    let record : Marc.Record := ⟨"", [],
      [⟨"852", ' ', ' ', [⟨'b', "main"⟩, ⟨'h', "Q 1"⟩, ⟨'z', "worn"⟩]⟩,
        ⟨"852", ' ', ' ', [⟨'z', "torn"⟩]⟩, ⟨"852", ' ', ' ', [⟨'b', "annex"⟩]⟩]⟩
    let values := ["main", "main", "annex"]
    let documents : List Json := ["main", "annex"].map fun location =>
      .obj [("holdings", .obj [("callNumber", .str "Q 1"), ("permanentLocationId", .str location)])]
    heldBack? setting.config.groupingField [number, held] = some ([number], held, []) ∧
      held.kind ≠ .expression ∧
      (∀ group ∈ held.groups, ∀ nested ∈ enabled group.fields,
        AgreesOn setting.config.groupingField group.path held.head.path nested) ∧
      map setting .holdings ⟨some [number, held]⟩ record .null = .ok ⟨documents, values⟩ ∧
      ∃ items base, ItemsRead setting held record items ∧
        applyRules setting record ([number] ++ []) (Document.start .null) = .ok base ∧
        values = nonBlank (contributed setting.config.groupingField items) ∧
        (values = [] → documents = [base]) ∧
        (values ≠ [] → SplitBy "holdings.permanentLocationId" values base documents) := by
  intro setting fields held number record values documents
  have hheld : heldBack? setting.config.groupingField [number, held]
      = some ([number], held, []) := by
    unfold number held fields setting
    with_unfolding_all rfl
  have hkind : held.kind ≠ .expression := by decide +kernel
  have hagree : ∀ group ∈ held.groups, ∀ nested ∈ enabled group.fields,
      AgreesOn setting.config.groupingField group.path held.head.path nested := by
    have hunnamed : ∀ group ∈ held.groups, ∀ nested ∈ enabled group.fields,
        nested.head.name = none ∧ Path.isMarked nested.head.path = false := by decide +kernel
    intro group hgroup nested hnested
    obtain ⟨hname, hmark⟩ := hunnamed group hgroup nested hnested
    exact agreesOn_of_unnamed _ _ _ nested hname hmark (by decide +kernel)
  have hmap : map setting .holdings ⟨some [number, held]⟩ record .null
      = .ok ⟨documents, values⟩ := by
    unfold documents values record number held fields setting
    with_unfolding_all rfl
  exact ⟨hheld, hkind, hagree, hmap,
    grouping_values_from_named_fields setting _ record .null _ _ held _ hheld hkind hagree
      hmap⟩

/-- The name of the field says that the rule is about the grouping field, but the key of the field
does not: the rule is held back, and the location that it reads is found nowhere. -/
theorem named_field_is_lost_under_other_key :
    let setting : Setting := ⟨default, {}, fun _ => "2000-01-01"⟩
    let head : RuleHead :=
      { path := "holdings.items[].locationId"
        name := some "permanentLocationId"
        expression := some "945$h" }
    let held := Rule.ofGroups "holdings.items[]" .extendExisting
      [⟨0, "holdings.items[]", [⟨head, []⟩]⟩]
    let record : Marc.Record := ⟨"", [], [⟨"945", ' ', ' ', [⟨'h', "L1"⟩]⟩]⟩
    held.head.fieldName ≠ setting.config.groupingField ∧
      heldBack? setting.config.groupingField [held] = some ([], held, []) ∧
      sourcedItems setting held record
        = .ok [[("locationId", ⟨"permanentLocationId", .string "L1"⟩)]] ∧
      contributed setting.config.groupingField
        [[("locationId", ⟨"permanentLocationId", .string "L1"⟩)]] = ["L1"] ∧
      map setting .holdings ⟨some [held]⟩ record .null = .ok ⟨[.obj []], []⟩ := by
  intro setting head held record
  have hname : held.head.fieldName ≠ setting.config.groupingField := by decide +kernel
  have hheld : heldBack? setting.config.groupingField [held] = some ([], held, []) := by
    unfold held head setting
    with_unfolding_all rfl
  have hitems : sourcedItems setting held record
      = .ok [[("locationId", ⟨"permanentLocationId", .string "L1"⟩)]] := by
    unfold record held head setting
    with_unfolding_all rfl
  have hcontributed : contributed setting.config.groupingField
      [[("locationId", ⟨"permanentLocationId", .string "L1"⟩)]] = ["L1"] := by decide +kernel
  have hmap : map setting .holdings ⟨some [held]⟩ record .null = .ok ⟨[.obj []], []⟩ := by
    unfold record held head setting
    with_unfolding_all rfl
  exact ⟨hname, hheld, hitems, hcontributed, hmap⟩

end Mapping

end Crosswalk
