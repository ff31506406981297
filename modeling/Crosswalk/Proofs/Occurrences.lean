import Crosswalk.Proofs.Faults
import Crosswalk.Proofs.SingleOccurrence
import Crosswalk.Proofs.SingleValues

/-!
# One object for each occurrence

A group with a driving tag is read once for each occurrence of that tag. If the
other tags that its fields read occur at most once, every field has one value in
such a reading, so the reading makes one object or none: there is one for each
occurrence in which no required field is missing and not all fields are, in the
order of the occurrences, and it holds what the fields read from the record with
this occurrence alone.
-/

namespace Crosswalk.Reading

/-! ### What a group reads -/

def readTags (text : String) : List String :=
  match Expression.parse text with
  | .error _ => []
  | .ok e => e.clauses.flatten.filterMap Expression.Token.readTag?

/-- The tags that the enabled fields of a group read, keys of arrays apart. -/
def tagsRead (groupPath rulePath : String) (fields : List Rule) : List String :=
  ((enabled fields).filter fun field =>
      !Path.isMarked (relativeKey groupPath rulePath field.head.path)).flatMap
    fun field => (field.head.expression.map readTags).getD []

/-- The object that the enabled fields of a group make of what they read from the record. -/
def ObjectOf (setting : Setting) (groupPath rulePath : String) (fields : List Rule)
    (record : Marc.Record) (object : Item) : Prop :=
  ∃ values,
    List.Forall₂ (fun field value => fieldValue setting groupPath rulePath record field = .ok value)
      (enabled fields) values ∧
    Makes values object

theorem mem_readTags (text : String) (e : Expression) (h : Expression.parse text = .ok e)
    (clause : Expression.Clause) (hclause : clause ∈ e.clauses) (token : Expression.Token)
    (htoken : token ∈ clause) (tag : String) (htag : token.readTag? = some tag) :
    tag ∈ readTags text := by
  rw [readTags, h]
  exact List.mem_filterMap.2 ⟨token, List.mem_flatten.2 ⟨clause, hclause, htoken⟩, htag⟩

section

variable (setting : Setting) (groupPath rulePath : String) (fields : List Rule)
  (record : Marc.Record)

theorem mem_tagsRead (field : Rule) (hfield : field ∈ enabled fields) (text : String)
    (htext : field.head.expression = some text)
    (hkey : Path.isMarked (relativeKey groupPath rulePath field.head.path) = false) (tag : String)
    (htag : tag ∈ readTags text) : tag ∈ tagsRead groupPath rulePath fields := by
  refine List.mem_flatMap.2 ⟨field, List.mem_filter.2 ⟨hfield, by rw [hkey, Bool.not_false]⟩, ?_⟩
  rw [htext]
  exact htag

/-! ### One value for each field -/

theorem list_of_readRule (field : Rule) (texts : List String) (policy : Policy)
    (hkind : field.kind ≠ .repeatable)
    (h : readRule setting field true record = .ok (.list texts policy)) :
    readExpression setting true field.head record = .ok (.list texts policy) := by
  rcases readRule_of_not_repeatable setting field true record hkind with hread | hread | hread
  · rwa [hread] at h
  · rw [hread, Except.ok.injEq, boolValue.eq_def] at h
    split at h <;> cases h
  · rw [hread] at h
    cases h

theorem isSingle_of_fieldValue (field : Rule) (value : FieldValue)
    (hfield : field ∈ enabled fields) (hkind : field.kind ≠ .repeatable)
    (hone : ∀ tag ∈ tagsRead groupPath rulePath fields, record.occurrences tag ≤ 1)
    (h : fieldValue setting groupPath rulePath record field = .ok value) : value.IsSingle := by
  obtain ⟨read, hread, rfl⟩ := (map_eq_ok_iff _ _ _).1 h
  rintro texts policy rfl
  obtain ⟨hne, hlength⟩ := list_of_readExpression setting field.head record texts policy
    (list_of_readRule setting record field texts policy hkind hread)
  refine ⟨hne, fun hkey => hlength ?_⟩
  intro text e htext hparse clause hclause token htoken tag htag
  exact hone tag (mem_tagsRead groupPath rulePath fields field hfield text htext hkey tag
    (mem_readTags text e hparse clause hclause token htoken tag htag))

theorem map_key_of_fieldValues (rules : List Rule) (values : List FieldValue)
    (h : List.Forall₂
      (fun field value => fieldValue setting groupPath rulePath record field = .ok value)
      rules values) :
    values.map FieldValue.key
      = rules.map fun field => relativeKey groupPath rulePath field.head.path := by
  induction h with
  | nil => rfl
  | cons hfirst _ ih =>
    obtain ⟨read, -, rfl⟩ := (map_eq_ok_iff _ _ _).1 hfirst
    rw [List.map_cons, List.map_cons, ih]

theorem nodup_keys_of_readFields (values : List FieldValue)
    (hkeys : ((enabled fields).map fun field =>
      relativeKey groupPath rulePath field.head.path).Nodup)
    (h : readFields setting groupPath rulePath fields record = .ok values) :
    (values.map FieldValue.key).Nodup := by
  rw [readFields_eq_mapM] at h
  rwa [map_key_of_fieldValues setting groupPath rulePath record _ values
    ((mapM_eq_ok_iff _ _ _).1 h)]

/-! ### One object for each reading -/

theorem explode_of_readFields (items : List Item)
    (hkinds : ∀ field ∈ enabled fields, field.kind ≠ .repeatable)
    (hkeys : ((enabled fields).map fun field =>
      relativeKey groupPath rulePath field.head.path).Nodup)
    (hone : ∀ tag ∈ tagsRead groupPath rulePath fields, record.occurrences tag ≤ 1)
    (h : (readFields setting groupPath rulePath fields record).map explode = .ok items) :
    (items = [] ∧ ∀ object, ¬ ObjectOf setting groupPath rulePath fields record object) ∨
      ∃ object, items = [object] ∧ ObjectOf setting groupPath rulePath fields record object := by
  obtain ⟨values, hread, rfl⟩ := (map_eq_ok_iff _ _ _).1 h
  have hdistinct :=
    nodup_keys_of_readFields setting groupPath rulePath fields record values hkeys hread
  rw [readFields_eq_mapM] at hread
  have hvalues := (mapM_eq_ok_iff _ _ _).1 hread
  have hsingle : ∀ value ∈ values, value.IsSingle := by
    intro value hvalue
    obtain ⟨field, hfield, hfieldValue⟩ := exists_of_mem_forall₂ hvalues value hvalue
    exact isSingle_of_fieldValue setting groupPath rulePath fields record field value hfield
      (hkinds field hfield) hone hfieldValue
  rcases explode_of_single values hsingle hdistinct with ⟨hnil, hnone⟩ | ⟨object, hitem, hmakes⟩
  · refine Or.inl ⟨hnil, ?_⟩
    rintro object ⟨others, hothers, hmakes⟩
    rw [(mapM_eq_ok_iff _ _ _).2 hothers] at hread
    cases hread
    exact hnone object hmakes
  · exact Or.inr ⟨object, hitem, values, hvalues, hmakes⟩

theorem localToday_of_fieldValue_error (field : Rule) (e : Error)
    (hkind : field.kind ≠ .repeatable)
    (h : fieldValue setting groupPath rulePath record field = .error e) :
    setting.localToday = .error e := by
  rw [fieldValue, map_eq_error_iff] at h
  rcases readRule_of_not_repeatable setting field true record hkind with hread | hread | hread
  · rw [hread] at h
    exact localToday_of_readExpression_error setting field.head record true e h
  · rw [hread] at h
    cases h
  · rw [hread] at h
    cases h

theorem localToday_of_unfilledItems_error (e : Error)
    (hkinds : ∀ field ∈ enabled fields, field.kind ≠ .repeatable)
    (h : unfilledItems setting groupPath rulePath fields record = .error e) :
    setting.localToday = .error e := by
  obtain ⟨scope, -, hscope⟩ :=
    exists_of_mapM_eq_error _ _ e ((map_eq_error_iff _ _ _).1 h)
  rw [map_eq_error_iff, readFields_eq_mapM] at hscope
  obtain ⟨field, hfield, hvalue⟩ := exists_of_mapM_eq_error _ _ e hscope
  exact localToday_of_fieldValue_error setting groupPath rulePath scope field e
    (hkinds field hfield) hvalue

end

/-! ### All readings -/

/-- Where each of several results is a single element or none at all, the elements belong in order
to those among the starting points that have one. -/
theorem exists_chosen {α β γ : Type} (f : α → Option β) (R : β → γ → Prop) (starts : List α)
    (results : List (List γ))
    (h : List.Forall₂
      (fun b result => (result = [] ∧ ∀ c, ¬ R b c) ∨ ∃ c, result = [c] ∧ R b c)
      (starts.filterMap f) results) :
    ∃ chosen, chosen.Sublist starts ∧
      List.Forall₂ (fun a c => ∃ b, f a = some b ∧ R b c) chosen results.flatten ∧
      ∀ a ∈ starts, a ∈ chosen ↔ ∃ b c, f a = some b ∧ R b c := by
  induction starts generalizing results with
  | nil =>
    cases h
    exact ⟨[], List.Sublist.refl [], List.Forall₂.nil, List.forall_mem_nil _⟩
  | cons first rest ih =>
    -- A start without an element stays out, whether it is cut off by `f` or by `R`.
    have hskip (chosen : List α) (hsub : chosen.Sublist rest)
        (hmem : ∀ a ∈ rest, a ∈ chosen ↔ ∃ b c, f a = some b ∧ R b c)
        (hfirst : ¬ ∃ b c, f first = some b ∧ R b c) :
        ∀ a ∈ first :: rest, a ∈ chosen ↔ ∃ b c, f a = some b ∧ R b c := by
      intro a ha
      rcases List.mem_cons.1 ha with rfl | hrest
      · exact ⟨fun hchosen => (hmem a (hsub.subset hchosen)).1 hchosen, fun hb => absurd hb hfirst⟩
      · exact hmem a hrest
    cases hf : f first with
    | none =>
      rw [List.filterMap_cons_none hf] at h
      obtain ⟨chosen, hsub, hforall, hmem⟩ := ih results h
      refine ⟨chosen, hsub.cons first, hforall, hskip chosen hsub hmem ?_⟩
      rintro ⟨b, c, hb, -⟩
      rw [hf] at hb
      cases hb
    | some b =>
      rw [List.filterMap_cons_some hf] at h
      obtain ⟨result, results, hresult, hresults, rfl⟩ := List.forall₂_cons_left_iff.1 h
      obtain ⟨chosen, hsub, hforall, hmem⟩ := ih results hresults
      rcases hresult with ⟨rfl, hnone⟩ | ⟨c, rfl, hc⟩
      · refine ⟨chosen, hsub.cons first, hforall, hskip chosen hsub hmem ?_⟩
        rintro ⟨b', c, hb, hc⟩
        rw [hf] at hb
        cases hb
        exact hnone c hc
      · refine ⟨first :: chosen, hsub.cons_cons first, List.Forall₂.cons ⟨b, hf, hc⟩ hforall, ?_⟩
        intro a ha
        rcases List.mem_cons.1 ha with rfl | hrest
        · exact ⟨fun _ => ⟨b, c, hf, hc⟩, fun _ => List.mem_cons_self⟩
        · rw [List.mem_cons, hmem a hrest]
          refine ⟨?_, Or.inr⟩
          rintro (rfl | hother)
          · exact ⟨b, c, hf, hc⟩
          · exact hother

/-- A group whose driving tag is the only one that is repeated makes one object for each of its
occurrences that has what is required and is not empty, in the order of the record. -/
theorem one_object_per_occurrence (setting : Setting) (head : RuleHead) (group : Group)
    (fan : Bool) (record : Marc.Record) (tag : String) (count : Nat)
    (hkind : Rule.kind ⟨head, [group]⟩ = .repeatable) (hapart : record.ControlApart)
    (hkinds : ∀ field ∈ enabled group.fields, field.kind ≠ .repeatable)
    (hkeys : ((enabled group.fields).map fun field =>
      relativeKey group.path head.path field.head.path).Nodup)
    (hdriving : drivingTag? record (groupTags group.path head.path group.fields)
      = some (tag, count))
    (hothers : ∀ other ∈ tagsRead group.path head.path group.fields,
      other ≠ tag → record.occurrences other ≤ 1) :
    count = record.occurrences tag ∧
      (∀ e, readRule setting ⟨head, [group]⟩ fan record = .error e →
        setting.localToday = .error e) ∧
      ∀ value, readRule setting ⟨head, [group]⟩ fan record = .ok value →
        ∃ (indices : List Nat) (objects : List Item),
          unfilledItems setting group.path head.path group.fields record = .ok objects ∧
          value = itemsValue head (sparseFill objects) ∧
          indices.Sublist (List.range count) ∧
          (∀ index < count, index ∈ indices ↔ ∃ scope object,
            Marc.Record.OnlyOccurrence tag index record scope ∧
            ObjectOf setting group.path head.path group.fields scope object) ∧
          List.Forall₂
            (fun index object => ∃ scope, Marc.Record.OnlyOccurrence tag index record scope ∧
              ObjectOf setting group.path head.path group.fields scope object)
            indices objects := by
  obtain ⟨hmem, hcount, -⟩ := drivingTag?_eq_some _ _ _ _ hdriving
  have hdata := isControlTag_of_mem_groupTags _ _ _ _ hmem
  have hscope (index : Nat) (scope : Marc.Record) :=
    Marc.Record.withOccurrence?_eq_some_iff record scope index tag hapart hdata
  rw [readRule_of_one_group setting head group fan record hkind]
  refine ⟨hcount, fun e herror => ?_, fun value hvalue => ?_⟩
  · exact localToday_of_unfilledItems_error setting group.path head.path group.fields record e
      hkinds ((map_eq_error_iff _ _ _).1 herror)
  · obtain ⟨objects, hobjects, rfl⟩ := (map_eq_ok_iff _ _ _).1 hvalue
    obtain ⟨lists, hlists, rfl⟩ := (map_eq_ok_iff _ _ _).1 hobjects
    have hreadings : List.Forall₂
        (fun scope items =>
          (items = [] ∧ ∀ object,
            ¬ ObjectOf setting group.path head.path group.fields scope object) ∨
          ∃ object, items = [object] ∧
            ObjectOf setting group.path head.path group.fields scope object)
        ((List.range count).filterMap fun index => record.withOccurrence? tag index) lists := by
      rw [scopes, hdriving, mapM_eq_ok_iff] at hlists
      -- In a scope the driving tag occurs once, and the other tags as often as in the record.
      have honce : ∀ scope ∈ (List.range count).filterMap
          fun index => record.withOccurrence? tag index,
          ∀ other ∈ tagsRead group.path head.path group.fields, scope.occurrences other ≤ 1 := by
        intro scope hmemScope
        obtain ⟨index, -, hindex⟩ := List.mem_filterMap.1 hmemScope
        exact ((hscope index scope).1 hindex).occurrences_le_one hdata _ hothers
      refine ((List.forall₂_and_left _ _).2 ⟨honce, hlists⟩).imp ?_
      rintro scope items ⟨hone, hitems⟩
      exact explode_of_readFields setting group.path head.path group.fields scope items hkinds
        hkeys hone hitems
    obtain ⟨indices, hsub, hforall, hindices⟩ := exists_chosen _ _ _ _ hreadings
    simp only [hscope] at hforall hindices
    exact ⟨indices, lists.flatten, hobjects, rfl, hsub,
      fun index hindex => hindices index (List.mem_range.2 hindex), hforall⟩

/-- The second of three contributors lacks the name, which is required, and the third one the note;
the title, which occurs once, goes into both objects. -/
theorem unnamed_contributor_makes_no_object :
    let setting : Setting := ⟨default, {}, fun _ => "2000-01-01"⟩
    let head : RuleHead := { path := "instance.contributors[]", policy := some .extendExisting }
    let group : Group := ⟨0, "instance.contributors[]",
      [⟨{ path := "instance.contributors[].name", expression := some "100$a; else 700$a",
          required := true }, []⟩,
        Rule.ofExpression "instance.contributors[].notes[]" "700$b",
        Rule.ofExpression "instance.contributors[].work" "245$a",
        Rule.ofBoolAction "instance.contributors[].primary" .allFalse]⟩
    let record : Marc.Record := ⟨"", [⟨"001", "in1"⟩],
      [⟨"700", ' ', ' ', [⟨'a', "Ada"⟩, ⟨'b', "x"⟩]⟩, ⟨"245", ' ', ' ', [⟨'a', "T"⟩]⟩,
        ⟨"700", ' ', ' ', [⟨'b', "y"⟩]⟩, ⟨"700", ' ', ' ', [⟨'a', "Cid"⟩]⟩]⟩
    let objects : List Item :=
      [[("name", .string "Ada"), ("notes[]", .list ["x"] .extendExisting),
          ("work", .string "T"), ("primary", .bool false)],
        [("name", .string "Cid"), ("work", .string "T"), ("primary", .bool false)]]
    Rule.kind ⟨head, [group]⟩ = .repeatable ∧ record.ControlApart ∧
      drivingTag? record (groupTags group.path head.path group.fields) = some ("700", 3) ∧
      unfilledItems setting group.path head.path group.fields record = .ok objects ∧
      ∃ indices : List Nat, indices.Sublist (List.range 3) ∧
        List.Forall₂
          (fun index object => ∃ scope, Marc.Record.OnlyOccurrence "700" index record scope ∧
            ObjectOf setting group.path head.path group.fields scope object)
          indices objects := by
  intro setting head group record objects
  have hkind : Rule.kind ⟨head, [group]⟩ = .repeatable := rfl
  have hapart : record.ControlApart := by
    intro field hfield
    rw [List.mem_singleton.1 hfield]
    decide +kernel
  have hkinds : ∀ field ∈ enabled group.fields, field.kind ≠ .repeatable := by
    intro field hfield
    simp only [group, enabled, Rule.ofExpression, Rule.ofBoolAction, List.filter, List.mem_cons,
      List.not_mem_nil, or_false] at hfield
    rcases hfield with rfl | rfl | rfl | rfl <;> decide +kernel
  have hkeys : ((enabled group.fields).map fun field =>
      relativeKey group.path head.path field.head.path).Nodup := by
    decide +kernel
  have hdriving : drivingTag? record (groupTags group.path head.path group.fields)
      = some ("700", 3) := by
    decide +kernel
  have hothers : ∀ other ∈ tagsRead group.path head.path group.fields,
      other ≠ "700" → record.occurrences other ≤ 1 := by
    decide +kernel
  have hscopes : scopes record (groupTags group.path head.path group.fields)
      = [⟨"", [⟨"001", "in1"⟩],
            [⟨"700", ' ', ' ', [⟨'a', "Ada"⟩, ⟨'b', "x"⟩]⟩, ⟨"245", ' ', ' ', [⟨'a', "T"⟩]⟩]⟩,
          ⟨"", [⟨"001", "in1"⟩],
            [⟨"245", ' ', ' ', [⟨'a', "T"⟩]⟩, ⟨"700", ' ', ' ', [⟨'b', "y"⟩]⟩]⟩,
          ⟨"", [⟨"001", "in1"⟩],
            [⟨"245", ' ', ' ', [⟨'a', "T"⟩]⟩, ⟨"700", ' ', ' ', [⟨'a', "Cid"⟩]⟩]⟩] := by
    decide +kernel
  have hfirst : readFields setting group.path head.path group.fields
      ⟨"", [⟨"001", "in1"⟩],
        [⟨"700", ' ', ' ', [⟨'a', "Ada"⟩, ⟨'b', "x"⟩]⟩, ⟨"245", ' ', ' ', [⟨'a', "T"⟩]⟩]⟩
      = .ok [⟨"name", .list ["Ada"] .extendExisting, true⟩,
          ⟨"notes[]", .list ["x"] .extendExisting, false⟩,
          ⟨"work", .list ["T"] .extendExisting, false⟩, ⟨"primary", .bool false, false⟩] := by
    unfold group head setting
    with_unfolding_all rfl
  have hsecond : readFields setting group.path head.path group.fields
      ⟨"", [⟨"001", "in1"⟩],
        [⟨"245", ' ', ' ', [⟨'a', "T"⟩]⟩, ⟨"700", ' ', ' ', [⟨'b', "y"⟩]⟩]⟩
      = .ok [⟨"name", .missing, true⟩, ⟨"notes[]", .list ["y"] .extendExisting, false⟩,
          ⟨"work", .list ["T"] .extendExisting, false⟩, ⟨"primary", .bool false, false⟩] := by
    unfold group head setting
    with_unfolding_all rfl
  have hthird : readFields setting group.path head.path group.fields
      ⟨"", [⟨"001", "in1"⟩],
        [⟨"245", ' ', ' ', [⟨'a', "T"⟩]⟩, ⟨"700", ' ', ' ', [⟨'a', "Cid"⟩]⟩]⟩
      = .ok [⟨"name", .list ["Cid"] .extendExisting, true⟩, ⟨"notes[]", .missing, false⟩,
          ⟨"work", .list ["T"] .extendExisting, false⟩, ⟨"primary", .bool false, false⟩] := by
    unfold group head setting
    with_unfolding_all rfl
  have hitems : unfilledItems setting group.path head.path group.fields record = .ok objects := by
    rw [unfilledItems, hscopes]
    simp only [List.mapM_cons, List.mapM_nil, hfirst, hsecond, hthird]
    with_unfolding_all rfl
  have hread : readRule setting ⟨head, [group]⟩ false record
      = .ok (itemsValue head (sparseFill objects)) := by
    rw [readRule_of_one_group setting head group false record hkind, hitems]
    rfl
  obtain ⟨-, -, hobjects⟩ := one_object_per_occurrence setting head group false record "700" 3
    hkind hapart hkinds hkeys hdriving hothers
  obtain ⟨indices, found, hfound, -, hsub, -, hforall⟩ := hobjects _ hread
  rw [hitems] at hfound
  cases hfound
  exact ⟨hkind, hapart, hdriving, hitems, indices, hsub, hforall⟩

end Crosswalk.Reading
