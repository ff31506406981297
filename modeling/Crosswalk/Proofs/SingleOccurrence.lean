import Crosswalk.Marc.Record
import Crosswalk.Reading.Items
import Mathlib.Data.List.Basic

/-!
# One occurrence of a tag

The record with one occurrence of a tag left: what it is, and that it is found for
every occurrence there is. Control fields have to carry tags of control fields for
this, as the fields of a record are counted through, control fields first. The
driving tag of a group is one of its tags, it is no tag of a control field, and it
occurs as often as it is said to.
-/

namespace Crosswalk

namespace Marc.Record

variable {α : Type} (tagOf : α → String) (tag : String)

def others (fields : List α) : List α := fields.filter fun f => tagOf f ≠ tag

def countOf (fields : List α) : Nat := (fields.filter fun f => tagOf f = tag).length

theorem countOf_cons_self (field : α) (rest : List α) (h : tagOf field = tag) :
    countOf tagOf tag (field :: rest) = countOf tagOf tag rest + 1 := by
  rw [countOf, List.filter_cons_of_pos (by rw [h, decide_eq_true_eq]), List.length_cons]
  rfl

theorem countOf_cons_of_ne (field : α) (rest : List α) (h : tagOf field ≠ tag) :
    countOf tagOf tag (field :: rest) = countOf tagOf tag rest := by
  rw [countOf, List.filter_cons_of_neg (by rwa [decide_eq_true_eq])]
  rfl

theorem others_cons_self (field : α) (rest : List α) (h : tagOf field = tag) :
    others tagOf tag (field :: rest) = others tagOf tag rest :=
  List.filter_cons_of_neg (by rw [decide_eq_true_eq, not_not, h])

theorem others_cons_of_ne (field : α) (rest : List α) (h : tagOf field ≠ tag) :
    others tagOf tag (field :: rest) = field :: others tagOf tag rest :=
  List.filter_cons_of_pos (by rwa [decide_eq_true_eq])

/-! ### Keeping one field -/

theorem keepOnly_of_lt (index seen : Nat) (fields : List α) (h : index < seen) :
    keepOnly tagOf tag index seen fields = others tagOf tag fields := by
  induction fields generalizing seen with
  | nil => rfl
  | cons field rest ih =>
    by_cases htag : tagOf field = tag
    · rw [keepOnly, if_pos htag, if_neg (Nat.ne_of_gt h), ih (seen + 1) (Nat.lt_succ_of_lt h),
        others_cons_self tagOf tag field rest htag]
    · rw [keepOnly, if_neg htag, ih seen h, others_cons_of_ne tagOf tag field rest htag]

theorem keepOnly_append (index seen : Nat) (before rest : List α)
    (h : seen + countOf tagOf tag before ≤ index) :
    keepOnly tagOf tag index seen (before ++ rest)
      = others tagOf tag before
        ++ keepOnly tagOf tag index (seen + countOf tagOf tag before) rest := by
  induction before generalizing seen with
  | nil => rfl
  | cons field before ih =>
    by_cases htag : tagOf field = tag
    · -- A field with the tag counts as seen, so the next one is compared one higher.
      rw [countOf_cons_self tagOf tag field before htag, ← Nat.add_assoc, Nat.add_right_comm] at h ⊢
      have hseen : seen ≠ index := by omega
      rw [List.cons_append, keepOnly, if_pos htag, if_neg hseen, ih (seen + 1) h,
        others_cons_self tagOf tag field before htag]
    · rw [countOf_cons_of_ne tagOf tag field before htag] at h ⊢
      rw [List.cons_append, keepOnly, if_neg htag, ih seen h,
        others_cons_of_ne tagOf tag field before htag, List.cons_append]

theorem keepOnly_occurrence (before : List α) (field : α) (after : List α)
    (h : tagOf field = tag) :
    keepOnly tagOf tag (countOf tagOf tag before) 0 (before ++ field :: after)
      = others tagOf tag before ++ field :: others tagOf tag after := by
  rw [keepOnly_append tagOf tag _ 0 before _ (Nat.le_of_eq (Nat.zero_add _)), Nat.zero_add,
    keepOnly, if_pos h, if_pos rfl, keepOnly_of_lt tagOf tag _ _ after (Nat.lt_succ_self _)]

theorem exists_occurrence (index : Nat) (fields : List α) (h : index < countOf tagOf tag fields) :
    ∃ before field after, fields = before ++ field :: after ∧ tagOf field = tag ∧
      countOf tagOf tag before = index := by
  induction fields generalizing index with
  | nil => exact absurd h (Nat.not_lt_zero index)
  | cons first rest ih =>
    by_cases htag : tagOf first = tag
    · cases index with
      | zero => exact ⟨[], first, rest, rfl, htag, rfl⟩
      | succ index =>
        rw [countOf_cons_self tagOf tag first rest htag] at h
        obtain ⟨before, field, after, rfl, hfield, hcount⟩ := ih index (Nat.lt_of_succ_lt_succ h)
        refine ⟨first :: before, field, after, rfl, hfield, ?_⟩
        rw [countOf_cons_self tagOf tag first before htag, hcount]
    · rw [countOf_cons_of_ne tagOf tag first rest htag] at h
      obtain ⟨before, field, after, rfl, hfield, hcount⟩ := ih index h
      refine ⟨first :: before, field, after, rfl, hfield, ?_⟩
      rw [countOf_cons_of_ne tagOf tag first before htag, hcount]

theorem others_eq_self (fields : List α) (h : ∀ f ∈ fields, tagOf f ≠ tag) :
    others tagOf tag fields = fields :=
  List.filter_eq_self.2 fun f hf => by rw [decide_eq_true_eq]; exact h f hf

theorem keepOnly_eq_self (index seen : Nat) (fields : List α) (h : ∀ f ∈ fields, tagOf f ≠ tag) :
    keepOnly tagOf tag index seen fields = fields := by
  induction fields with
  | nil => rfl
  | cons field rest ih =>
    rw [keepOnly, if_neg (h field List.mem_cons_self),
      ih fun f hf => h f (List.mem_cons_of_mem field hf)]

/-- The second list is the first one with a single field left of those with the tag, the one that
has `index` others before it. -/
def OneLeft (index : Nat) (fields kept : List α) : Prop :=
  ∃ before field after, fields = before ++ field :: after ∧ tagOf field = tag ∧
    countOf tagOf tag before = index ∧
    kept = others tagOf tag before ++ field :: others tagOf tag after

theorem oneLeft_keepOnly (index : Nat) (fields : List α)
    (h : index < countOf tagOf tag fields) :
    OneLeft tagOf tag index fields (keepOnly tagOf tag index 0 fields) := by
  obtain ⟨before, field, after, hfields, htag, hcount⟩ := exists_occurrence tagOf tag index fields h
  have hkept := keepOnly_occurrence tagOf tag before field after htag
  rw [hcount, ← hfields] at hkept
  exact ⟨before, field, after, hfields, htag, hcount, hkept⟩

theorem OneLeft.eq_keepOnly {index : Nat} {fields kept : List α}
    (h : OneLeft tagOf tag index fields kept) : kept = keepOnly tagOf tag index 0 fields := by
  obtain ⟨before, field, after, hfields, htag, hcount, hkept⟩ := h
  rw [hkept, ← keepOnly_occurrence tagOf tag before field after htag, hcount, ← hfields]

theorem OneLeft.lt_countOf {index : Nat} {fields kept : List α}
    (h : OneLeft tagOf tag index fields kept) : index < countOf tagOf tag fields := by
  obtain ⟨before, field, after, hfields, htag, hcount, -⟩ := h
  rw [← hcount, hfields, countOf, countOf, List.filter_append,
    List.filter_cons_of_pos (by rw [htag, decide_eq_true_eq]), List.length_append, List.length_cons]
  omega

theorem countOf_eq_zero (fields : List α) (h : ∀ f ∈ fields, tagOf f ≠ tag) :
    countOf tagOf tag fields = 0 := by
  rw [countOf, List.length_eq_zero_iff, List.filter_eq_nil_iff]
  intro f hf
  rw [decide_eq_true_eq]
  exact h f hf

theorem filter_others (other : String) (hother : other ≠ tag) (fields : List α) :
    (others tagOf tag fields).filter (fun f => tagOf f = other)
      = fields.filter fun f => tagOf f = other := by
  rw [others, List.filter_filter]
  refine List.filter_congr fun f _ => ?_
  by_cases h : tagOf f = other
  · simp only [h, decide_true, Bool.true_and, decide_eq_true_eq]
    exact hother
  · simp only [h, decide_false, Bool.false_and]

theorem filter_others_self (fields : List α) :
    (others tagOf tag fields).filter (fun f => tagOf f = tag) = [] := by
  rw [others, List.filter_filter, List.filter_eq_nil_iff]
  intro f _
  simp only [Bool.and_eq_true, decide_eq_true_eq, not_and_not_right, imp_self]

/-! ### The record with one occurrence -/

/-- The second record is the first one with a single field left of those with the tag: of the fields
that are counted for it, the one that has `index` others before it. All fields with other tags are
there, in their order. -/
structure CountedOccurrence (tag : String) (index : Nat) (record scope : Record) : Prop where
  leader_eq : scope.leader = record.leader
  of_control : isControlTag tag = true →
    OneLeft ControlField.tag tag index record.controlFields scope.controlFields ∧
      scope.dataFields = others DataField.tag tag record.dataFields
  of_data : isControlTag tag = false →
    scope.controlFields = others ControlField.tag tag record.controlFields ∧
      OneLeft DataField.tag tag index record.dataFields scope.dataFields

/-- The fields that are counted for the tag are the first ones with it: fields are counted through,
control fields first, so no control field may have the tag unless it is one of a control field. -/
def CountedFirst (tag : String) (record : Record) : Prop :=
  isControlTag tag = true ∨ ∀ field ∈ record.controlFields, field.tag ≠ tag

/-- The second record is the first one with a single data field left of those with the tag, the one
that has `index` others before it; all other fields are there, in their order. -/
structure OnlyOccurrence (tag : String) (index : Nat) (record scope : Record) : Prop where
  leader_eq : scope.leader = record.leader
  controlFields_eq : scope.controlFields = record.controlFields
  dataFields_eq : ∃ before field after,
    record.dataFields = before ++ field :: after ∧ field.tag = tag ∧
      countOf DataField.tag tag before = index ∧
      scope.dataFields
        = others DataField.tag tag before ++ field :: others DataField.tag tag after

def ControlApart (record : Record) : Prop :=
  ∀ field ∈ record.controlFields, isControlTag field.tag = true

section

variable (record scope : Record) (index : Nat) (tag : String)

theorem ControlApart.ne_tag {record : Record} (hapart : record.ControlApart) {tag : String}
    (hdata : isControlTag tag = false) : ∀ field ∈ record.controlFields, field.tag ≠ tag := by
  intro field hfield htag
  have hcontrol := hapart field hfield
  rw [htag, hdata] at hcontrol
  cases hcontrol

theorem occurrences_of_control (hcontrol : isControlTag tag = true) :
    record.occurrences tag = countOf ControlField.tag tag record.controlFields := by
  rw [occurrences, if_pos hcontrol]
  rfl

theorem occurrences_of_data (hdata : isControlTag tag = false) :
    record.occurrences tag = countOf DataField.tag tag record.dataFields := by
  rw [occurrences, hdata, if_neg Bool.false_ne_true]
  rfl

theorem withOccurrence?_of_lt (hlt : index < record.occurrences tag) :
    record.withOccurrence? tag index
      = some
          { record with
            controlFields := keepOnly ControlField.tag tag index 0 record.controlFields
            dataFields := keepOnly DataField.tag tag index
              (countOf ControlField.tag tag record.controlFields) record.dataFields } := by
  rw [withOccurrence?, if_pos hlt]
  rfl

theorem lt_of_withOccurrence? (h : record.withOccurrence? tag index = some scope) :
    index < record.occurrences tag := by
  have hsome := withOccurrence?_isSome tag index record
  rw [h, Option.isSome_some] at hsome
  exact of_decide_eq_true hsome.symm

theorem CountedOccurrence.unique {record scope other : Record} {index : Nat} {tag : String}
    (h : CountedOccurrence tag index record scope)
    (hother : CountedOccurrence tag index record other) : scope = other := by
  obtain ⟨leader, controlFields, dataFields⟩ := scope
  obtain ⟨leader', controlFields', dataFields'⟩ := other
  obtain ⟨hleader, hcontrol, hdata⟩ := h
  obtain ⟨hleader', hcontrol', hdata'⟩ := hother
  cases htag : isControlTag tag with
  | true =>
    have hleft := (hcontrol htag).1.eq_keepOnly
    have hleft' := (hcontrol' htag).1.eq_keepOnly
    rw [Record.mk.injEq]
    exact ⟨hleader.trans hleader'.symm, hleft.trans hleft'.symm,
      (hcontrol htag).2.trans (hcontrol' htag).2.symm⟩
  | false =>
    have hleft := (hdata htag).2.eq_keepOnly
    have hleft' := (hdata' htag).2.eq_keepOnly
    rw [Record.mk.injEq]
    exact ⟨hleader.trans hleader'.symm, (hdata htag).1.trans (hdata' htag).1.symm,
      hleft.trans hleft'.symm⟩

/-- Where the counted fields are the first ones with the tag, the record with one occurrence is the
one with that counted field. -/
theorem withOccurrence?_eq_some_iff_counted (hfirst : record.CountedFirst tag) :
    record.withOccurrence? tag index = some scope ↔ CountedOccurrence tag index record scope := by
  cases htag : isControlTag tag with
  | true =>
    constructor
    · intro h
      have hlt := lt_of_withOccurrence? record scope index tag h
      rw [withOccurrence?_of_lt record index tag hlt, Option.some.injEq] at h
      rw [occurrences_of_control record tag htag] at hlt
      subst h
      refine ⟨rfl, fun _ => ?_, fun hdata => absurd htag (ne_true_of_eq_false hdata)⟩
      exact ⟨oneLeft_keepOnly ControlField.tag tag index record.controlFields hlt,
        keepOnly_of_lt DataField.tag tag index _ record.dataFields hlt⟩
    · rintro ⟨hleader, hcontrol, -⟩
      obtain ⟨hleft, hothers⟩ := hcontrol htag
      have hlt := hleft.lt_countOf
      rw [withOccurrence?_of_lt record index tag (by rwa [occurrences_of_control record tag htag]),
        ← hleft.eq_keepOnly, keepOnly_of_lt DataField.tag tag index _ record.dataFields hlt,
        ← hothers, ← hleader]
  | false =>
    have hnone : ∀ field ∈ record.controlFields, field.tag ≠ tag :=
      hfirst.resolve_left (ne_true_of_eq_false htag)
    -- No control field has the tag: none is dropped, and the count of data fields starts at 0.
    have hkeep := keepOnly_eq_self ControlField.tag tag index 0 record.controlFields hnone
    have hzero := countOf_eq_zero ControlField.tag tag record.controlFields hnone
    have hself := others_eq_self ControlField.tag tag record.controlFields hnone
    constructor
    · intro h
      have hlt := lt_of_withOccurrence? record scope index tag h
      rw [withOccurrence?_of_lt record index tag hlt, hkeep, hzero, Option.some.injEq] at h
      rw [occurrences_of_data record tag htag] at hlt
      subst h
      refine ⟨rfl, fun hcontrol => absurd hcontrol (ne_true_of_eq_false htag), fun _ => ?_⟩
      exact ⟨hself.symm, oneLeft_keepOnly DataField.tag tag index record.dataFields hlt⟩
    · rintro ⟨hleader, -, hdata⟩
      obtain ⟨hcontrol, hleft⟩ := hdata htag
      have hlt := hleft.lt_countOf
      rw [withOccurrence?_of_lt record index tag (by rwa [occurrences_of_data record tag htag]),
        hkeep, hzero, ← hleft.eq_keepOnly, ← hleader, ← hself, ← hcontrol]

theorem withOccurrence?_eq_some_iff (hapart : record.ControlApart)
    (hdata : isControlTag tag = false) :
    record.withOccurrence? tag index = some scope ↔ OnlyOccurrence tag index record scope := by
  have hnone := hapart.ne_tag hdata
  have hself := others_eq_self ControlField.tag tag record.controlFields hnone
  rw [withOccurrence?_eq_some_iff_counted record scope index tag (Or.inr hnone)]
  constructor
  · rintro ⟨hleader, -, hcounted⟩
    obtain ⟨hcontrol, hleft⟩ := hcounted hdata
    exact ⟨hleader, hcontrol.trans hself, hleft⟩
  · rintro ⟨hleader, hcontrol, hleft⟩
    refine ⟨hleader, fun htag => absurd htag (ne_true_of_eq_false hdata), fun _ => ?_⟩
    exact ⟨hcontrol.trans hself.symm, hleft⟩

theorem OnlyOccurrence.occurrences_self {record scope : Record} {tag : String} {index : Nat}
    (h : OnlyOccurrence tag index record scope) (hdata : isControlTag tag = false) :
    scope.occurrences tag = 1 := by
  obtain ⟨-, -, before, field, after, -, htag, -, hscope⟩ := h
  rw [occurrences_of_data scope tag hdata, hscope, countOf, List.filter_append,
    List.filter_cons_of_pos (by rw [htag, decide_eq_true_eq]), filter_others_self,
    filter_others_self]
  rfl

theorem OnlyOccurrence.occurrences_other {record scope : Record} {tag : String} {index : Nat}
    (h : OnlyOccurrence tag index record scope) (other : String) (hother : other ≠ tag) :
    scope.occurrences other = record.occurrences other := by
  obtain ⟨-, hcontrol, before, field, after, hfields, htag, -, hscope⟩ := h
  have hskip (rest : List DataField) : (field :: rest).filter (fun f => f.tag = other)
      = rest.filter fun f => f.tag = other := by
    refine List.filter_cons_of_neg ?_
    rw [decide_eq_true_eq, htag]
    exact hother.symm
  have hdata : scope.dataWith other = record.dataWith other := by
    rw [dataWith, dataWith, hscope, hfields, List.filter_append, List.filter_append,
      hskip, hskip, filter_others DataField.tag tag other hother,
      filter_others DataField.tag tag other hother]
  rw [occurrences, occurrences, controlWith, controlWith, hcontrol, hdata]

theorem OnlyOccurrence.occurrences_le_one {record scope : Record} {tag : String} {index : Nat}
    (h : OnlyOccurrence tag index record scope) (hdata : isControlTag tag = false)
    (tags : List String) (hothers : ∀ other ∈ tags, other ≠ tag → record.occurrences other ≤ 1) :
    ∀ other ∈ tags, scope.occurrences other ≤ 1 := by
  intro other hother
  by_cases htag : other = tag
  · rw [htag]
    exact Nat.le_of_eq (h.occurrences_self hdata)
  · rw [h.occurrences_other other htag]
    exact hothers other hother htag

end

end Marc.Record

/-! ### The driving tag -/

namespace Reading

theorem isControlTag_of_mem_dataTags (expression tag : String) (h : tag ∈ dataTags expression) :
    Marc.isControlTag tag = false := by
  rw [dataTags] at h
  split at h
  · cases h
  · obtain ⟨token, -, htoken⟩ := List.mem_filterMap.1 h
    split at htoken
    · split at htoken
      · cases htoken
      · rename_i hcontrol
        cases htoken
        exact Bool.eq_false_iff.2 hcontrol
    · cases htoken

theorem isControlTag_of_mem_groupTags (groupPath rulePath : String) (fields : List Rule)
    (tag : String) (h : tag ∈ groupTags groupPath rulePath fields) :
    Marc.isControlTag tag = false := by
  obtain ⟨field, -, htag⟩ := List.mem_flatMap.1 h
  cases hexpression : field.head.expression with
  | none =>
    rw [hexpression] at htag
    cases htag
  | some text =>
    rw [hexpression] at htag
    exact isControlTag_of_mem_dataTags text tag htag

theorem foldl_moreFrequent_eq_some (record : Marc.Record) (tags : List String)
    (best : Option (String × Nat)) (tag : String) (count : Nat)
    (h : tags.foldl (moreFrequent record) best = some (tag, count)) :
    best = some (tag, count) ∨
      tag ∈ tags ∧ count = record.occurrences tag ∧ 1 < count := by
  induction tags generalizing best with
  | nil => exact Or.inl h
  | cons first rest ih =>
    rcases ih (moreFrequent record best first) h with hstep | ⟨hmem, hrest⟩
    · simp only [moreFrequent] at hstep
      split at hstep
      · rename_i hmore
        cases hstep
        rw [Bool.and_eq_true, decide_eq_true_eq] at hmore
        exact Or.inr ⟨List.mem_cons_self, rfl, hmore.1⟩
      · exact Or.inl hstep
    · exact Or.inr ⟨List.mem_cons_of_mem first hmem, hrest⟩

theorem drivingTag?_eq_some (record : Marc.Record) (tags : List String) (tag : String)
    (count : Nat) (h : drivingTag? record tags = some (tag, count)) :
    tag ∈ tags ∧ count = record.occurrences tag ∧ 1 < count :=
  (foldl_moreFrequent_eq_some record tags none tag count h).resolve_left fun hnone => by cases hnone

end Reading

end Crosswalk
