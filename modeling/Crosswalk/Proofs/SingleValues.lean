import Crosswalk.Proofs.Entries
import Crosswalk.Proofs.Fields
import Crosswalk.Proofs.Success
import Mathlib.Data.List.Fold

/-!
# Single values

Where every tag that an expression reads occurs at most once, each of its tokens
has at most one value, and so has the list that its clauses make. Fields of a group
of which none has more than one text to spread make one item at most: there is one
if every required field has a value and some field does, and it holds what the
fields have.
-/

namespace Crosswalk

def Expression.Token.readTag? : Token → Option String
  | .field tag _ => some tag
  | .range tag _ _ => if Marc.isControlTag tag then some tag else none
  | .literal _ | .today | .remove => none

namespace Reading

/-- The tags that the tokens of a clause read occur at most once. -/
def ReadsOnce (record : Marc.Record) (clause : Expression.Clause) : Prop :=
  ∀ token ∈ clause, ∀ tag, token.readTag? = some tag → record.occurrences tag ≤ 1

variable (setting : Setting) (head : RuleHead) (record : Marc.Record)

/-! ### At most one value -/

theorem length_fieldTexts_le (tag : String) (codes : List Char) :
    (record.fieldTexts tag codes).length ≤ record.occurrences tag := by
  rw [Marc.Record.fieldTexts, Marc.Record.occurrences]
  by_cases hcontrol : Marc.isControlTag tag = true
  · rw [if_pos hcontrol, if_pos hcontrol]
    split
    · exact Nat.le_of_eq (List.length_map _)
    · exact Nat.zero_le _
  · rw [if_neg hcontrol, if_neg hcontrol]
    exact List.length_filterMap_le _ _

theorem length_positioned_le (tag : String) (texts : List String)
    (hone : Marc.isControlTag tag = true → record.occurrences tag ≤ 1)
    (h : record.positioned tag = .ok texts) : texts.length ≤ 1 := by
  rw [Marc.Record.positioned] at h
  split at h
  · cases h
    exact Nat.le_refl 1
  · split at h
    · rename_i hcontrol
      have hcount := hone hcontrol
      rw [Marc.Record.occurrences, if_pos hcontrol] at hcount
      cases h
      rwa [List.length_map]
    · cases h

theorem length_nonBlank_le (texts : List String) : (nonBlank texts).length ≤ texts.length :=
  List.length_filter_le _ _

theorem length_tokenValues_le (token : Expression.Token) (values : List String)
    (hone : ∀ tag, token.readTag? = some tag → record.occurrences tag ≤ 1)
    (h : tokenValues setting head record token = .ok values) : values.length ≤ 1 := by
  cases token with
  | remove =>
    cases h
    exact Nat.zero_le 1
  | today =>
    obtain ⟨day, -, rfl⟩ := (map_eq_ok_iff _ _ _).1 h
    exact Nat.le_refl 1
  | literal text =>
    cases h
    exact Nat.le_refl 1
  | field tag codes =>
    cases h
    refine Nat.le_trans (length_nonBlank_le _) ?_
    rw [List.length_map]
    have htexts := Nat.le_trans (length_fieldTexts_le record tag codes) (hone tag rfl)
    split
    · exact htexts
    · rwa [List.length_map]
  | range tag start stop =>
    obtain ⟨texts, htexts, hvalues⟩ := (bind_eq_ok_iff _ _ _).1 h
    cases hvalues
    refine Nat.le_trans (length_nonBlank_le _) ?_
    rw [List.length_map]
    refine Nat.le_trans (List.length_filterMap_le _ _) ?_
    refine length_positioned_le record tag texts (fun hcontrol => hone tag ?_) htexts
    rw [Expression.Token.readTag?, if_pos hcontrol]

theorem length_clauseValues_le (clause : Expression.Clause) (values : List (List String))
    (hone : ReadsOnce record clause)
    (h : clauseValues setting head record clause = .ok (some values)) :
    ∀ texts ∈ values, texts.length ≤ 1 := by
  intro texts htexts
  obtain ⟨token, htoken, hvalues⟩ :=
    exists_of_mem_forall₂ (forall₂_clauseValues setting head record clause values h) texts htexts
  exact length_tokenValues_le setting head record token texts (hone token htoken) hvalues

theorem length_correlate_le (elements values : List String) (helements : elements.length ≤ 1)
    (hvalues : values.length ≤ 1) : (correlate elements values).length ≤ 1 := by
  rw [correlate]
  split
  · exact helements
  · split
    · rw [List.length_zipWith]
      exact Nat.le_trans (Nat.min_le_left _ _) helements
    · rename_i hempty hlength
      rw [List.isEmpty_iff_length_eq_zero] at hempty
      rw [List.length_append]
      omega

theorem length_fanOut_le (values : List (List String)) (h : ∀ texts ∈ values, texts.length ≤ 1) :
    (fanOut values).length ≤ 1 := by
  rw [fanOut]
  -- For every start, because the elements of the tokens before are carried along.
  have hfold (elements : List String) (helements : elements.length ≤ 1) :
      (values.foldl (fun elements vs => correlate elements (nonBlank vs)) elements).length ≤ 1 := by
    induction values generalizing elements with
    | nil => exact helements
    | cons first rest ih =>
      refine ih (fun texts htexts => h texts (List.mem_cons_of_mem first htexts)) _ ?_
      exact length_correlate_le elements _ helements
        (Nat.le_trans (length_nonBlank_le first) (h first List.mem_cons_self))
  exact hfold [] (Nat.zero_le 1)

theorem length_clausesYield_le (clauses : List Expression.Clause) (texts : List String)
    (hone : ∀ clause ∈ clauses, ReadsOnce record clause)
    (h : clausesYield setting true head record clauses = .ok (.items texts)) :
    texts.length ≤ 1 := by
  rcases clausesYield_cases setting head record true clauses _ h with
    hempty | ⟨clause, hclause, hyield⟩
  · cases hempty
    exact Nat.zero_le 1
  · rcases clauseYield_cases setting head record true clause _ hyield with
      ⟨-, hremoval⟩ | ⟨values, hvalues, hitems⟩
    · cases hremoval
    · cases hitems
      exact length_fanOut_le values
        (length_clauseValues_le setting head record clause values (hone clause hclause) hvalues)

theorem list_of_readExpression (texts : List String) (policy : Policy)
    (h : readExpression setting true head record = .ok (.list texts policy)) :
    texts ≠ [] ∧
      ((∀ text e, head.expression = some text → Expression.parse text = .ok e →
        ∀ clause ∈ e.clauses, ReadsOnce record clause) → texts.length ≤ 1) := by
  rcases exists_yield_of_readExpression setting head record true _ h with
    hmissing | ⟨text, e, yielded, htext, hparse, hclauses, hvalue⟩
  · cases hmissing
  · cases yielded with
    | removal => cases hvalue
    | scalar text =>
      rw [yieldValue] at hvalue
      split at hvalue <;> cases hvalue
    | items values =>
      cases values with
      | nil => cases hvalue
      | cons first rest =>
        cases hvalue
        exact ⟨List.cons_ne_nil _ _, fun hone =>
          length_clausesYield_le setting head record e.clauses _ (hone text e htext hparse)
            hclauses⟩

/-! ### At most one item -/

namespace FieldValue

/-- What the field amounts to in an item: a list of one text is that text, where the key takes no
array. -/
def content (field : FieldValue) : Value :=
  match field.value with
  | .list [text] policy => if Path.isMarked field.key then .list [text] policy else .string text
  | value => value

def entry? (field : FieldValue) : Option (String × Value) :=
  if field.value.isMissing then none else some (field.key, field.content)

def IsSingle (field : FieldValue) : Prop :=
  ∀ texts policy, field.value = .list texts policy →
    texts ≠ [] ∧ (Path.isMarked field.key = false → texts.length ≤ 1)

theorem slot?_of_isSingle (field : FieldValue) (h : field.IsSingle) (index : Nat) :
    field.slot? index = if field.value.isMissing then none else some field.content := by
  obtain ⟨key, value, required⟩ := field
  cases value with
  | list texts policy =>
    obtain ⟨hne, hone⟩ := h texts policy rfl
    cases hmarked : Path.isMarked key with
    | true =>
      simp only [slot?, spread?, content, hmarked, if_true, Value.isMissing, Bool.false_eq_true,
        if_false]
      split <;> simp_all only
    | false =>
      match texts, hne, hone hmarked with
      | [text], _, _ =>
        simp only [slot?, spread?, content, hmarked, Value.isMissing, Bool.false_eq_true, if_false]
  | _ => rfl

theorem width_le_one (field : FieldValue) (h : field.IsSingle) : field.width ≤ 1 := by
  obtain ⟨key, value, required⟩ := field
  cases value with
  | list texts policy =>
    cases hmarked : Path.isMarked key with
    | true => simp only [width, spread?, hmarked, if_true, Nat.le_refl]
    | false =>
      simp only [width, spread?, hmarked, Bool.false_eq_true, if_false]
      exact (h texts policy rfl).2 hmarked
  | missing => exact Nat.zero_le 1
  | _ => exact Nat.le_refl 1

theorem isMissing_of_width_eq_zero (field : FieldValue) (h : field.IsSingle)
    (hwidth : field.width = 0) : field.value.isMissing = true := by
  obtain ⟨key, value, required⟩ := field
  cases value with
  | missing => rfl
  | list texts policy =>
    cases hmarked : Path.isMarked key with
    | true =>
      simp only [width, spread?, hmarked, if_true] at hwidth
      cases hwidth
    | false =>
      simp only [width, spread?, hmarked, Bool.false_eq_true, if_false] at hwidth
      exact absurd (List.length_eq_zero_iff.1 hwidth) (h texts policy rfl).1
  | _ => cases hwidth

end FieldValue

theorem width_eq_foldr (fields : List FieldValue) :
    width fields = (fields.map FieldValue.width).foldr max 0 :=
  List.foldl_eq_foldr

theorem width_cons (field : FieldValue) (rest : List FieldValue) :
    width (field :: rest) = max field.width (width rest) := by
  rw [width_eq_foldr, width_eq_foldr, List.map_cons, List.foldr_cons]

theorem width_le_one (fields : List FieldValue) (h : ∀ f ∈ fields, f.IsSingle) :
    width fields ≤ 1 := by
  induction fields with
  | nil => exact Nat.zero_le 1
  | cons field rest ih =>
    rw [width_cons]
    exact Nat.max_le.2 ⟨field.width_le_one (h field List.mem_cons_self),
      ih fun f hf => h f (List.mem_cons_of_mem field hf)⟩

theorem isMissing_of_width_eq_zero (fields : List FieldValue) (h : ∀ f ∈ fields, f.IsSingle)
    (hwidth : width fields = 0) : ∀ f ∈ fields, f.value.isMissing = true := by
  induction fields with
  | nil => exact List.forall_mem_nil _
  | cons field rest ih =>
    rw [width_cons, Nat.max_eq_zero_iff] at hwidth
    intro f hf
    rcases List.mem_cons.1 hf with rfl | hmem
    · exact f.isMissing_of_width_eq_zero (h f hf) hwidth.1
    · exact ih (fun g hg => h g (List.mem_cons_of_mem field hg)) hwidth.2 f hmem

/-- The item that fields with one value each make: every required field has a value and some field
does, and the item holds what the fields have. -/
def Makes (fields : List FieldValue) (item : Item) : Prop :=
  (∀ f ∈ fields, f.required = true → f.value.isMissing = false) ∧
    (∃ f ∈ fields, f.value.isMissing = false) ∧ item = fields.filterMap FieldValue.entry?

theorem isComplete_zero_iff (fields : List FieldValue) (h : ∀ f ∈ fields, f.IsSingle) :
    isComplete fields 0 = true
      ↔ ∀ f ∈ fields, f.required = true → f.value.isMissing = false := by
  rw [isComplete, List.all_eq_true]
  refine forall₂_congr fun f hf => ?_
  rw [f.slot?_of_isSingle (h f hf)]
  cases f.required <;> cases f.value.isMissing <;>
    simp only [Bool.not_true, Bool.not_false, Bool.true_or, Bool.false_or, if_true, if_false,
      Option.isSome_some, Option.isSome_none, Bool.false_eq_true, forall_const,
      IsEmpty.forall_iff, reduceCtorEq]

theorem itemAt_of_distinct (fields : List FieldValue) (hkeys : (fields.map FieldValue.key).Nodup)
    (index : Nat) :
    itemAt fields index
      = fields.filterMap fun f => (f.slot? index).map fun v => (f.key, v) := by
  rw [itemAt, Entries.ofPairs_of_distinct]
  refine List.Nodup.sublist ?_ hkeys
  clear hkeys
  induction fields with
  | nil => exact List.Sublist.refl _
  | cons field rest ih =>
    cases hslot : field.slot? index with
    | none =>
      rw [List.filterMap_cons_none (by rw [hslot, Option.map_none])]
      exact ih.cons _
    | some value =>
      rw [List.filterMap_cons_some (by rw [hslot, Option.map_some])]
      exact ih.cons_cons _

theorem itemAt_zero (fields : List FieldValue) (h : ∀ f ∈ fields, f.IsSingle)
    (hkeys : (fields.map FieldValue.key).Nodup) :
    itemAt fields 0 = fields.filterMap FieldValue.entry? := by
  rw [itemAt_of_distinct fields hkeys]
  refine List.filterMap_congr fun f hf => ?_
  rw [f.slot?_of_isSingle (h f hf), FieldValue.entry?]
  split <;> rfl

theorem filterMap_entry?_eq_nil_iff (fields : List FieldValue) :
    fields.filterMap FieldValue.entry? = [] ↔ ∀ f ∈ fields, f.value.isMissing = true := by
  rw [List.filterMap_eq_nil_iff]
  refine forall₂_congr fun f _ => ?_
  rw [FieldValue.entry?]
  cases f.value.isMissing <;> simp only [if_true, Bool.false_eq_true, if_false, reduceCtorEq]

theorem explode_of_single (fields : List FieldValue) (h : ∀ f ∈ fields, f.IsSingle)
    (hkeys : (fields.map FieldValue.key).Nodup) :
    (explode fields = [] ∧ ∀ item, ¬ Makes fields item) ∨
      ∃ item, explode fields = [item] ∧ Makes fields item := by
  by_cases hpresent : ∃ f ∈ fields, f.value.isMissing = false
  · have hwidth : width fields = 1 := by
      refine Nat.le_antisymm (width_le_one fields h) (Nat.one_le_iff_ne_zero.2 fun hzero => ?_)
      obtain ⟨f, hf, hvalue⟩ := hpresent
      rw [isMissing_of_width_eq_zero fields h hzero f hf] at hvalue
      cases hvalue
    have hne : (fields.filterMap FieldValue.entry?).isEmpty = false := by
      rw [List.isEmpty_eq_false_iff, Ne, filterMap_entry?_eq_nil_iff]
      intro hall
      obtain ⟨f, hf, hvalue⟩ := hpresent
      rw [hall f hf] at hvalue
      cases hvalue
    have hexplode : explode fields
        = if isComplete fields 0 then [fields.filterMap FieldValue.entry?] else [] := by
      rw [explode, hwidth, List.range_one, List.filterMap_cons, List.filterMap_nil,
        itemAt_zero fields h hkeys, hne, Bool.not_false, Bool.and_true]
      cases isComplete fields 0 <;> rfl
    cases hcomplete : isComplete fields 0 with
    | true =>
      refine Or.inr ⟨_, by rw [hexplode, hcomplete, if_pos rfl], ?_, hpresent, rfl⟩
      exact (isComplete_zero_iff fields h).1 hcomplete
    | false =>
      refine Or.inl ⟨by rw [hexplode, hcomplete]; rfl, fun item hmakes => ?_⟩
      rw [(isComplete_zero_iff fields h).2 hmakes.1] at hcomplete
      cases hcomplete
  · refine Or.inl ⟨?_, fun item hmakes => hpresent hmakes.2.1⟩
    have hnil : fields.filterMap FieldValue.entry? = [] := by
      refine (filterMap_entry?_eq_nil_iff fields).2 fun f hf => ?_
      exact eq_true_of_ne_false fun hvalue => hpresent ⟨f, hf, hvalue⟩
    rw [explode, List.filterMap_eq_nil_iff]
    intro index hindex
    have hzero : index = 0 := by
      have hlt := Nat.lt_of_lt_of_le (List.mem_range.1 hindex) (width_le_one fields h)
      omega
    rw [hzero, itemAt_zero fields h hkeys, hnil, List.isEmpty_nil, Bool.not_true, Bool.and_false,
      if_neg Bool.false_ne_true]

end Reading

end Crosswalk
