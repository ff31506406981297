import Crosswalk.Proofs.Destinations
import Crosswalk.Proofs.Faults
import Crosswalk.Proofs.Fields
import Crosswalk.Proofs.Grouping
import Crosswalk.Proofs.PathGrammar
import Crosswalk.Proofs.Steps

/-!
# Errors that end a run

An error about an expression makes the rule read nothing, however deep in the groups
of a rule it arises, so no run ends in one. What runs do end in is a destination that
cannot be read or does not take the value, or a time zone that is not known. A rule
whose own expression is at fault does no more than a rule that is not enabled.
-/

namespace Crosswalk

/-! ### Failures of one sort -/

/-- Every error in which the computation can end is of the sort. -/
def FailsOnly {α : Type} (sort : Error → Prop) (result : Except Error α) : Prop :=
  ∀ e, result = .error e → sort e

namespace FailsOnly

variable {α β : Type} {sort wider : Error → Prop}

theorem ok (a : α) : FailsOnly sort (.ok a) := by
  intro e h
  cases h

theorem mono {result : Except Error α} (hwider : ∀ e, sort e → wider e)
    (h : FailsOnly sort result) : FailsOnly wider result :=
  fun e he => hwider e (h e he)

theorem bind {first : Except Error α} {next : α → Except Error β} (hfirst : FailsOnly sort first)
    (hnext : ∀ a, FailsOnly sort (next a)) : FailsOnly sort (first >>= next) := by
  intro e h
  rcases (bind_eq_error_iff _ _ _).1 h with hfault | ⟨a, -, hfault⟩
  · exact hfirst e hfault
  · exact hnext a e hfault

theorem map {first : Except Error α} (f : α → β) (h : FailsOnly sort first) :
    FailsOnly sort (first.map f) :=
  fun e he => h e ((map_eq_error_iff _ _ _).1 he)

theorem mapM {f : α → Except Error β} {inputs : List α}
    (h : ∀ a ∈ inputs, FailsOnly sort (f a)) : FailsOnly sort (inputs.mapM f) := by
  intro e he
  obtain ⟨a, ha, hfault⟩ := exists_of_mapM_eq_error f inputs e he
  exact h a ha e hfault

theorem foldlM {f : β → α → Except Error β} (h : ∀ b a, FailsOnly sort (f b a))
    (inputs : List α) (b : β) : FailsOnly sort (inputs.foldlM f b) := by
  induction inputs generalizing b with
  | nil => exact ok b
  | cons a rest ih =>
    rw [List.foldlM_cons]
    exact bind (h b a) ih

end FailsOnly

/-! ### Reading -/

namespace Reading

variable {sort : Error → Prop}

theorem failsOnly_inOrder (groups : List (Int × Except Error (List Item)))
    (h : ∀ group ∈ groups, FailsOnly sort group.2) : FailsOnly sort (inOrder groups) := by
  refine FailsOnly.map _ (FailsOnly.mapM ?_)
  intro group hgroup
  exact h group (List.mem_mergeSort.1 hgroup)

theorem failsOnly_unfilledItems (setting : Setting) (groupPath rulePath : String)
    (fields : List Rule) (record : Marc.Record)
    (h : ∀ field ∈ enabled fields, ∀ scope, FailsOnly sort (readRule setting field true scope)) :
    FailsOnly sort (unfilledItems setting groupPath rulePath fields record) := by
  have hscope : ∀ scope, FailsOnly sort (readFields setting groupPath rulePath fields scope) := by
    intro scope
    rw [readFields_eq_mapM]
    refine FailsOnly.mapM ?_
    intro field hfield
    exact FailsOnly.map _ (h field hfield scope)
  refine FailsOnly.map _ (FailsOnly.mapM ?_)
  intro scope _
  exact FailsOnly.map _ (hscope scope)

/-- Reading a rule fails only where there is no current date, whatever the fields of its groups,
their groups and so on are like. -/
theorem failsOnly_readRule (setting : Setting) (rule : Rule) (fan : Bool) (record : Marc.Record) :
    FailsOnly (fun e => setting.localToday = .error e) (readRule setting rule fan record) := by
  by_cases hkind : rule.kind = .repeatable
  · rw [readRule_eq_inOrder setting rule fan record hkind, readGroups_eq_map]
    refine FailsOnly.map _ (failsOnly_inOrder _ ?_)
    intro result hresult
    obtain ⟨group, hgroup, rfl⟩ := List.mem_map.1 hresult
    refine FailsOnly.map _ (failsOnly_unfilledItems setting _ _ _ record ?_)
    intro field hfield scope
    have hlt := sizeOf_lt_of_mem_enabled rule field group hgroup hfield
    exact failsOnly_readRule setting field true scope
  · rcases readRule_of_not_repeatable setting rule fan record hkind with hread | hread | hread
    · rw [hread]
      exact localToday_of_readExpression_error setting rule.head record fan
    · rw [hread]
      exact FailsOnly.ok _
    · rw [hread]
      exact FailsOnly.ok _
termination_by sizeOf rule

end Reading

/-! ### Writing -/

/-- The error is about a destination: about the path, or about what the path leads to. -/
def Error.AboutDestination (e : Error) : Prop := e.kind = .path ∨ e.kind = .typeMismatch

theorem Path.failsOnly_parse (text : String) : FailsOnly Error.AboutDestination (parse text) :=
  fun e h => Or.inl (kind_of_parse_error text e h)

namespace Document

theorem kind_of_changeAt_failure (shown : String) (keys : List String)
    (change : List (String × Json) → List (String × Json)) (document : Json) (e : Error)
    (h : (changeAt shown keys change document).failure? = some e) : e.kind = .typeMismatch := by
  cases hstored : storage? document with
  | none =>
    simp only [changeAt, hstored, Option.some.injEq] at h
    rw [← h]
    rfl
  | some members =>
    simp only [changeAt, hstored] at h
    obtain ⟨segment, -, hsegment⟩ := Option.map_eq_some_iff.1 h
    rw [← hsegment]
    rfl

theorem kind_of_mergeArray_failure (target : Path) (shown : String) (policy : Policy)
    (incoming : List Json) (document : Json) (e : Error)
    (h : (mergeArray target shown policy incoming document).failure? = some e) :
    e.kind = .typeMismatch := by
  cases policy with
  | extendExisting =>
    simp only [mergeArray] at h
    split at h
    · cases h
    · exact kind_of_changeAt_failure shown _ _ document e h
  | exchangeExisting =>
    simp only [mergeArray] at h
    split at h
    · cases h
    · exact kind_of_changeAt_failure shown _ _ document e h
  | deleteExisting => cases h
  | deleteIncoming =>
    simp only [mergeArray] at h
    split at h <;> cases h

theorem kind_of_store_failure (target : Path) (shown : String) (policy : Option Policy)
    (document : Json) (amount : Content) (e : Error)
    (h : (store target shown policy document amount).failure? = some e) :
    e.kind = .typeMismatch := by
  cases amount with
  | nothing => cases h
  | deletion => cases h
  | scalar value =>
    simp only [store] at h
    split at h
    · cases h
      rfl
    · exact kind_of_changeAt_failure shown _ _ document e h
  | elements kind incoming =>
    have hmerge := kind_of_mergeArray_failure target shown (policy.getD default) incoming document e
    simp only [store] at h
    split at h
    · cases h
      rfl
    · split at h
      · exact hmerge h
      · exact hmerge h
      · exact hmerge h
      · cases h
        rfl

theorem failsOnly_outcome_store (target : Path) (shown : String) (policy : Option Policy)
    (document : Json) (amount : Content) :
    FailsOnly Error.AboutDestination (store target shown policy document amount).outcome := by
  intro e h
  exact Or.inr (kind_of_store_failure target shown policy document amount e
    ((Written.outcome_eq_error_iff _ e).1 h))

mutual

theorem failsOnly_content (value : Value) : FailsOnly Error.AboutDestination (content value) := by
  match value with
  | .missing => exact FailsOnly.ok _
  | .removal _ => exact FailsOnly.ok _
  | .string _ => exact FailsOnly.ok _
  | .bool _ => exact FailsOnly.ok _
  | .list _ _ => exact FailsOnly.ok _
  | .repeatable items _ _ =>
    rw [content]
    exact FailsOnly.map _ (failsOnly_built items)

theorem failsOnly_built (items : List Item) : FailsOnly Error.AboutDestination (built items) := by
  match items with
  | [] => exact FailsOnly.ok _
  | item :: rest =>
    rw [built]
    refine FailsOnly.bind (failsOnly_builtOn (.obj []) item) fun object => ?_
    exact FailsOnly.bind (failsOnly_built rest) fun others => FailsOnly.ok _

theorem failsOnly_builtOn (document : Json) (item : Item) :
    FailsOnly Error.AboutDestination (builtOn document item) := by
  match item with
  | [] => exact FailsOnly.ok _
  | (key, value) :: rest =>
    rw [builtOn_cons]
    refine FailsOnly.bind (Path.failsOnly_parse key) fun target => ?_
    refine FailsOnly.bind (failsOnly_content value) fun amount => ?_
    refine FailsOnly.bind (failsOnly_outcome_store target key none document amount) fun next => ?_
    exact failsOnly_builtOn next rest

end

theorem failsOnly_outcome_write (path : String) (value : Value) (policy : Option Policy)
    (document : Json) :
    FailsOnly Error.AboutDestination (write path value policy document).outcome := by
  rw [outcome_write]
  refine FailsOnly.bind (Path.failsOnly_parse path) fun target => ?_
  refine FailsOnly.bind (failsOnly_content value) fun amount => ?_
  exact failsOnly_outcome_store target path policy document amount

end Document

/-! ### Runs -/

namespace Mapping

/-- The errors that end a run: one about a destination, or that the configured time zone is not
known. -/
def EndsRun (setting : Setting) (e : Error) : Prop :=
  e.kind = .path ∨ e.kind = .typeMismatch ∨ (e.kind = .zone ∧ setting.parameters.zone = .error e)

section

variable (setting : Setting)

theorem endsRun_of_aboutDestination (e : Error) (h : e.AboutDestination) : EndsRun setting e := by
  rcases h with hpath | htype
  · exact Or.inl hpath
  · exact Or.inr (Or.inl htype)

theorem endsRun_of_localToday (e : Error) (h : setting.localToday = .error e) :
    EndsRun setting e := by
  have hzone : setting.parameters.zone = .error e := (map_eq_error_iff _ _ _).1 h
  exact Or.inr (Or.inr ⟨Reading.kind_of_localToday_error setting e h, hzone⟩)

theorem failsOnly_readRule_endsRun (rule : Rule) (fan : Bool) (record : Marc.Record) :
    FailsOnly (EndsRun setting) (Reading.readRule setting rule fan record) :=
  (Reading.failsOnly_readRule setting rule fan record).mono (endsRun_of_localToday setting)

theorem failsOnly_outcome_write_endsRun (path : String) (value : Value) (policy : Option Policy)
    (document : Json) :
    FailsOnly (EndsRun setting) (Document.write path value policy document).outcome :=
  (Document.failsOnly_outcome_write path value policy document).mono
    (endsRun_of_aboutDestination setting)

theorem failsOnly_applyRule (record : Marc.Record) (document : Json) (rule : Rule) :
    FailsOnly (EndsRun setting) (applyRule setting record document rule) := by
  cases henabled : rule.head.enabled with
  | false =>
    rw [applyRule_of_disabled setting record document rule henabled]
    exact FailsOnly.ok document
  | true =>
    rw [applyRule_of_enabled setting record document rule henabled]
    refine FailsOnly.bind (failsOnly_readRule_endsRun setting rule false record) fun value => ?_
    rw [writeValue_eq]
    split
    · exact FailsOnly.ok document
    · exact failsOnly_outcome_write_endsRun setting _ value _ document

theorem failsOnly_applyRules (record : Marc.Record) (rules : List Rule) (document : Json) :
    FailsOnly (EndsRun setting) (applyRules setting record rules document) :=
  FailsOnly.foldlM (failsOnly_applyRule setting record) rules document

theorem failsOnly_split (entity : Entity) (field : String) (values : List String)
    (document : Json) : FailsOnly (EndsRun setting) (split entity field values document) := by
  rw [split]
  split
  · exact FailsOnly.ok _
  · have hstamps : FailsOnly (EndsRun setting)
        (values.eraseDups.mapM fun value => stamp entity field value document) := by
      refine FailsOnly.mapM ?_
      intro value _
      rw [stamp_eq]
      exact failsOnly_outcome_write_endsRun setting _ _ _ document
    exact FailsOnly.bind hstamps fun documents => FailsOnly.ok _

theorem failsOnly_map (entity : Entity) (profile : Profile) (record : Marc.Record)
    (document : Json) :
    FailsOnly (EndsRun setting) (map setting entity profile record document) := by
  have hrules := failsOnly_applyRules setting record
  have hsingle : ∀ rules : List Rule, FailsOnly (EndsRun setting)
      (applyRules setting record rules (Document.start document)
        >>= fun result => .ok (⟨[result], []⟩ : Mapped)) := by
    intro rules
    exact FailsOnly.bind (hrules rules _) fun result => FailsOnly.ok _
  rw [map]
  split
  · exact FailsOnly.ok _
  · rename_i rules _
    simp only [mapRules]
    split
    · split
      · exact hsingle rules
      · rename_i before held after _
        refine FailsOnly.bind (hrules (before ++ after) _) fun base => ?_
        refine FailsOnly.bind (failsOnly_readRule_endsRun setting held true record) fun value => ?_
        exact failsOnly_split setting entity _ _ base
    · exact hsingle rules

theorem failsOnly_mapPerOccurrence (entity : Entity) (profile : Profile) (record : Marc.Record)
    (document : Json) (tag : String) :
    FailsOnly (EndsRun setting) (mapPerOccurrence setting entity profile record document tag) := by
  rw [mapPerOccurrence]
  split
  · exact failsOnly_map setting entity profile record document
  · refine FailsOnly.bind (FailsOnly.mapM ?_) fun runs => FailsOnly.ok _
    intro occurrence _
    exact failsOnly_map setting entity profile occurrence document

theorem failsOnly_mapBatch (entity : Entity) (profile : Profile) (records : List Marc.Record) :
    FailsOnly (EndsRun setting) (mapBatch setting entity profile records) := by
  refine FailsOnly.mapM ?_
  intro record _
  exact failsOnly_map setting entity profile record .null

/-! ### Rules at fault -/

/-- The expression of the rule cannot be read, or its evaluation comes to a range of positions in
data fields, which have none. -/
def Faulty (rule : Rule) (record : Marc.Record) : Prop :=
  rule.kind = .expression ∧ ∃ text, rule.head.expression = some text ∧
    ((∃ e, Expression.parse text = .error e) ∨
      ∃ tag, Reading.expressionYield setting (Path.isMarked rule.head.path) rule.head record text
        = .error (.rangeOnDataField tag))

theorem read_of_faulty (rule : Rule) (record : Marc.Record) (h : Faulty setting rule record) :
    Reading.read setting rule record = .ok .missing := by
  obtain ⟨hkind, text, htext, hfault⟩ := h
  have hyield : ∃ e, e.kind = .expression ∧
      Reading.expressionYield setting (Path.isMarked rule.head.path) rule.head record text
        = .error e := by
    rcases hfault with ⟨e, hparse⟩ | ⟨tag, hrange⟩
    · refine ⟨e, Expression.kind_of_parse_error text e hparse, ?_⟩
      rw [Reading.expressionYield, hparse]
      rfl
    · exact ⟨.rangeOnDataField tag, rfl, hrange⟩
  obtain ⟨e, hexpression, hyield⟩ := hyield
  have hfatal : e.fatal = false := by
    rw [Error.fatal, hexpression]
    rfl
  rw [Reading.read, Reading.readRule_of_expression setting record rule false hkind,
    Reading.readExpression, htext]
  simp only [Bool.false_or, hyield, hfatal, Bool.false_eq_true, if_false]

theorem applyRule_of_faulty (rule : Rule) (record : Marc.Record) (document : Json)
    (h : Faulty setting rule record) : applyRule setting record document rule = .ok document := by
  cases henabled : rule.head.enabled with
  | false => exact applyRule_of_disabled setting record document rule henabled
  | true =>
    rw [applyRule_of_enabled setting record document rule henabled,
      read_of_faulty setting rule record h]
    rfl

theorem map_of_faulty (entity : Entity) (before after : List Rule) (rule : Rule)
    (record : Marc.Record) (document : Json) (hentity : entity ≠ .holdings)
    (h : Faulty setting rule record) :
    map setting entity ⟨some (before ++ rule :: after)⟩ record document
      = map setting entity ⟨some (before ++ rule.disabled :: after)⟩ record document := by
  have hskip : ∀ document, applyRules setting record (rule :: after) document
      = applyRules setting record after document := by
    intro document
    rw [applyRules, List.foldlM_cons, applyRule_of_faulty setting rule record document h]
    rfl
  have hrules : applyRules setting record (before ++ rule :: after) (Document.start document)
      = applyRules setting record (before ++ after) (Document.start document) := by
    simp only [applyRules] at hskip
    simp only [applyRules, List.foldlM_append, hskip]
  rw [map_of_ne_holdings _ _ _ _ _ hentity, map_of_ne_holdings _ _ _ _ _ hentity, hrules,
    applyRules_disabled]

end

/-- No error about an expression ends a run, a run for each occurrence, or a batch: only an error
about a destination does, or one about the configured time zone when that is not known. And a rule
whose expression is at fault on the records of a run can be disabled without any difference. -/
theorem expression_errors_stay_inside (setting : Setting) (entity : Entity) :
    (∀ profile record document e,
      map setting entity profile record document = .error e → EndsRun setting e) ∧
    (∀ profile record document tag e,
      mapPerOccurrence setting entity profile record document tag = .error e →
        EndsRun setting e) ∧
    (∀ profile records e,
      mapBatch setting entity profile records = .error e → EndsRun setting e) ∧
    ∀ before rule after, entity ≠ .holdings →
      let profile : Profile := ⟨some (before ++ rule :: after)⟩
      let without : Profile := ⟨some (before ++ rule.disabled :: after)⟩
      (∀ record document, Faulty setting rule record →
        map setting entity profile record document
          = map setting entity without record document) ∧
      (∀ record document tag, Faulty setting rule record →
        (∀ index scope, record.withOccurrence? tag index = some scope →
          Faulty setting rule scope) →
        mapPerOccurrence setting entity profile record document tag
          = mapPerOccurrence setting entity without record document tag) ∧
      ∀ records, (∀ record ∈ records, Faulty setting rule record) →
        mapBatch setting entity profile records = mapBatch setting entity without records := by
  refine ⟨failsOnly_map setting entity, failsOnly_mapPerOccurrence setting entity,
    failsOnly_mapBatch setting entity, ?_⟩
  intro before rule after hentity profile without
  have hmap : ∀ record document, Faulty setting rule record →
      map setting entity profile record document
        = map setting entity without record document := by
    intro record document hfaulty
    exact map_of_faulty setting entity before after rule record document hentity hfaulty
  refine ⟨hmap, ?_, ?_⟩
  · intro record document tag hfaulty hscopes
    rw [mapPerOccurrence, mapPerOccurrence, hmap record document hfaulty]
    have hruns : ((List.range (record.occurrences tag)).filterMap fun index =>
          record.withOccurrence? tag index).mapM
            (fun occurrence => map setting entity profile occurrence document)
        = ((List.range (record.occurrences tag)).filterMap fun index =>
          record.withOccurrence? tag index).mapM
            fun occurrence => map setting entity without occurrence document := by
      refine mapM_congr ?_
      intro occurrence hoccurrence
      obtain ⟨index, -, hscope⟩ := List.mem_filterMap.1 hoccurrence
      exact hmap occurrence document (hscopes index occurrence hscope)
    simp only [hruns]
    rfl
  · intro records hrecords
    refine mapM_congr ?_
    intro record hrecord
    exact hmap record .null (hrecords record hrecord)

-- the table of zones is a long list to walk through
set_option maxRecDepth 20000 in
/-- The range in a data field changes nothing, nor does the field that cannot be read, and the rule
for the current date ends the run in a zone that is not known. -/
theorem faulty_rules_change_nothing :
    let setting : Setting := ⟨⟨[], some "Mars/Olympus"⟩, {}, fun _ => "2000-01-01"⟩
    let notes := Rule.ofGroups "item.notes[]" .extendExisting
      [⟨0, "item.notes[]", [Rule.ofExpression "item.notes[].kind" "50$a",
        Rule.ofExpression "item.notes[].note" "500$a"]⟩]
    let range := Rule.ofExpression "item.volume" "999$a; else 500/1-2"
    let dated := Rule.ofExpression "item.date" "###TODAY###"
    let record : Marc.Record := ⟨"", [], [⟨"500", ' ', ' ', [⟨'a', "n"⟩]⟩]⟩
    let document : Json := .obj [("item", .obj [("notes", .arr [.obj [("note", .str "n")]])])]
    Faulty setting range record ∧
      map setting .item ⟨some [notes, range]⟩ record .null = .ok ⟨[document], []⟩ ∧
      map setting .item ⟨some [notes, range.disabled]⟩ record .null = .ok ⟨[document], []⟩ ∧
      map setting .item ⟨some [notes, range, dated]⟩ record .null
        = .error (.unknownZone "Mars/Olympus") ∧
      EndsRun setting (.unknownZone "Mars/Olympus") := by
  intro setting notes range dated record document
  obtain ⟨hends, -, -, hsame⟩ := expression_errors_stay_inside setting .item
  have hfaulty : Faulty setting range record := by
    refine ⟨by decide +kernel, _, rfl, Or.inr ⟨"500", ?_⟩⟩
    unfold record range setting
    with_unfolding_all rfl
  have hmap : map setting .item ⟨some [notes, range]⟩ record .null = .ok ⟨[document], []⟩ := by
    unfold document record range notes setting
    with_unfolding_all rfl
  have herror : map setting .item ⟨some [notes, range, dated]⟩ record .null
      = .error (.unknownZone "Mars/Olympus") := by
    unfold record dated range notes setting
    with_unfolding_all rfl
  have hdisabled := (hsame [notes] range [] (by decide)).1 record .null hfaulty
  exact ⟨hfaulty, hmap, hdisabled.symm.trans hmap, herror, hends _ _ _ _ herror⟩

end Mapping

end Crosswalk
