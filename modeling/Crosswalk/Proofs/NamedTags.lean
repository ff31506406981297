import Crosswalk.Mapping
import Crosswalk.Proofs.Fields
import Crosswalk.Proofs.Occurrences

/-!
# What a mapping looks at

A mapping looks at the leader of a record and, tag by tag, at the fields whose tags
the expressions of its profile read. Two records that agree on these map alike: the
values of a token are those of the fields with its tag, the driving tag of a group is
found by counting such fields, and to single out one occurrence of it keeps the
agreement, so the groups in a group, read from what is left, see no difference either.
-/

namespace Crosswalk

/-! ### The tags of a profile -/

def RuleHead.tags (head : RuleHead) : List String := (head.expression.map Reading.readTags).getD []

mutual

/-- The tags that the expressions of the rule, and of the field rules in its groups at any depth,
read. -/
def Rule.tags : Rule → List String
  | ⟨head, groups⟩ => head.tags ++ Group.tagsOfAll groups

def Group.tagsOfAll : List Group → List String
  | [] => []
  | ⟨_, _, fields⟩ :: rest => Rule.tagsOfAll fields ++ Group.tagsOfAll rest

def Rule.tagsOfAll : List Rule → List String
  | [] => []
  | ⟨head, groups⟩ :: rest => Rule.tags ⟨head, groups⟩ ++ Rule.tagsOfAll rest

end

def Profile.tags (profile : Profile) : List String := Rule.tagsOfAll (profile.rules?.getD [])

namespace Rule

theorem tagsOfAll_cons (rule : Rule) (rest : List Rule) :
    tagsOfAll (rule :: rest) = rule.tags ++ tagsOfAll rest := by
  cases rule
  rfl

theorem tagsOfAll_eq_flatMap (rules : List Rule) : tagsOfAll rules = rules.flatMap tags := by
  induction rules with
  | nil => rfl
  | cons rule rest ih => rw [tagsOfAll_cons, ih, List.flatMap_cons]

theorem tags_subset_of_mem (rule : Rule) (rules : List Rule) (h : rule ∈ rules) :
    rule.tags ⊆ tagsOfAll rules := by
  rw [tagsOfAll_eq_flatMap]
  intro tag htag
  exact List.mem_flatMap.2 ⟨rule, h, htag⟩

theorem head_tags_subset (rule : Rule) : rule.head.tags ⊆ rule.tags := by
  cases rule
  exact List.subset_append_left _ _

end Rule

namespace Marc.Record

/-! ### Records that agree on tags -/

/-- The records have the same leader and, for each of the tags, the same control fields and the
same data fields with that tag, in the same order. -/
structure AgreeOn (tags : List String) (r s : Record) : Prop where
  leader : r.leader = s.leader
  control : ∀ tag ∈ tags, r.controlWith tag = s.controlWith tag
  data : ∀ tag ∈ tags, r.dataWith tag = s.dataWith tag

instance (tags : List String) (r s : Record) : Decidable (AgreeOn tags r s) :=
  decidable_of_iff
    (r.leader = s.leader ∧ (∀ tag ∈ tags, r.controlWith tag = s.controlWith tag) ∧
      ∀ tag ∈ tags, r.dataWith tag = s.dataWith tag)
    ⟨fun ⟨hleader, hcontrol, hdata⟩ => ⟨hleader, hcontrol, hdata⟩,
      fun ⟨hleader, hcontrol, hdata⟩ => ⟨hleader, hcontrol, hdata⟩⟩

namespace AgreeOn

variable {tags more : List String} {r s : Record}

theorem mono (hsubset : tags ⊆ more) (h : AgreeOn more r s) : AgreeOn tags r s :=
  ⟨h.leader, fun tag htag => h.control tag (hsubset htag),
    fun tag htag => h.data tag (hsubset htag)⟩

theorem occurrences (h : AgreeOn tags r s) (tag : String) (htag : tag ∈ tags) :
    r.occurrences tag = s.occurrences tag := by
  rw [Record.occurrences, Record.occurrences, h.control tag htag, h.data tag htag]

theorem fieldTexts (h : AgreeOn tags r s) (tag : String) (htag : tag ∈ tags) (codes : List Char) :
    r.fieldTexts tag codes = s.fieldTexts tag codes := by
  rw [Record.fieldTexts, Record.fieldTexts, h.control tag htag, h.data tag htag]

theorem positioned (h : AgreeOn tags r s) (tag : String)
    (htag : isControlTag tag = true → tag ∈ tags) : r.positioned tag = s.positioned tag := by
  rw [Record.positioned, Record.positioned, h.leader]
  split
  · rfl
  · split
    · rename_i hcontrol
      rw [h.control tag (htag hcontrol)]
    · rfl

end AgreeOn

theorem filter_keepOnly {α : Type} (tagOf : α → String) (tag other : String) (index seen : Nat)
    (fields : List α) :
    (keepOnly tagOf tag index seen fields).filter (fun f => tagOf f = other)
      = keepOnly tagOf tag index seen (fields.filter fun f => tagOf f = other) := by
  by_cases hother : other = tag
  · subst hother
    induction fields generalizing seen with
    | nil => rfl
    | cons field rest ih =>
      by_cases hfield : tagOf field = other
      · by_cases hseen : seen = index
        · simp [keepOnly, hfield, hseen, ih]
        · simp [keepOnly, hfield, hseen, ih]
      · simp [keepOnly, hfield, ih]
  · have hnone : ∀ field ∈ fields.filter (fun f => tagOf f = other), tagOf field ≠ tag := by
      intro field hfield
      have htag := of_decide_eq_true (List.mem_filter.1 hfield).2
      rw [htag]
      exact hother
    rw [keepOnly_eq_self tagOf tag index seen _ hnone]
    clear hnone
    induction fields generalizing seen with
    | nil => rfl
    | cons field rest ih =>
      by_cases hfield : tagOf field = tag
      · -- the field goes in one of the two ways, whether it is the one that is kept or not
        have hskip : tagOf field ≠ other := fun h => hother (h.symm.trans hfield)
        by_cases hseen : seen = index
        · simp [keepOnly, hfield, hseen, ih, Ne.symm hother]
        · simp [keepOnly, hfield, hseen, ih, Ne.symm hother]
      · simp [keepOnly, hfield, List.filter_cons, ih]

/-- Records that agree on a tag agree, on it and on the others, when one occurrence of it is
left. -/
theorem AgreeOn.withOccurrence? {tags : List String} {r s : Record} (h : AgreeOn tags r s)
    (tag : String) (htag : tag ∈ tags) (index : Nat) :
    Option.Rel (AgreeOn tags) (r.withOccurrence? tag index) (s.withOccurrence? tag index) := by
  have hcount := h.occurrences tag htag
  have hseen := h.control tag htag
  rw [Record.withOccurrence?, Record.withOccurrence?, hcount, hseen]
  split
  · refine Option.Rel.some ⟨h.leader, ?_, ?_⟩
    · intro other hother
      have hfields := h.control other hother
      simp only [controlWith] at hfields
      simp only [controlWith, filter_keepOnly, hfields]
    · intro other hother
      have hfields := h.data other hother
      simp only [dataWith] at hfields
      simp only [dataWith, filter_keepOnly, hfields]
  · exact Option.Rel.none

end Marc.Record

/-! ### Reading -/

namespace Reading

open Marc.Record (AgreeOn)

variable (setting : Setting) (head : RuleHead) {r s : Marc.Record} {tags : List String}

theorem tokenValues_congr (h : AgreeOn tags r s) (token : Expression.Token)
    (htoken : ∀ tag, token.readTag? = some tag → tag ∈ tags) :
    tokenValues setting head r token = tokenValues setting head s token := by
  cases token with
  | remove => rfl
  | today => rfl
  | literal text => rfl
  | field tag codes =>
    have htexts := h.fieldTexts tag (htoken tag rfl) codes
    rw [tokenValues, tokenValues, htexts]
  | range tag start stop =>
    have htexts := h.positioned tag fun hcontrol => htoken tag (if_pos hcontrol)
    rw [tokenValues, tokenValues, htexts]

theorem clauseValues_congr (h : AgreeOn tags r s) (clause : Expression.Clause)
    (hclause : ∀ token ∈ clause, ∀ tag, token.readTag? = some tag → tag ∈ tags) :
    clauseValues setting head r clause = clauseValues setting head s clause := by
  induction clause with
  | nil => rfl
  | cons token rest ih =>
    have hvalues := tokenValues_congr setting head h token (hclause token List.mem_cons_self)
    have hrest := ih fun t ht => hclause t (List.mem_cons_of_mem token ht)
    cases token with
    | remove => rfl
    | _ => simp only [clauseValues, hvalues, hrest]

theorem clausesYield_congr (h : AgreeOn tags r s) (fan : Bool) (clauses : List Expression.Clause)
    (hclauses : ∀ clause ∈ clauses, ∀ token ∈ clause, ∀ tag,
      token.readTag? = some tag → tag ∈ tags) :
    clausesYield setting fan head r clauses = clausesYield setting fan head s clauses := by
  induction clauses with
  | nil => rfl
  | cons clause rest ih =>
    have hvalues := clauseValues_congr setting head h clause (hclauses clause List.mem_cons_self)
    have hrest := ih fun c hc => hclauses c (List.mem_cons_of_mem clause hc)
    simp only [clausesYield, clauseYield, hvalues, hrest]

theorem readExpression_congr (h : AgreeOn tags r s) (hhead : head.tags ⊆ tags) (fan : Bool) :
    readExpression setting fan head r = readExpression setting fan head s := by
  rw [readExpression, readExpression]
  cases htext : head.expression with
  | none => rfl
  | some text =>
    have hyield : ∀ fan, expressionYield setting fan head r text
        = expressionYield setting fan head s text := by
      intro fan
      rw [expressionYield, expressionYield]
      cases hparse : Expression.parse text with
      | error e => rfl
      | ok expression =>
        refine clausesYield_congr setting head h fan expression.clauses ?_
        intro clause hclause token htoken tag htag
        have hread := mem_readTags text expression hparse clause hclause token htoken tag htag
        refine hhead ?_
        rw [RuleHead.tags, htext]
        exact hread
    simp only [hyield]

/-! ### The driving tag -/

theorem dataTags_subset_readTags (text : String) : dataTags text ⊆ readTags text := by
  intro tag htag
  rw [dataTags] at htag
  rw [readTags]
  cases hparse : Expression.parse text with
  | error e =>
    rw [hparse] at htag
    cases htag
  | ok expression =>
    rw [hparse] at htag
    obtain ⟨token, htoken, hfield⟩ := List.mem_filterMap.1 htag
    refine List.mem_filterMap.2 ⟨token, htoken, ?_⟩
    split at hfield
    · split at hfield
      · cases hfield
      · exact hfield
    · cases hfield

theorem groupTags_subset (groupPath rulePath : String) (fields : List Rule) :
    groupTags groupPath rulePath fields ⊆ Rule.tagsOfAll fields := by
  intro tag htag
  obtain ⟨field, hfield, hmem⟩ := List.mem_flatMap.1 htag
  have hsubset := Rule.tags_subset_of_mem field fields (List.mem_of_mem_filter hfield)
  refine hsubset (field.head_tags_subset ?_)
  rw [RuleHead.tags]
  cases hexpression : field.head.expression with
  | none =>
    rw [hexpression] at hmem
    exact hmem
  | some text =>
    rw [hexpression] at hmem
    exact dataTags_subset_readTags text hmem

theorem drivingTag?_congr (h : AgreeOn tags r s) (candidates : List String)
    (hcandidates : candidates ⊆ tags) : drivingTag? r candidates = drivingTag? s candidates := by
  refine List.foldl_ext _ _ none fun best tag htag => ?_
  rw [moreFrequent, moreFrequent, h.occurrences tag (hcandidates htag)]

theorem forall₂_scopes (h : AgreeOn tags r s) (candidates : List String)
    (hcandidates : candidates ⊆ tags) :
    List.Forall₂ (AgreeOn tags) (scopes r candidates) (scopes s candidates) := by
  rw [scopes, scopes, ← drivingTag?_congr h candidates hcandidates]
  split
  · rename_i tag count hdriving
    have htag := hcandidates (drivingTag?_eq_some r candidates tag count hdriving).1
    refine List.rel_filterMap (R := Eq) ?_ (List.forall₂_refl _)
    rintro index _ rfl
    exact h.withOccurrence? tag htag index
  · exact List.Forall₂.cons h List.Forall₂.nil

/-! ### Rules -/

mutual

theorem readRule_congr (rule : Rule) (fan : Bool) (r s : Marc.Record)
    (h : AgreeOn rule.tags r s) :
    readRule setting rule fan r = readRule setting rule fan s := by
  match rule with
  | ⟨head, groups⟩ =>
    have hexpression := readExpression_congr setting head h (List.subset_append_left _ _) fan
    have hgroups := readGroups_congr head.path groups r s (h.mono (List.subset_append_right _ _))
    rw [readRule, readRule, hexpression, hgroups]

theorem readGroups_congr (rulePath : String) (groups : List Group) (r s : Marc.Record)
    (h : AgreeOn (Group.tagsOfAll groups) r s) :
    readGroups setting rulePath groups r = readGroups setting rulePath groups s := by
  match groups with
  | [] => rfl
  | ⟨order, path, fields⟩ :: rest =>
    have hfields : AgreeOn (Rule.tagsOfAll fields) r s := h.mono (List.subset_append_left _ _)
    have hrest := readGroups_congr rulePath rest r s (h.mono (List.subset_append_right _ _))
    -- the fields are read from records that agree as far as the whole ones do
    have hscopes := forall₂_scopes hfields _ (groupTags_subset path rulePath fields)
    have hread : ∀ scope scope', AgreeOn (Rule.tagsOfAll fields) scope scope' →
        (readFields setting path rulePath fields scope).map explode
          = (readFields setting path rulePath fields scope').map explode := by
      intro scope scope' hscope
      rw [readFields_congr path rulePath fields scope scope' hscope]
    rw [readGroups, readGroups, mapM_congr_forall₂ hscopes hread, hrest]

theorem readFields_congr (groupPath rulePath : String) (fields : List Rule) (r s : Marc.Record)
    (h : AgreeOn (Rule.tagsOfAll fields) r s) :
    readFields setting groupPath rulePath fields r
      = readFields setting groupPath rulePath fields s := by
  match fields with
  | [] => rfl
  | ⟨head, groups⟩ :: rest =>
    have hfield := readRule_congr ⟨head, groups⟩ true r s (h.mono (List.subset_append_left _ _))
    have hrest := readFields_congr groupPath rulePath rest r s
      (h.mono (List.subset_append_right _ _))
    rw [readFields, readFields, hfield, hrest]

end

end Reading

/-! ### Runs -/

namespace Mapping

open Marc.Record (AgreeOn)

variable (setting : Setting) {r s : Marc.Record}

theorem applyRules_congr (rules : List Rule) (document : Json)
    (h : ∀ rule ∈ rules, AgreeOn rule.tags r s) :
    applyRules setting r rules document = applyRules setting s rules document := by
  induction rules generalizing document with
  | nil => rfl
  | cons rule rest ih =>
    have hread := Reading.readRule_congr setting rule false r s (h rule List.mem_cons_self)
    have happly : applyRule setting r document rule = applyRule setting s document rule := by
      simp only [applyRule, Reading.read, hread]
    have hrest := fun next => ih next fun other hother => h other (List.mem_cons_of_mem rule hother)
    simp only [applyRules] at hrest
    simp only [applyRules, List.foldlM_cons, happly, hrest]

theorem mem_of_cutAtFirst? {α : Type} (test : α → Bool) (values before after : List α) (found : α)
    (h : cutAtFirst? test values = some (before, found, after)) :
    found ∈ values ∧ ∀ a ∈ before ++ after, a ∈ values := by
  induction values generalizing before with
  | nil => cases h
  | cons first rest ih =>
    rw [cutAtFirst?] at h
    split at h
    · cases h
      exact ⟨List.mem_cons_self, fun a ha => List.mem_cons_of_mem _ ha⟩
    · obtain ⟨⟨front, found', back⟩, hcut, hparts⟩ := Option.map_eq_some_iff.1 h
      cases hparts
      obtain ⟨hfound, hothers⟩ := ih front hcut
      refine ⟨List.mem_cons_of_mem first hfound, ?_⟩
      intro a ha
      rcases List.mem_cons.1 ha with rfl | hrest
      · exact List.mem_cons_self
      · exact List.mem_cons_of_mem first (hothers a hrest)

theorem map_congr (entity : Entity) (profile : Profile) (document : Json)
    (h : AgreeOn profile.tags r s) :
    map setting entity profile r document = map setting entity profile s document := by
  obtain ⟨rules?⟩ := profile
  cases rules? with
  | none => rfl
  | some rules =>
    have hrules : ∀ rule ∈ rules, AgreeOn rule.tags r s := by
      intro rule hrule
      exact h.mono (Rule.tags_subset_of_mem rule rules hrule)
    have hsingle := applyRules_congr setting rules (Document.start document) hrules
    simp only [map, mapRules, hsingle]
    split
    · rename_i field _
      cases hcut : heldBack? field rules with
      | none => rfl
      | some cut =>
        obtain ⟨before, held, after⟩ := cut
        obtain ⟨hheld, hothers⟩ := mem_of_cutAtFirst? _ rules before after held hcut
        have hbase := applyRules_congr setting (before ++ after) (Document.start document)
          fun rule hrule => hrules rule (hothers rule hrule)
        have hvalue := Reading.readRule_congr setting held true r s (hrules held hheld)
        simp only [hbase, Reading.readAll, hvalue]
    · rfl

/-- Records that agree on the tags that are named in a profile map alike, and they do so once for
every occurrence of a tag if they agree on that tag as well. -/
theorem only_named_tags_matter (entity : Entity) (profile : Profile) (document : Json)
    (h : AgreeOn profile.tags r s) :
    map setting entity profile r document = map setting entity profile s document ∧
      ∀ tag, r.controlWith tag = s.controlWith tag → r.dataWith tag = s.dataWith tag →
        mapPerOccurrence setting entity profile r document tag
          = mapPerOccurrence setting entity profile s document tag := by
  have hmap := map_congr setting entity profile document h
  refine ⟨hmap, ?_⟩
  intro tag hcontrol hdata
  have hmore : AgreeOn (tag :: profile.tags) r s :=
    ⟨h.leader, List.forall_mem_cons.2 ⟨hcontrol, h.control⟩,
      List.forall_mem_cons.2 ⟨hdata, h.data⟩⟩
  have hcount := hmore.occurrences tag List.mem_cons_self
  have hoccurrences : List.Forall₂ (AgreeOn (tag :: profile.tags))
      ((List.range (s.occurrences tag)).filterMap fun index => r.withOccurrence? tag index)
      ((List.range (s.occurrences tag)).filterMap fun index => s.withOccurrence? tag index) := by
    refine List.rel_filterMap (R := Eq) ?_ (List.forall₂_refl _)
    rintro index _ rfl
    exact hmore.withOccurrence? tag List.mem_cons_self index
  have hruns := mapM_congr_forall₂ hoccurrences fun occurrence occurrence' hagree =>
    map_congr setting entity profile document (hagree.mono (List.subset_cons_self _ _))
  simp only [mapPerOccurrence, hmap, hcount, hruns]

theorem shelf_marks_are_not_looked_at :
    let setting : Setting := ⟨default, {}, fun _ => "2000-01-01"⟩
    let items := Rule.ofGroups "holdings.items[]" .extendExisting
      [⟨0, "holdings.items[]", [Rule.ofExpression "holdings.items[].barcode" "945$a",
        Rule.ofGroups "holdings.items[].notes[]" .extendExisting
          [⟨0, "holdings.items[].notes[]",
            [Rule.ofExpression "holdings.items[].notes[].note" "945$n 008/1-2"]⟩]]⟩]
    let profile : Profile :=
      ⟨some [items, Rule.ofExpression "holdings.permanentLocationId" "852$b"]⟩
    let item (barcode note : String) : Marc.DataField :=
      ⟨"945", ' ', ' ', [⟨'a', barcode⟩, ⟨'n', note⟩]⟩
    let location : Marc.DataField := ⟨"852", ' ', ' ', [⟨'b', "main"⟩]⟩
    let shelf (mark : String) : Marc.DataField := ⟨"900", ' ', ' ', [⟨'a', mark⟩]⟩
    let r : Marc.Record := ⟨"", [⟨"008", "ab"⟩, ⟨"001", "in1"⟩],
      [item "1" "x", item "2" "y", location, shelf "Q 1"]⟩
    let s : Marc.Record := ⟨"", [⟨"005", "new"⟩, ⟨"008", "ab"⟩],
      [location, item "1" "x", shelf "Q 2", item "2" "y"]⟩
    AgreeOn profile.tags r s ∧ r.dataWith "900" ≠ s.dataWith "900" ∧
      map setting .holdings profile r .null = map setting .holdings profile s .null ∧
      r.dataWith "945" = s.dataWith "945" ∧
      mapPerOccurrence setting .item profile r .null "945"
        = mapPerOccurrence setting .item profile s .null "945" := by
  intro setting items profile item location shelf r s
  have hagree : AgreeOn profile.tags r s := by decide +kernel
  have hshelf : r.dataWith "900" ≠ s.dataWith "900" := by decide +kernel
  have hdata : r.dataWith "945" = s.dataWith "945" := by decide +kernel
  obtain ⟨hmap, -⟩ := only_named_tags_matter setting .holdings profile .null hagree
  obtain ⟨-, hoccurrences⟩ := only_named_tags_matter setting .item profile .null hagree
  exact ⟨hagree, hshelf, hmap, hdata, hoccurrences "945" (by decide +kernel) hdata⟩

end Mapping

end Crosswalk
