import Crosswalk.Mapping
import Crosswalk.Proofs.Fields

/-!
# Rules that are not enabled

A rule that is not enabled is neither read nor written, and a field rule that is
not enabled adds nothing to the items of its group and no tag to those among
which the driving tag is sought. So a profile maps as it does without all these
rules. One place takes no notice of the flag: a rule is held back for the sake of
a field rule in its groups that has the name of the grouping field, whether that
field rule is enabled or not.
-/

namespace Crosswalk

/-! ### Pruned profiles -/

mutual

/-- The rule without the field rules in its groups, at any depth, that are not enabled. -/
def Rule.pruned : Rule → Rule
  | ⟨head, groups⟩ => ⟨head, Group.pruneAll groups⟩

def Group.pruneAll : List Group → List Group
  | [] => []
  | ⟨order, path, fields⟩ :: rest => ⟨order, path, Rule.pruneAll fields⟩ :: Group.pruneAll rest

def Rule.pruneAll : List Rule → List Rule
  | [] => []
  | ⟨head, groups⟩ :: rest =>
    if head.enabled then Rule.pruned ⟨head, groups⟩ :: Rule.pruneAll rest
    else Rule.pruneAll rest

end

def Profile.pruned (profile : Profile) : Profile := ⟨profile.rules?.map Rule.pruneAll⟩

namespace Rule

theorem head_pruned (rule : Rule) : rule.pruned.head = rule.head := by
  cases rule
  rfl

theorem pruneAll_cons_of_enabled (rule : Rule) (rest : List Rule)
    (h : rule.head.enabled = true) : pruneAll (rule :: rest) = rule.pruned :: pruneAll rest := by
  cases rule
  exact if_pos h

theorem pruneAll_cons_of_disabled (rule : Rule) (rest : List Rule)
    (h : rule.head.enabled = false) : pruneAll (rule :: rest) = pruneAll rest := by
  cases rule
  exact if_neg (ne_true_of_eq_false h)

theorem pruneAll_append (before after : List Rule) :
    pruneAll (before ++ after) = pruneAll before ++ pruneAll after := by
  induction before with
  | nil => rfl
  | cons rule rest ih =>
    cases h : rule.head.enabled with
    | true =>
      rw [List.cons_append, pruneAll_cons_of_enabled rule _ h, pruneAll_cons_of_enabled rule _ h,
        ih, List.cons_append]
    | false =>
      rw [List.cons_append, pruneAll_cons_of_disabled rule _ h,
        pruneAll_cons_of_disabled rule _ h, ih]

end Rule

theorem Group.isEmpty_pruneAll (groups : List Group) :
    (Group.pruneAll groups).isEmpty = groups.isEmpty := by
  cases groups with
  | nil => rfl
  | cons group rest =>
    cases group
    rfl

theorem Rule.kind_pruned (head : RuleHead) (groups : List Group) :
    Rule.kind ⟨head, Group.pruneAll groups⟩ = Rule.kind ⟨head, groups⟩ := by
  simp only [Rule.kind, Group.isEmpty_pruneAll]

/-! ### Reading -/

namespace Reading

theorem groupTags_pruneAll (groupPath rulePath : String) (fields : List Rule) :
    groupTags groupPath rulePath (Rule.pruneAll fields) = groupTags groupPath rulePath fields := by
  unfold groupTags
  induction fields with
  | nil => rfl
  | cons field rest ih =>
    cases h : field.head.enabled with
    | true =>
      rw [Rule.pruneAll_cons_of_enabled field rest h]
      simp only [List.filter_cons, Rule.head_pruned]
      split
      · rw [List.flatMap_cons, List.flatMap_cons, ih, Rule.head_pruned]
      · exact ih
    | false =>
      rw [Rule.pruneAll_cons_of_disabled field rest h, ih, List.filter_cons_of_neg]
      simp only [h, Bool.false_and, Bool.false_eq_true, not_false_eq_true]

mutual

theorem readRule_pruned (setting : Setting) (rule : Rule) (fan : Bool) (record : Marc.Record) :
    readRule setting rule.pruned fan record = readRule setting rule fan record := by
  match rule with
  | ⟨head, groups⟩ =>
    rw [Rule.pruned, readRule, readRule, Rule.kind_pruned,
      readGroups_pruneAll setting head.path groups record]

theorem readGroups_pruneAll (setting : Setting) (rulePath : String) (groups : List Group)
    (record : Marc.Record) :
    readGroups setting rulePath (Group.pruneAll groups) record
      = readGroups setting rulePath groups record := by
  match groups with
  | [] => rfl
  | ⟨order, path, fields⟩ :: rest =>
    have hfields : ∀ scope, readFields setting path rulePath (Rule.pruneAll fields) scope
        = readFields setting path rulePath fields scope := fun scope =>
      readFields_pruneAll setting path rulePath fields scope
    rw [Group.pruneAll, readGroups, readGroups, groupTags_pruneAll,
      readGroups_pruneAll setting rulePath rest record]
    simp only [hfields]

theorem readFields_pruneAll (setting : Setting) (groupPath rulePath : String)
    (fields : List Rule) (record : Marc.Record) :
    readFields setting groupPath rulePath (Rule.pruneAll fields) record
      = readFields setting groupPath rulePath fields record := by
  match fields with
  | [] => rfl
  | field :: rest =>
    have hrest := readFields_pruneAll setting groupPath rulePath rest record
    cases h : field.head.enabled with
    | true =>
      have hfield : fieldValue setting groupPath rulePath record field.pruned
          = fieldValue setting groupPath rulePath record field := by
        rw [fieldValue, fieldValue, readRule_pruned setting field true record, Rule.head_pruned]
      have hpruned : field.pruned.head.enabled = true := by rw [Rule.head_pruned, h]
      rw [Rule.pruneAll_cons_of_enabled field rest h,
        readFields_cons_of_enabled _ _ _ _ _ _ hpruned, readFields_cons_of_enabled _ _ _ _ _ _ h,
        hfield, hrest]
    | false =>
      rw [Rule.pruneAll_cons_of_disabled field rest h, hrest,
        readFields_cons_of_disabled _ _ _ _ _ _ h]

end

end Reading

/-! ### Mapping -/

namespace Mapping

theorem applyRules_pruneAll (setting : Setting) (record : Marc.Record) (rules : List Rule)
    (document : Json) :
    applyRules setting record (Rule.pruneAll rules) document
      = applyRules setting record rules document := by
  unfold applyRules
  induction rules generalizing document with
  | nil => rfl
  | cons rule rest ih =>
    cases h : rule.head.enabled with
    | true =>
      have hrule : applyRule setting record document rule.pruned
          = applyRule setting record document rule := by
        simp only [applyRule, Rule.head_pruned, Reading.read, Reading.readRule_pruned]
      rw [Rule.pruneAll_cons_of_enabled rule rest h, List.foldlM_cons, List.foldlM_cons, hrule]
      exact congrArg _ (funext ih)
    | false =>
      have hrule : applyRule setting record document rule = .ok document := by
        simp only [applyRule, h, Bool.false_eq_true, if_false]
      rw [Rule.pruneAll_cons_of_disabled rule rest h, List.foldlM_cons, hrule]
      exact ih document

theorem any_pruneAll (test : RuleHead → Bool) (rules : List Rule)
    (h : (Rule.pruneAll rules).any (fun rule => test rule.head) = true) :
    rules.any (fun rule => test rule.head) = true := by
  induction rules with
  | nil => exact h
  | cons rule rest ih =>
    rw [List.any_cons, Bool.or_eq_true]
    cases henabled : rule.head.enabled with
    | true =>
      rw [Rule.pruneAll_cons_of_enabled rule rest henabled, List.any_cons, Bool.or_eq_true,
        Rule.head_pruned] at h
      exact h.imp id ih
    | false =>
      rw [Rule.pruneAll_cons_of_disabled rule rest henabled] at h
      exact Or.inr (ih h)

theorem any_groups_pruneAll (test : RuleHead → Bool) (groups : List Group)
    (h : (Group.pruneAll groups).any (fun group => group.fields.any fun rule => test rule.head)
      = true) :
    groups.any (fun group => group.fields.any fun rule => test rule.head) = true := by
  induction groups with
  | nil => exact h
  | cons group rest ih =>
    obtain ⟨order, path, fields⟩ := group
    rw [Group.pruneAll, List.any_cons, Bool.or_eq_true] at h
    rw [List.any_cons, Bool.or_eq_true]
    exact h.imp (any_pruneAll test fields) ih

theorem isAbout_of_pruned (field : String) (rule : Rule)
    (h : isAbout field rule.pruned = true) : isAbout field rule = true := by
  obtain ⟨head, groups⟩ := rule
  simp only [isAbout, Rule.pruned, Bool.or_eq_true] at h ⊢
  exact h.imp id (any_groups_pruneAll (fun nested => decide (nested.fieldName = field)) groups)

/-- The rule that is held back for the field, if there is one, has the name itself or by a field
rule that is enabled. -/
def HeldByEnabled (field : String) (rules : List Rule) : Prop :=
  ∀ before held after, heldBack? field rules = some (before, held, after) →
    isAbout field held.pruned = true

theorem heldBack?_cons_of_held (field : String) (rule : Rule) (rest : List Rule)
    (h : (rule.head.enabled && isAbout field rule) = true) :
    heldBack? field (rule :: rest) = some ([], rule, rest) := if_pos h

theorem heldBack?_cons_of_not_held (field : String) (rule : Rule) (rest : List Rule)
    (h : (rule.head.enabled && isAbout field rule) = false) :
    heldBack? field (rule :: rest)
      = (heldBack? field rest).map fun (before, held, after) => (rule :: before, held, after) :=
  if_neg (ne_true_of_eq_false h)

def pruneCut : List Rule × Rule × List Rule → List Rule × Rule × List Rule
  | (before, held, after) => (Rule.pruneAll before, held.pruned, Rule.pruneAll after)

theorem heldBack?_pruneAll (field : String) (rules : List Rule)
    (h : HeldByEnabled field rules) :
    heldBack? field (Rule.pruneAll rules) = (heldBack? field rules).map pruneCut := by
  induction rules with
  | nil => rfl
  | cons rule rest ih =>
    cases htest : rule.head.enabled && isAbout field rule with
    | true =>
      have hcut := heldBack?_cons_of_held field rule rest htest
      have henabled := (Bool.and_eq_true_iff.1 htest).1
      have hpruned : (rule.pruned.head.enabled && isAbout field rule.pruned) = true := by
        rw [Rule.head_pruned, henabled, h [] rule rest hcut, Bool.true_and]
      rw [hcut, Rule.pruneAll_cons_of_enabled rule rest henabled,
        heldBack?_cons_of_held field _ _ hpruned]
      rfl
    | false =>
      have hcut := heldBack?_cons_of_not_held field rule rest htest
      have hrest := ih fun before held after hheld =>
        h (rule :: before) held after (by rw [hcut, hheld]; rfl)
      rw [hcut, Option.map_map]
      cases henabled : rule.head.enabled with
      | true =>
        have hname : isAbout field rule.pruned = false := by
          rw [Bool.eq_false_iff]
          intro habout
          rw [henabled, isAbout_of_pruned field rule habout] at htest
          cases htest
        have hpruned : (rule.pruned.head.enabled && isAbout field rule.pruned) = false := by
          rw [hname, Bool.and_false]
        rw [Rule.pruneAll_cons_of_enabled rule rest henabled,
          heldBack?_cons_of_not_held field _ _ hpruned, hrest, Option.map_map]
        congr 1
        funext ⟨before, held, after⟩
        simp only [Function.comp_apply, pruneCut, Rule.pruneAll_cons_of_enabled rule before henabled]
      | false =>
        rw [Rule.pruneAll_cons_of_disabled rule rest henabled, hrest]
        congr 1
        funext ⟨before, held, after⟩
        simp only [Function.comp_apply, pruneCut,
          Rule.pruneAll_cons_of_disabled rule before henabled]

theorem mapRules_pruneAll (setting : Setting) (entity : Entity) (rules : List Rule)
    (record : Marc.Record) (document : Json)
    (hheld : entity = .holdings → HeldByEnabled setting.config.groupingField rules) :
    mapRules setting entity (Rule.pruneAll rules) record document
      = mapRules setting entity rules record document := by
  unfold mapRules
  cases entity with
  | holdings =>
    simp only [Entity.expansion, heldBack?_pruneAll _ rules (hheld rfl), applyRules_pruneAll]
    cases heldBack? setting.config.groupingField rules with
    | none => rfl
    | some cut =>
      obtain ⟨before, held, after⟩ := cut
      simp only [Option.map_some, pruneCut, ← Rule.pruneAll_append, applyRules_pruneAll,
        Reading.readAll, Reading.readRule_pruned]
  | _ => simp only [Entity.expansion, applyRules_pruneAll]

/-- A profile maps as it does without the rules that are not enabled, at the top and in groups of
any depth. -/
theorem map_pruned (setting : Setting) (entity : Entity) (profile : Profile)
    (record : Marc.Record) (document : Json)
    (hheld : entity = .holdings → ∀ rules, profile.rules? = some rules →
      HeldByEnabled setting.config.groupingField rules) :
    map setting entity profile.pruned record document
      = map setting entity profile record document := by
  obtain ⟨rules?⟩ := profile
  cases rules? with
  | none => rfl
  | some rules =>
    exact mapRules_pruneAll setting entity rules record document fun hholdings =>
      hheld hholdings rules rfl

/-- Rules that are not enabled stand in the way nowhere: neither a location before the one that
counts nor a required field that no item has. -/
theorem disabled_rules_make_no_difference :
    let setting : Setting := ⟨default, {}, fun _ => "2000-01-01"⟩
    let missing : Rule :=
      ⟨{ path := "holdings.notes[].kind", expression := some "999$a", enabled := false,
         required := true }, []⟩
    let rules : List Rule :=
      [(⟨{ path := "holdings.permanentLocationId", expression := some "852$x",
           enabled := false }, []⟩ : Rule),
        Rule.ofGroups "holdings.notes[]" .extendExisting
          [⟨0, "holdings.notes[]", [missing, Rule.ofExpression "holdings.notes[].note" "852$z"]⟩],
        Rule.ofExpression "holdings.permanentLocationId" "852$b"]
    let record : Marc.Record := ⟨"", [],
      [⟨"852", ' ', ' ', [⟨'b', "main"⟩, ⟨'x', "annex"⟩, ⟨'z', "fragile"⟩]⟩]⟩
    let mapped : Mapped :=
      ⟨[.obj [("holdings", .obj [("notes", .arr [.obj [("note", .str "fragile")]]),
        ("permanentLocationId", .str "main")])]], ["main"]⟩
    HeldByEnabled setting.config.groupingField rules ∧
      map setting .holdings ⟨some rules⟩ record .null = .ok mapped ∧
      map setting .holdings (Profile.pruned ⟨some rules⟩) record .null = .ok mapped := by
  intro setting missing rules record mapped
  have hheld : HeldByEnabled setting.config.groupingField rules := by
    intro before held after h
    have hcut : heldBack? setting.config.groupingField rules
        = some (rules.take 2, Rule.ofExpression "holdings.permanentLocationId" "852$b", []) := by
      unfold rules missing setting
      rfl
    rw [hcut] at h
    cases h
    rfl
  have hmap : map setting .holdings ⟨some rules⟩ record .null = .ok mapped := by
    unfold mapped record rules missing setting
    with_unfolding_all rfl
  refine ⟨hheld, hmap, ?_⟩
  rw [map_pruned setting .holdings ⟨some rules⟩ record .null]
  · exact hmap
  · intro _ all hall
    cases hall
    exact hheld

/-- A rule with groups is held back for the sake of a field that is not enabled: its notes get lost
and the rule that does read the location splits nothing. -/
theorem disabled_field_holds_rule_back :
    let setting : Setting := ⟨default, {}, fun _ => "2000-01-01"⟩
    let location : Rule :=
      ⟨{ path := "holdings.notes[].permanentLocationId", expression := some "852$b",
         enabled := false }, []⟩
    let rules : List Rule :=
      [Rule.ofGroups "holdings.notes[]" .extendExisting
          [⟨0, "holdings.notes[]", [Rule.ofExpression "holdings.notes[].note" "852$z", location]⟩],
        Rule.ofExpression "holdings.permanentLocationId" "852$b"]
    let record : Marc.Record := ⟨"", [],
      [⟨"852", ' ', ' ', [⟨'b', "main"⟩, ⟨'z', "fragile"⟩]⟩]⟩
    map setting .holdings (Profile.pruned ⟨some rules⟩) record .null
        = .ok ⟨[.obj [("holdings", .obj [("notes", .arr [.obj [("note", .str "fragile")]]),
            ("permanentLocationId", .str "main")])]], ["main"]⟩ ∧
      map setting .holdings ⟨some rules⟩ record .null
        = .ok ⟨[.obj [("holdings", .obj [("permanentLocationId", .str "main")])]], []⟩ ∧
      map setting .holdings (Profile.pruned ⟨some rules⟩) record .null
        ≠ map setting .holdings ⟨some rules⟩ record .null := by
  intro setting location rules record
  have hpruned : map setting .holdings (Profile.pruned ⟨some rules⟩) record .null
      = .ok ⟨[.obj [("holdings", .obj [("notes", .arr [.obj [("note", .str "fragile")]]),
          ("permanentLocationId", .str "main")])]], ["main"]⟩ := by
    unfold record rules location setting
    with_unfolding_all rfl
  have hmap : map setting .holdings ⟨some rules⟩ record .null
      = .ok ⟨[.obj [("holdings", .obj [("permanentLocationId", .str "main")])]], []⟩ := by
    unfold record rules location setting
    with_unfolding_all rfl
  refine ⟨hpruned, hmap, ?_⟩
  rw [hpruned, hmap]
  intro h
  rw [Except.ok.injEq, Mapped.mk.injEq] at h
  cases h.2

end Mapping

end Crosswalk
