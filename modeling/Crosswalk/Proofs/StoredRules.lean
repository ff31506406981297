import Crosswalk.Proofs.Forms
import Crosswalk.Rule.Form

/-!
# Stored rules are read back

The parts of a rule that are left out on writing are those for which an empty slot stands
on reading, so a written rule fills the slots of a rule with just its parts. Rules and
groups contain each other; reading goes as deep as the value nests, and along the way
down every group and every field rule is found with enough depth left. A profile is read
from the bare list of its rules as well as from the list under its name.
-/

namespace Crosswalk

variable {α : Type}

/-! ### What can be stored -/

-- Tables of accepted values are ordered maps and orders are integers of 32 bits wherever a rule comes
-- from, so these conditions leave out nothing that a rule can hold (`storable_of_ofJson?`).
mutual

/-- No table of accepted values in the rule, or in its groups at any depth, names an identifier
twice, and the order of every group is an integer of 32 bits. -/
def Rule.Storable : Rule → Prop
  | ⟨head, groups⟩ => Entries.Distinct head.accepted ∧ Group.AllStorable groups

def Group.Storable : Group → Prop
  | ⟨order, _, fields⟩ => (-2147483648 ≤ order ∧ order ≤ 2147483647) ∧ Rule.AllStorable fields

def Group.AllStorable : List Group → Prop
  | [] => True
  | group :: rest => group.Storable ∧ Group.AllStorable rest

def Rule.AllStorable : List Rule → Prop
  | [] => True
  | rule :: rest => rule.Storable ∧ Rule.AllStorable rest

end

theorem Group.storable_iff (group : Group) :
    group.Storable ↔ (-2147483648 ≤ group.order ∧ group.order ≤ 2147483647) ∧
      Rule.AllStorable group.fields := by
  cases group
  rfl

theorem Rule.allStorable_iff (rules : List Rule) :
    Rule.AllStorable rules ↔ ∀ rule ∈ rules, rule.Storable := by
  induction rules with
  | nil => simp [Rule.AllStorable]
  | cons rule rest ih => rw [Rule.AllStorable, ih, List.forall_mem_cons]

theorem Group.allStorable_iff (groups : List Group) :
    Group.AllStorable groups ↔ ∀ group ∈ groups, group.Storable := by
  induction groups with
  | nil => simp [Group.AllStorable]
  | cons group rest ih => rw [Group.AllStorable, ih, List.forall_mem_cons]

/-! ### Members that may be left out -/

theorem get?_optionalMember (field key : String) (write : α → Json) (part : Option α) :
    Entries.get? field (optionalMember key write part)
      = if key = field then part.map write else none := by
  cases part <;> simp [optionalMember, Entries.get?]

theorem keys_optionalMember (key : String) (write : α → Json) (part : Option α) :
    (Entries.keys (optionalMember key write part)).Sublist [key] := by
  cases part <;> simp [optionalMember, Entries.keys]

theorem unlessEmpty_eq_optionalMember (key : String) (empty : Bool) (value : Json) :
    (if empty then [] else [(key, value)])
      = optionalMember key id (if empty then none else some value) := by
  cases empty <;> rfl

/-! ### Rules -/

theorem Rule.toJson_eq (head : RuleHead) (groups : List Group) :
    Rule.toJson ⟨head, groups⟩ = .obj
      ([("path", .str head.path)]
        ++ optionalMember "name" .str head.name
        ++ optionalMember "value" .str head.expression
        ++ [("enabled", .bool head.enabled), ("required", .bool head.required)]
        ++ optionalMember "booleanFieldAction" (fun a => .str a.name) head.boolAction
        ++ optionalMember "repeatableFieldAction" (fun p => .str p.name) head.policy
        ++ optionalMember "subfields" id
          (if groups.isEmpty then none else some (.arr (Group.toJsons groups)))
        ++ optionalMember "acceptedValues" id
          (if head.accepted.isEmpty then none else some (textTable head.accepted))) := by
  rw [Rule.toJson, unlessEmpty_eq_optionalMember, unlessEmpty_eq_optionalMember]

theorem Rule.slots?_toJson (head : RuleHead) (groups : List Group) :
    (Rule.toJson ⟨head, groups⟩).slots? Rule.fieldNames = some
      [some (.str head.path), head.name.map .str, head.expression.map .str,
       some (.bool head.enabled), some (.bool head.required),
       head.boolAction.map fun a => .str a.name, head.policy.map fun p => .str p.name,
       if groups.isEmpty then none else some (.arr (Group.toJsons groups)),
       if head.accepted.isEmpty then none else some (textTable head.accepted)] := by
  have hnames : Rule.fieldNames = ["path"] ++ ["name"] ++ ["value"] ++ ["enabled", "required"]
      ++ ["booleanFieldAction"] ++ ["repeatableFieldAction"] ++ ["subfields"]
      ++ ["acceptedValues"] := rfl
  have hnodup : Rule.fieldNames.Nodup := by decide
  rw [Rule.toJson_eq, Json.slots?_of_distinct]
  · simp [Rule.fieldNames, Entries.get?_append, get?_optionalMember, Entries.get?]
  · refine List.Nodup.sublist ?_ hnodup
    rw [hnames]
    simp only [Entries.keys, List.map_append]
    repeat' apply List.Sublist.append
    all_goals first | exact List.Sublist.refl _ | exact keys_optionalMember _ _ _

theorem orElse_textTable (table : List (String × String)) (h : Entries.Distinct table) :
    Json.orElse [] (Json.table? Json.string?)
        (if table.isEmpty then none else some (textTable table)) = some table :=
  Json.orElse_nil _ _ table (Json.table?_map Json.string? .str table h fun _ _ => rfl)

def Group.toJson (group : Group) : Json :=
  .obj
    [("order", .num (.int group.order)), ("path", .str group.path),
     ("fields", .arr (Rule.toJsons group.fields))]

theorem Group.toJsons_cons (group : Group) (rest : List Group) :
    Group.toJsons (group :: rest) = group.toJson :: Group.toJsons rest := by
  cases group
  rfl

theorem Rule.depth_groups (head : RuleHead) (groups : List Group) (n : Nat)
    (h : (Rule.toJson ⟨head, groups⟩).depth ≤ n + 1) :
    Json.depthOfItems (Group.toJsons groups) ≤ n := by
  cases groups with
  | nil => exact Nat.zero_le n
  | cons group rest =>
    rw [Rule.toJson, Json.depth, Nat.add_le_add_iff_right, Json.depthOfMembers_le] at h
    have hgroups := h ("subfields", .arr (Group.toJsons (group :: rest))) (by simp)
    rw [Json.depth] at hgroups
    omega

theorem Group.depth_fields (group : Group) (n : Nat) (h : group.toJson.depth ≤ n + 1) :
    Json.depthOfItems (Rule.toJsons group.fields) ≤ n := by
  rw [Group.toJson, Json.depth, Nat.add_le_add_iff_right, Json.depthOfMembers_le] at h
  have hfields := h ("fields", .arr (Rule.toJsons group.fields)) (by simp)
  rw [Json.depth] at hfields
  omega

theorem Rule.depth_toJson_pos (rule : Rule) : 0 < rule.toJson.depth := by
  obtain ⟨head, groups⟩ := rule
  rw [Rule.toJson, Json.depth]
  exact Nat.succ_pos _

theorem Group.ofJsonWithin?_toJson (group : Group) (fuel : Nat)
    (hgroup : group.Storable)
    (hfields : (Rule.toJsons group.fields).mapM (Rule.ofJsonWithin? fuel) = some group.fields) :
    Group.ofJsonWithin? (fuel + 1) group.toJson = some group := by
  have hslots : group.toJson.slots? ["order", "path", "fields"]
      = some [some (.num (.int group.order)), some (.str group.path),
          some (.arr (Rule.toJsons group.fields))] := by
    rw [Group.toJson, Json.slots?_of_distinct _ _ (by simp [Entries.Distinct, Entries.keys])]
    rfl
  have hint : Json.int32? (.num (.int group.order)) = some group.order := by
    rw [Json.int32?, if_pos ((Group.storable_iff group).1 hgroup).1]
  have hlist : Json.list? (Rule.ofJsonWithin? fuel) (.arr (Rule.toJsons group.fields))
      = some group.fields := hfields
  simp only [Group.ofJsonWithin?, hslots, Json.orElse, Json.required, Json.string?, hint, hlist,
    Option.bind_eq_bind, Option.bind_some]
  cases group
  rfl

-- The induction is along the rules and groups. The fuel only has to last for the depth of the value,
-- so it may stay the same from one item of a list to the next.
mutual

/-- A written rule is read back by every reading that goes as deep as it nests. -/
theorem Rule.ofJsonWithin?_toJson (rule : Rule) (fuel : Nat) (hrule : rule.Storable)
    (hfuel : rule.toJson.depth ≤ fuel) : Rule.ofJsonWithin? fuel rule.toJson = some rule := by
  match rule, fuel with
  | rule, 0 => exact absurd rule.depth_toJson_pos (by omega)
  | ⟨head, groups⟩, fuel + 1 =>
    have hlist := Group.mapM_toJsons groups fuel hrule.2 (Rule.depth_groups head groups fuel hfuel)
    have hgroups := Json.orElse_nil (Json.list? (Group.ofJsonWithin? fuel))
      (.arr (Group.toJsons groups)) groups hlist
    have haccepted := orElse_textTable head.accepted hrule.1
    have hboolAction := Json.optional_choice BoolAction.names BoolAction.name head.boolAction
      BoolAction.get?_names
    have hpolicy := Json.optional_choice Policy.names Policy.name head.policy Policy.get?_names
    have hpath : Json.required Json.string? (some (.str head.path)) = some head.path := rfl
    have hflag (default flag : Bool) :
        Json.orElse default Json.bool? (some (.bool flag)) = some flag := rfl
    simp only [Rule.ofJsonWithin?, Rule.slots?_toJson, Option.bind_eq_bind, Option.bind_some, hpath,
      hflag, Json.optional_string, hboolAction, hpolicy, haccepted, hgroups]

theorem Group.mapM_toJsons (groups : List Group) (fuel : Nat) (hgroups : Group.AllStorable groups)
    (hfuel : Json.depthOfItems (Group.toJsons groups) ≤ fuel) :
    (Group.toJsons groups).mapM (Group.ofJsonWithin? fuel) = some groups := by
  match groups, fuel with
  | [], _ => rfl
  | group :: rest, 0 =>
    rw [Group.toJsons_cons, Json.depthOfItems, Nat.max_le, Group.toJson, Json.depth] at hfuel
    omega
  | ⟨order, path, fields⟩ :: rest, fuel + 1 =>
    rw [Group.toJsons_cons, Json.depthOfItems, Nat.max_le] at hfuel
    have hlist := Rule.mapM_toJsons fields fuel hgroups.1.2 (Group.depth_fields _ fuel hfuel.1)
    have hgroup := Group.ofJsonWithin?_toJson ⟨order, path, fields⟩ fuel hgroups.1 hlist
    have hothers := Group.mapM_toJsons rest (fuel + 1) hgroups.2 hfuel.2
    rw [Group.toJsons_cons, List.mapM_cons, hgroup, hothers]
    rfl

theorem Rule.mapM_toJsons (rules : List Rule) (fuel : Nat) (hrules : Rule.AllStorable rules)
    (hfuel : Json.depthOfItems (Rule.toJsons rules) ≤ fuel) :
    (Rule.toJsons rules).mapM (Rule.ofJsonWithin? fuel) = some rules := by
  match rules with
  | [] => rfl
  | rule :: rest =>
    rw [Rule.toJsons, Json.depthOfItems, Nat.max_le] at hfuel
    have hrule := Rule.ofJsonWithin?_toJson rule fuel hrules.1 hfuel.1
    have hrest := Rule.mapM_toJsons rest fuel hrules.2 hfuel.2
    rw [Rule.toJsons, List.mapM_cons, hrule, hrest]
    rfl

end

/-! ### Lists of rules -/

theorem Rule.toJsons_eq_map (rules : List Rule) : Rule.toJsons rules = rules.map Rule.toJson := by
  induction rules with
  | nil => rfl
  | cons rule rest ih => rw [Rule.toJsons, ih, List.map_cons]

theorem Rule.ofJson?_toJson (rule : Rule) (h : rule.Storable) :
    Rule.ofJson? rule.toJson = some rule :=
  Rule.ofJsonWithin?_toJson rule rule.toJson.depth h (Nat.le_refl _)

theorem Rule.list?_toJsons (rules : List Rule) (h : Rule.AllStorable rules) :
    Json.list? Rule.ofJson? (.arr (Rule.toJsons rules)) = some rules := by
  rw [Rule.toJsons_eq_map]
  exact Json.list?_map Rule.ofJson? Rule.toJson rules fun rule hrule =>
    Rule.ofJson?_toJson rule ((Rule.allStorable_iff rules).1 h rule hrule)

/-! ### What has been read can be stored -/

theorem Rule.storable_of_groups (fuel : Nat) (value : Json) (rule : Rule)
    (hgroups : ∀ value group, Group.ofJsonWithin? fuel value = some group → group.Storable)
    (h : Rule.ofJsonWithin? (fuel + 1) value = some rule) : rule.Storable := by
  simp only [Rule.ofJsonWithin?, Option.bind_eq_bind, Option.bind_eq_some_iff] at h
  obtain ⟨slots, -, h⟩ := h
  split at h
  · simp only [Option.bind_eq_some_iff, Option.some.injEq] at h
    obtain ⟨path, -, name, -, expression, -, enabled, -, required, -, boolAction, -, policy, -,
      accepted, haccepted, groups, hlist, rfl⟩ := h
    refine ⟨Json.distinct_of_orElse_table? _ _ _ haccepted, (Group.allStorable_iff groups).2 ?_⟩
    exact Json.forall_of_orElse_list? _ _ hgroups _ _ hlist
  · cases h

theorem Group.storable_of_rules (fuel : Nat) (value : Json) (group : Group)
    (hrules : ∀ value rule, Rule.ofJsonWithin? fuel value = some rule → rule.Storable)
    (h : Group.ofJsonWithin? (fuel + 1) value = some group) : group.Storable := by
  simp only [Group.ofJsonWithin?, Option.bind_eq_bind, Option.bind_eq_some_iff] at h
  obtain ⟨slots, -, h⟩ := h
  split at h
  · simp only [Option.bind_eq_some_iff, Option.some.injEq] at h
    obtain ⟨order, horder, path, -, fields, hlist, rfl⟩ := h
    refine ⟨Json.range_of_orElse_int32? _ _ horder, (Rule.allStorable_iff fields).2 ?_⟩
    exact Json.forall_of_orElse_list? _ _ hrules _ _ hlist
  · cases h

theorem storable_of_ofJsonWithin? (fuel : Nat) :
    (∀ value rule, Rule.ofJsonWithin? fuel value = some rule → rule.Storable) ∧
      ∀ value group, Group.ofJsonWithin? fuel value = some group → group.Storable := by
  induction fuel with
  | zero =>
    constructor
    · intro value rule h
      rw [Rule.ofJsonWithin?] at h
      cases h
    · intro value group h
      rw [Group.ofJsonWithin?] at h
      cases h
  | succ fuel ih =>
    obtain ⟨hrules, hgroups⟩ := ih
    exact ⟨fun value rule => Rule.storable_of_groups fuel value rule hgroups,
      fun value group => Group.storable_of_rules fuel value group hrules⟩

/-! ### Legibility -/

theorem legible_optionalMember (key : String) (write : α → Json) (part : Option α)
    (h : ∀ a, part = some a → (write a).Legible) :
    ∀ m ∈ optionalMember key write part, m.2.Legible := by
  cases part with
  | none => exact List.forall_mem_nil _
  | some a => simpa [optionalMember] using h a rfl

theorem legible_unlessEmpty (key : String) (empty : Bool) (value : Json) (h : value.Legible) :
    ∀ m ∈ optionalMember key id (if empty then none else some value), m.2.Legible := by
  cases empty with
  | true => exact List.forall_mem_nil _
  | false =>
    refine legible_optionalMember key id (some value) fun a ha => ?_
    cases ha
    exact h

theorem legible_textTable (table : List (String × String)) : (textTable table).Legible := by
  rw [textTable, Json.Legible, Json.legibleMembers_iff, List.forall_mem_map]
  exact fun _ _ => trivial

mutual

theorem Rule.legible_toJson (rule : Rule) (h : rule.Storable) : rule.toJson.Legible := by
  match rule with
  | ⟨head, groups⟩ =>
    have hgroups := Group.legible_toJsons groups h.2
    rw [Rule.toJson_eq, Json.Legible, Json.legibleMembers_iff]
    simp only [List.forall_mem_append]
    refine ⟨⟨⟨⟨⟨⟨⟨?path, ?name⟩, ?expression⟩, ?flags⟩, ?boolAction⟩, ?policy⟩, ?subfields⟩, ?accepted⟩
    case path => simp [Json.Legible]
    case flags => simp [Json.Legible]
    case subfields => exact legible_unlessEmpty _ _ _ hgroups
    case accepted => exact legible_unlessEmpty _ _ _ (legible_textTable head.accepted)
    all_goals exact legible_optionalMember _ _ _ fun _ _ => trivial

theorem Group.legible_toJsons (groups : List Group) (h : Group.AllStorable groups) :
    Json.LegibleItems (Group.toJsons groups) := by
  match groups with
  | [] => trivial
  | ⟨order, path, fields⟩ :: rest =>
    obtain ⟨⟨horder, hfields⟩, hrest⟩ := h
    have hword : Json.IsWord order := by
      rw [Json.IsWord, Text.wordLimit]
      omega
    exact ⟨⟨hword, trivial, Rule.legible_toJsons fields hfields, trivial⟩,
      Group.legible_toJsons rest hrest⟩

theorem Rule.legible_toJsons (rules : List Rule) (h : Rule.AllStorable rules) :
    Json.LegibleItems (Rule.toJsons rules) := by
  match rules with
  | [] => trivial
  | rule :: rest => exact ⟨Rule.legible_toJson rule h.1, Rule.legible_toJsons rest h.2⟩

end

/-! ### Profiles -/

namespace Profile

def Storable (profile : Profile) : Prop := Rule.AllStorable (profile.rules?.getD [])

theorem ofJson?_of_list? (bare : Json) (rules : List Rule)
    (h : Json.list? Rule.ofJson? bare = some rules) : ofJson? bare = some ⟨some rules⟩ := by
  rw [ofJson?, ofBareJson?, h]
  rfl

theorem ofJson?_wrapped (value : Json) :
    ofJson? (.obj [("mappingRules", value)])
      = (Json.optional (Json.list? Rule.ofJson?) (some value)).map Profile.mk := by
  have hslots : (Json.obj [("mappingRules", value)]).slots? ["mappingRules"] = some [some value] :=
    Json.slots?_of_distinct ["mappingRules"] [("mappingRules", value)]
      (by simp [Entries.Distinct, Entries.keys])
  have hbare : ofBareJson? (.obj [("mappingRules", value)]) = none := rfl
  rw [ofJson?, hbare, Option.none_or, ofWrappedJson?, hslots]
  simp only [Option.bind_eq_bind, Option.bind_some, Option.map_eq_bind, Function.comp_def]

theorem ofJson?_wrapped_of_list? (bare : Json) (rules : List Rule)
    (h : Json.list? Rule.ofJson? bare = some rules) :
    ofJson? (.obj [("mappingRules", bare)]) = some ⟨some rules⟩ := by
  rw [ofJson?_wrapped]
  cases bare with
  | arr items =>
    have hoptional : Json.optional (Json.list? Rule.ofJson?) (some (.arr items))
        = (Json.list? Rule.ofJson? (.arr items)).map some := rfl
    rw [hoptional, h]
    rfl
  | _ => cases h

theorem ofJson?_toJson (profile : Profile) (h : profile.Storable) :
    ofJson? profile.toJson = some profile := by
  obtain ⟨rules⟩ := profile
  cases rules with
  | none => rw [toJson, Option.map_none, Option.getD_none, ofJson?_wrapped]; rfl
  | some rules =>
    exact ofJson?_wrapped_of_list? (.arr (Rule.toJsons rules)) rules (Rule.list?_toJsons rules h)

theorem storable_of_ofJson? (value : Json) (profile : Profile) (h : ofJson? value = some profile) :
    profile.Storable := by
  have hrule (value : Json) (rule : Rule) (hread : Rule.ofJson? value = some rule) :
      rule.Storable := (storable_of_ofJsonWithin? value.depth).1 value rule hread
  have hrules (value : Json) (rules : List Rule)
      (hread : Json.list? Rule.ofJson? value = some rules) : Rule.AllStorable rules :=
    (Rule.allStorable_iff rules).2 (Json.forall_of_list? _ _ hrule value rules hread)
  rw [ofJson?, Option.or_eq_some_iff] at h
  rcases h with hbare | ⟨-, hwrapped⟩
  · obtain ⟨rules, hlist, rfl⟩ := Option.map_eq_some_iff.1 hbare
    exact hrules value rules hlist
  · simp only [ofWrappedJson?, Option.bind_eq_bind, Option.bind_eq_some_iff] at hwrapped
    obtain ⟨slots, -, hwrapped⟩ := hwrapped
    split at hwrapped
    · simp only [Option.bind_eq_some_iff, Option.some.injEq] at hwrapped
      obtain ⟨part, hpart, rfl⟩ := hwrapped
      rcases Json.eq_none_or_exists_of_optional _ _ part hpart with rfl | ⟨list, rules, hlist, rfl⟩
      · trivial
      · exact hrules list rules hlist
    · cases hwrapped

theorem legible_toJson (profile : Profile) (h : profile.Storable) : profile.toJson.Legible := by
  obtain ⟨rules⟩ := profile
  cases rules with
  | none => exact ⟨trivial, trivial⟩
  | some rules => exact ⟨Rule.legible_toJsons rules h, trivial⟩

theorem ofText_text (value : Json) (profile : Profile) (hlegible : value.Legible)
    (hdepth : value.depth ≤ Json.depthLimit) (h : ofJson? value = some profile) :
    ofText value.text = .ok profile := by
  rw [ofText, Json.ofText?_text value hlegible hdepth, Option.bind_some, h]

end Profile

end Crosswalk
