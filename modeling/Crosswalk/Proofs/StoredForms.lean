import Crosswalk.Config
import Crosswalk.Parameters
import Crosswalk.Proofs.StoredRules

/-!
# Stored settings are read back

Configurations and parameters are read back from their JSON forms as profiles are. None
of them nests deep, so they are read back from their texts whatever they hold; for the
text of a profile the limit of depth counts.
-/

namespace Crosswalk

/-! ### Configurations -/

namespace Config

theorem slots?_toJson (config : Config) :
    config.toJson.slots? ["holdingsGroupingField", "acceptedValueRequiredFields", "datePatterns"]
      = some [some (.str config.groupingField), some (.arr (config.acceptedOnly.map .str)),
          some (.arr (config.datePatterns.map .str))] := by
  rw [toJson, Json.slots?_of_distinct _ _ (by simp [Entries.Distinct, Entries.keys])]
  rfl

theorem ofJson?_toJson (config : Config) : ofJson? config.toJson = some config := by
  simp [ofJson?, slots?_toJson, Json.orElse, Json.string?, Json.list?_strings]

theorem ofText_toJson (config : Config) : ofText config.toJson.text = .ok config := by
  have hlegible : config.toJson.Legible :=
    ⟨trivial, Json.legibleItems_strings config.acceptedOnly,
      Json.legibleItems_strings config.datePatterns, trivial⟩
  have hdepth : config.toJson.depth ≤ Json.depthLimit := by
    simp [toJson, Json.depth, Json.depthOfMembers, Json.depthOfItems_strings, Json.depthLimit]
  rw [ofText, Json.skim?_text config.toJson hlegible hdepth, Option.bind_some, ofJson?_toJson]

end Config

/-! ### Parameters -/

namespace ReferenceRow

theorem toJson_eq (row : ReferenceRow) :
    row.toJson = .obj ([("id", .str row.id)] ++ optionalMember "code" .str row.code
      ++ [("name", .str row.name)]) := by
  rw [toJson]
  cases row.code <;> rfl

theorem ofJson?_toJson (row : ReferenceRow) : ofJson? row.toJson = some row := by
  have hdistinct : Entries.Distinct ([("id", Json.str row.id)]
      ++ optionalMember "code" .str row.code ++ [("name", Json.str row.name)]) := by
    cases row.code <;> simp [Entries.Distinct, Entries.keys, optionalMember]
  have hslots := Json.slots?_of_distinct ["id", "code", "name"] _ hdistinct
  simp only [ofJson?, toJson_eq, hslots]
  simp [Entries.get?_append, get?_optionalMember, Entries.get?, Json.required, Json.string?,
    Json.optional_string]

theorem depth_toJson (row : ReferenceRow) : row.toJson.depth = 1 := by
  rw [toJson]
  cases row.code <;> rfl

theorem legible_toJson (row : ReferenceRow) : row.toJson.Legible := by
  rw [toJson]
  cases row.code <;> simp [Json.Legible, Json.LegibleMembers]

end ReferenceRow

namespace Parameters

theorem zoneOfJson?_zoneToJson (zone : Option String) :
    zoneOfJson? (zoneToJson zone) = some zone := by
  cases zone <;> rfl

theorem slots?_toJson (parameters : Parameters) :
    parameters.toJson.slots? ["tables", "tenantConfiguration"]
      = some [some (.obj (parameters.tables.map fun table =>
          (table.1, .arr (table.2.map ReferenceRow.toJson)))),
          some (zoneToJson parameters.zoneName)] := by
  rw [toJson, Json.slots?_of_distinct _ _ (by simp [Entries.Distinct, Entries.keys])]
  rfl

theorem ofJson?_toJson (parameters : Parameters) (h : Entries.Distinct parameters.tables) :
    ofJson? parameters.toJson = some parameters := by
  have htables := Json.table?_map (Json.list? ReferenceRow.ofJson?)
    (fun rows => .arr (rows.map ReferenceRow.toJson)) parameters.tables h fun table _ =>
      Json.list?_map ReferenceRow.ofJson? ReferenceRow.toJson table.2 fun row _ =>
        row.ofJson?_toJson
  simp [ofJson?, slots?_toJson, Json.orElse, htables, zoneOfJson?_zoneToJson]

theorem distinct_of_ofJson? (value : Json) (parameters : Parameters)
    (h : ofJson? value = some parameters) : Entries.Distinct parameters.tables := by
  simp only [ofJson?, Option.bind_eq_bind, Option.bind_eq_some_iff] at h
  obtain ⟨slots, -, h⟩ := h
  split at h
  · simp only [Option.bind_eq_some_iff, Option.some.injEq] at h
    obtain ⟨tables, htables, zone, -, rfl⟩ := h
    exact Json.distinct_of_orElse_table? _ _ tables htables
  · cases h

theorem legible_tables (tables : List (String × List ReferenceRow)) :
    Json.LegibleMembers (tables.map fun table =>
      (table.1, .arr (table.2.map ReferenceRow.toJson))) := by
  rw [Json.legibleMembers_iff, List.forall_mem_map]
  intro table _
  rw [Json.Legible, Json.legibleItems_iff, List.forall_mem_map]
  exact fun row _ => row.legible_toJson

theorem depth_tables (tables : List (String × List ReferenceRow)) :
    Json.depthOfMembers (tables.map fun table =>
      (table.1, .arr (table.2.map ReferenceRow.toJson))) ≤ 2 := by
  rw [Json.depthOfMembers_le, List.forall_mem_map]
  intro table _
  rw [Json.depth, Nat.add_le_add_iff_right, Json.depthOfItems_le, List.forall_mem_map]
  exact fun row _ => Nat.le_of_eq row.depth_toJson

theorem legible_zoneToJson (zone : Option String) : (zoneToJson zone).Legible := by
  cases zone <;> simp [zoneToJson, Json.Legible, Json.LegibleMembers]

theorem depth_zoneToJson (zone : Option String) : (zoneToJson zone).depth = 1 := by
  cases zone <;> rfl

theorem ofText_toJson (parameters : Parameters) (h : Entries.Distinct parameters.tables) :
    ofText parameters.toJson.text = .ok parameters := by
  have hlegible : parameters.toJson.Legible :=
    ⟨legible_tables parameters.tables, legible_zoneToJson parameters.zoneName, trivial⟩
  have htables := depth_tables parameters.tables
  have hzone := depth_zoneToJson parameters.zoneName
  have hdepth : parameters.toJson.depth ≤ Json.depthLimit := by
    simp only [toJson, Json.depth, Json.depthOfMembers, Json.depthLimit] at htables ⊢
    omega
  rw [ofText, Json.skim?_text parameters.toJson hlegible hdepth, Option.bind_some, ofJson?_toJson _ h]

end Parameters

/-! ### Main result -/

/-- Profiles, configurations and parameters are read back just as they were written, from the
value and, as far as the limit of depth allows, from its text; what has been read once can be written
and read back too. A list of rules makes the same profile as a bare list and under its name, whether
it was written from rules or spelled in any other way that is read as one. -/
theorem written_settings_are_read_back :
    (∀ profile : Profile, profile.Storable →
      Profile.ofJson? profile.toJson = some profile ∧
        (profile.toJson.depth ≤ Json.depthLimit →
          Profile.ofText profile.toJson.text = .ok profile)) ∧
    (∀ value profile, Profile.ofJson? value = some profile → profile.Storable) ∧
    (∀ config : Config,
      Config.ofJson? config.toJson = some config ∧
        Config.ofText config.toJson.text = .ok config) ∧
    (∀ parameters : Parameters, Entries.Distinct parameters.tables →
      Parameters.ofJson? parameters.toJson = some parameters ∧
        Parameters.ofText parameters.toJson.text = .ok parameters) ∧
    (∀ value parameters, Parameters.ofJson? value = some parameters →
      Entries.Distinct parameters.tables) ∧
    (∀ rules : List Rule, Rule.AllStorable rules →
      Profile.ofJson? (.arr (Rule.toJsons rules)) = some ⟨some rules⟩ ∧
        Profile.ofJson? (.obj [("mappingRules", .arr (Rule.toJsons rules))])
          = some ⟨some rules⟩ ∧
        ((Json.obj [("mappingRules", .arr (Rule.toJsons rules))]).depth ≤ Json.depthLimit →
          Profile.ofText (Json.arr (Rule.toJsons rules)).text = .ok ⟨some rules⟩ ∧
            Profile.ofText (Json.obj [("mappingRules", .arr (Rule.toJsons rules))]).text
              = .ok ⟨some rules⟩)) ∧
    ∀ (bare : Json) (rules : List Rule), Json.list? Rule.ofJson? bare = some rules →
      Profile.ofJson? bare = some ⟨some rules⟩ ∧
        Profile.ofJson? (.obj [("mappingRules", bare)]) = some ⟨some rules⟩ := by
  refine ⟨?profiles, Profile.storable_of_ofJson?, ?configurations, ?parameters,
    Parameters.distinct_of_ofJson?, ?lists, ?spelled⟩
  case profiles =>
    intro profile hstorable
    have hread := profile.ofJson?_toJson hstorable
    exact ⟨hread, fun hdepth =>
      Profile.ofText_text profile.toJson profile (profile.legible_toJson hstorable) hdepth hread⟩
  case configurations => exact fun config => ⟨config.ofJson?_toJson, config.ofText_toJson⟩
  case parameters =>
    exact fun parameters h => ⟨parameters.ofJson?_toJson h, parameters.ofText_toJson h⟩
  case lists =>
    intro rules hstorable
    have hlist := Rule.list?_toJsons rules hstorable
    have hlegible := Rule.legible_toJsons rules hstorable
    have hbare := Profile.ofJson?_of_list? _ rules hlist
    have hwrapped := Profile.ofJson?_wrapped_of_list? _ rules hlist
    refine ⟨hbare, hwrapped, fun hdepth => ⟨?_, ?_⟩⟩
    · have hless : (Json.arr (Rule.toJsons rules)).depth ≤ Json.depthLimit := by
        rw [Json.depth, Json.depthOfMembers] at hdepth
        omega
      exact Profile.ofText_text _ _ hlegible hless hbare
    · exact Profile.ofText_text _ _ ⟨hlegible, trivial⟩ hdepth hwrapped
  case spelled =>
    exact fun bare rules h =>
      ⟨Profile.ofJson?_of_list? bare rules h, Profile.ofJson?_wrapped_of_list? bare rules h⟩

def statementRule : Rule :=
  ⟨{ path := "holdings.holdingsStatements[]", policy := some .extendExisting },
    [⟨-1, "holdings.holdingsStatements[]",
      [⟨{ path := "holdings.holdingsStatements[].statement", expression := some "866$a \"; \" $z",
          required := true, accepted := [("b2", "Bound (B)"), ("a1", "Alone (A)")] }, []⟩]⟩]⟩

def shelfTables : Parameters :=
  { tables := [("locations", [⟨"l2", some "MAIN", "Main Library"⟩, ⟨"l1", none, "Annex"⟩]),
      ("itemTypes", [])],
    zoneName := some "Europe/Berlin" }

theorem statement_rule_is_read_back :
    Rule.AllStorable [statementRule] ∧ Entries.Distinct shelfTables.tables ∧
      Profile.ofText (Profile.mk (some [statementRule])).toJson.text
        = .ok ⟨some [statementRule]⟩ ∧
      Profile.ofText (Json.arr (Rule.toJsons [statementRule])).text
        = .ok ⟨some [statementRule]⟩ ∧
      Parameters.ofText shelfTables.toJson.text = .ok shelfTables := by
  have hstorable : Rule.AllStorable [statementRule] := by
    simp [Rule.AllStorable, Rule.Storable, Group.AllStorable, Group.Storable, statementRule,
      Entries.Distinct, Entries.keys]
  have hdistinct : Entries.Distinct shelfTables.tables := by
    simp [shelfTables, Entries.Distinct, Entries.keys]
  have hdepth : (Profile.mk (some [statementRule])).toJson.depth ≤ Json.depthLimit := by decide
  obtain ⟨hprofiles, -, -, hparameters, -, hlists, -⟩ := written_settings_are_read_back
  exact ⟨hstorable, hdistinct, (hprofiles ⟨some [statementRule]⟩ hstorable).2 hdepth,
    ((hlists _ hstorable).2.2 hdepth).1, (hparameters _ hdistinct).2⟩

end Crosswalk
