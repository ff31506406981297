import Crosswalk.Error
import Crosswalk.Json.Form
import Crosswalk.Json.Parser
import Crosswalk.Rule.Basic

/-!
# The JSON form of rules and profiles

A rule is written with its path, its flags and whatever else it has; a group
with all its fields. A profile is read from a bare list of rules or from an
object with the list under `mappingRules`, and written as the latter. The list
is tried first. A group lies two containers below its rule and a field rule two
below its group, so the depth of the value bounds how deep the reading goes.
-/

namespace Crosswalk

def Policy.names : List (String × Policy) :=
  [("EXTEND_EXISTING", .extendExisting), ("EXCHANGE_EXISTING", .exchangeExisting),
   ("DELETE_EXISTING", .deleteExisting), ("DELETE_INCOMING", .deleteIncoming)]

def Policy.name : Policy → String
  | extendExisting => "EXTEND_EXISTING"
  | exchangeExisting => "EXCHANGE_EXISTING"
  | deleteExisting => "DELETE_EXISTING"
  | deleteIncoming => "DELETE_INCOMING"

theorem Policy.get?_names (policy : Policy) :
    Entries.get? policy.name Policy.names = some policy := by
  cases policy <;> decide

def BoolAction.names : List (String × BoolAction) :=
  [("ALL_TRUE", .allTrue), ("ALL_FALSE", .allFalse), ("AS_IS", .asIs), ("REMOVE", .remove)]

def BoolAction.name : BoolAction → String
  | allTrue => "ALL_TRUE"
  | allFalse => "ALL_FALSE"
  | asIs => "AS_IS"
  | remove => "REMOVE"

theorem BoolAction.get?_names (action : BoolAction) :
    Entries.get? action.name BoolAction.names = some action := by
  cases action <;> decide

/-! ### Writing -/

def optionalMember {α : Type} (key : String) (write : α → Json) : Option α → List (String × Json)
  | none => []
  | some part => [(key, write part)]

def textTable (table : List (String × String)) : Json :=
  .obj (table.map fun entry => (entry.1, .str entry.2))

mutual

def Rule.toJson : Rule → Json
  | ⟨head, groups⟩ =>
    .obj
      ([("path", .str head.path)]
        ++ optionalMember "name" .str head.name
        ++ optionalMember "value" .str head.expression
        ++ [("enabled", .bool head.enabled), ("required", .bool head.required)]
        ++ optionalMember "booleanFieldAction" (fun a => .str a.name) head.boolAction
        ++ optionalMember "repeatableFieldAction" (fun p => .str p.name) head.policy
        ++ (if groups.isEmpty then [] else [("subfields", .arr (Group.toJsons groups))])
        ++ (if head.accepted.isEmpty then [] else [("acceptedValues", textTable head.accepted)]))

def Group.toJsons : List Group → List Json
  | [] => []
  | ⟨order, path, fields⟩ :: rest =>
    .obj
      [("order", .num (.int order)), ("path", .str path), ("fields", .arr (Rule.toJsons fields))]
      :: Group.toJsons rest

def Rule.toJsons : List Rule → List Json
  | [] => []
  | rule :: rest => rule.toJson :: Rule.toJsons rest

end

def Profile.toJson (profile : Profile) : Json :=
  .obj [("mappingRules", (profile.rules?.map fun rules => .arr (Rule.toJsons rules)).getD .null)]

/-! ### Reading -/

def Rule.fieldNames : List String :=
  ["path", "name", "value", "enabled", "required", "booleanFieldAction", "repeatableFieldAction",
   "subfields", "acceptedValues"]

mutual

/-- Reads a rule whose value is at most as deep as the first argument. -/
def Rule.ofJsonWithin? : Nat → Json → Option Rule
  | 0, _ => none
  | depth + 1, value => do
    let [path, name, expression, enabled, required, boolAction, policy, groups, accepted] ←
      value.slots? Rule.fieldNames | none
    let head : RuleHead :=
      { path := ← Json.required Json.string? path
        name := ← Json.optional Json.string? name
        expression := ← Json.optional Json.string? expression
        enabled := ← Json.orElse true Json.bool? enabled
        required := ← Json.orElse false Json.bool? required
        boolAction := ← Json.optional (Json.choice? BoolAction.names) boolAction
        policy := ← Json.optional (Json.choice? Policy.names) policy
        accepted := ← Json.orElse [] (Json.table? Json.string?) accepted }
    some ⟨head, ← Json.orElse [] (Json.list? (Group.ofJsonWithin? depth)) groups⟩

def Group.ofJsonWithin? : Nat → Json → Option Group
  | 0, _ => none
  | depth + 1, value => do
    let [order, path, fields] ← value.slots? ["order", "path", "fields"] | none
    some
      ⟨← Json.orElse 0 Json.int32? order, ← Json.required Json.string? path,
       ← Json.orElse [] (Json.list? (Rule.ofJsonWithin? depth)) fields⟩

end

def Rule.ofJson? (value : Json) : Option Rule := Rule.ofJsonWithin? value.depth value

namespace Profile

def ofBareJson? (value : Json) : Option Profile :=
  (Json.list? Rule.ofJson? value).map fun rules => ⟨some rules⟩

def ofWrappedJson? (value : Json) : Option Profile := do
  let [rules] ← value.slots? ["mappingRules"] | none
  some ⟨← Json.optional (Json.list? Rule.ofJson?) rules⟩

/-- Reads a profile, the bare list being tried first. -/
def ofJson? (value : Json) : Option Profile := (ofBareJson? value).or (ofWrappedJson? value)

def ofText (text : String) : Except Error Profile :=
  match (Json.ofText? text).bind ofJson? with
  | some profile => .ok profile
  | none => .error .unreadableProfile

end Profile

end Crosswalk
