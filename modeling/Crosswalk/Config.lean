import Crosswalk.Error
import Crosswalk.Json.Form
import Crosswalk.Json.Parser

/-!
# Configuration

What is adjustable about a mapping apart from its rules: the field by whose
values holdings are split, the fields that take accepted values only, and the
patterns that dates are read by. Each of these has a default.
-/

namespace Crosswalk

structure Config where
  /-- The logical name of the field by whose values holdings are split. -/
  groupingField : String := "permanentLocationId"
  acceptedOnly : List String := ["vendor", "materialSupplier", "accessProvider"]
  /-- Patterns for reading dates; the first one that fits counts. -/
  datePatterns : List String := ["%Y-%m-%d", "%m/%d/%Y", "%d.%m.%Y", "%d-%m-%Y"]
  deriving DecidableEq, Repr

instance : Inhabited Config := ⟨{}⟩

namespace Config

def requiresAccepted (config : Config) (field : String) : Bool := config.acceptedOnly.contains field

def toJson (config : Config) : Json :=
  .obj
    [("holdingsGroupingField", .str config.groupingField),
     ("acceptedValueRequiredFields", .arr (config.acceptedOnly.map .str)),
     ("datePatterns", .arr (config.datePatterns.map .str))]

/-- Reads a configuration; what is absent has its default. -/
def ofJson? (value : Json) : Option Config := do
  let [groupingField, acceptedOnly, datePatterns] ←
    value.slots? ["holdingsGroupingField", "acceptedValueRequiredFields", "datePatterns"] | none
  let default : Config := {}
  some
    { groupingField := ← Json.orElse default.groupingField Json.string? groupingField
      acceptedOnly := ← Json.orElse default.acceptedOnly (Json.list? Json.string?) acceptedOnly
      datePatterns := ← Json.orElse default.datePatterns (Json.list? Json.string?) datePatterns }

def ofText (text : String) : Except Error Config :=
  match (Json.skim? text).bind ofJson? with
  | some config => .ok config
  | none => .error .unreadableProfile

end Config

end Crosswalk
