import Crosswalk.Error
import Crosswalk.Json.Form
import Crosswalk.Json.Parser
import Crosswalk.Zone

/-!
# Parameters

What a mapping knows about the library it works for: its reference tables, whose
rows have an identifier, perhaps a code, and a name, and its time zone. A table
turns into accepted values, each identifier with the text that is shown for its
row.
-/

namespace Crosswalk

structure ReferenceRow where
  id : String
  code : Option String
  name : String
  deriving DecidableEq, Repr, Inhabited

structure Parameters where
  tables : List (String × List ReferenceRow) := []
  /-- The name of the library's time zone, as configured. -/
  zoneName : Option String := none
  deriving DecidableEq, Repr, Inhabited

namespace ReferenceRow

/-- The text shown for the row: its name, with the code in brackets behind it. -/
def display (row : ReferenceRow) : String :=
  match row.code with
  | some code => row.name ++ " (" ++ code ++ ")"
  | none => row.name

def toJson (row : ReferenceRow) : Json :=
  .obj
    ([("id", .str row.id)]
      ++ (match row.code with
        | some code => [("code", .str code)]
        | none => [])
      ++ [("name", .str row.name)])

def ofJson? (value : Json) : Option ReferenceRow := do
  let [id, code, name] ← value.slots? ["id", "code", "name"] | none
  some
    ⟨← Json.required Json.string? id, ← Json.optional Json.string? code,
     ← Json.required Json.string? name⟩

end ReferenceRow

namespace Parameters

/-- The rows of the table with the name; a table that is absent has none. -/
def table (name : String) (parameters : Parameters) : List ReferenceRow :=
  (Entries.get? name parameters.tables).getD []

def acceptedOfRows (rows : List ReferenceRow) : List (String × String) :=
  Entries.ofPairs (rows.map fun row => (row.id, row.display))

def accepted (name : String) (parameters : Parameters) : List (String × String) :=
  acceptedOfRows (parameters.table name)

def zone (parameters : Parameters) : Except Error Zone := Zone.ofName parameters.zoneName

/-! ### JSON form -/

def zoneToJson : Option String → Json
  | some name => .obj [("dateTimeZone", .str name)]
  | none => .obj []

def zoneOfJson? (value : Json) : Option (Option String) := do
  let [name] ← value.slots? ["dateTimeZone"] | none
  Json.optional Json.string? name

def toJson (parameters : Parameters) : Json :=
  .obj
    [("tables", .obj (parameters.tables.map fun table =>
       (table.1, .arr (table.2.map ReferenceRow.toJson)))),
     ("tenantConfiguration", zoneToJson parameters.zoneName)]

def ofJson? (value : Json) : Option Parameters := do
  let [tables, zone] ← value.slots? ["tables", "tenantConfiguration"] | none
  some
    ⟨← Json.orElse [] (Json.table? (Json.list? ReferenceRow.ofJson?)) tables,
     ← Json.orElse none zoneOfJson? zone⟩

def ofText (text : String) : Except Error Parameters :=
  match (Json.skim? text).bind ofJson? with
  | some parameters => .ok parameters
  | none => .error .unreadableParameters

end Parameters

end Crosswalk
