import Crosswalk.Json.Form
import Crosswalk.Json.Parser
import Crosswalk.Marc.Record

/-!
# The stored form of records

Besides the exchange form a record has a stored form, in which every part stands
under its own name. Nothing may be missing from it.
-/

namespace Crosswalk.Marc

def ControlField.toJson (field : ControlField) : Json :=
  .obj [("tag", .str field.tag), ("data", .str field.data)]

def Subfield.toJson (s : Subfield) : Json :=
  .obj [("code", .str s.code.toString), ("value", .str s.value)]

def DataField.toJson (field : DataField) : Json :=
  .obj
    [("tag", .str field.tag),
     ("indicator1", .str field.indicator1.toString),
     ("indicator2", .str field.indicator2.toString),
     ("subfields", .arr (field.subfields.map Subfield.toJson))]

def Record.toJson (record : Record) : Json :=
  .obj
    [("leader", .str record.leader),
     ("control_fields", .arr (record.controlFields.map ControlField.toJson)),
     ("data_fields", .arr (record.dataFields.map DataField.toJson))]

/-! ### Reading -/

def ControlField.ofJson? (value : Json) : Option ControlField := do
  let [tag, data] ← value.slots? ["tag", "data"] | none
  some ⟨← Json.required Json.string? tag, ← Json.required Json.string? data⟩

def Subfield.ofJson? (value : Json) : Option Subfield := do
  let [code, content] ← value.slots? ["code", "value"] | none
  some ⟨← Json.required Json.char? code, ← Json.required Json.string? content⟩

def DataField.ofJson? (value : Json) : Option DataField := do
  let [tag, indicator1, indicator2, subfields] ←
    value.slots? ["tag", "indicator1", "indicator2", "subfields"] | none
  some
    ⟨← Json.required Json.string? tag, ← Json.required Json.char? indicator1,
     ← Json.required Json.char? indicator2,
     ← Json.required (Json.list? Subfield.ofJson?) subfields⟩

def Record.ofJson? (value : Json) : Option Record := do
  let [leader, controlFields, dataFields] ←
    value.slots? ["leader", "control_fields", "data_fields"] | none
  some
    ⟨← Json.required Json.string? leader,
     ← Json.required (Json.list? ControlField.ofJson?) controlFields,
     ← Json.required (Json.list? DataField.ofJson?) dataFields⟩

def Record.ofText? (text : String) : Option Record := (Json.skim? text).bind Record.ofJson?

end Crosswalk.Marc
