import Crosswalk.Error
import Crosswalk.Json.Parser
import Crosswalk.Marc.Record

/-!
# MARC-in-JSON

The exchange form of a record is an object with the leader and a list of fields,
each field an object whose keys are tags: a text is the data of a control field,
an object holds the indicators and subfields of a data field. Reading is lenient
inside a data field, where anything out of form is passed over, and strict about
the fields themselves. Writing puts the control fields first.
-/

namespace Crosswalk.Marc

inductive Field where
  | control (field : ControlField)
  | data (field : DataField)
  deriving DecidableEq, Repr

namespace Field

def control? : Field → Option ControlField
  | control field => some field
  | data _ => none

def data? : Field → Option DataField
  | control _ => none
  | data field => some field

end Field

namespace Exchange

/-! ### Reading -/

/-- The indicator under the key: the first character of its text, or a space. -/
def indicator (key : String) (content : List (String × Json)) : Char :=
  (((Entries.get? key content).bind Json.string?).bind fun s => s.toList.head?).getD ' '

/-- The subfield that a member stands for: the first character of its key, and its text. -/
def subfield? : String × Json → Option Subfield
  | (code, .str value) => code.toList.head?.map fun c => ⟨c, value⟩
  | _ => none

/-- The subfields under the key `subfields`; what is not an object is passed over. -/
def subfields (content : List (String × Json)) : List Subfield :=
  (((Entries.get? "subfields" content).bind Json.items?).getD []).flatMap fun item =>
    (item.members?.getD []).filterMap subfield?

def field : String × Json → Except Error Field
  | (tag, .str data) => .ok (.control ⟨tag, data⟩)
  | (tag, .obj content) =>
    .ok (.data ⟨tag, indicator "ind1" content, indicator "ind2" content, subfields content⟩)
  | (tag, _) => .error (.fieldContent tag)

def entry : Json → Except Error (List Field)
  | .obj members => members.mapM field
  | _ => .error .fieldNotObject

end Exchange

namespace Record

def ofExchange : Json → Except Error Record
  | .obj members =>
    let leader := ((Entries.get? "leader" members).bind Json.string?).getD ""
    match (Entries.get? "fields" members).bind Json.items? with
    | none => .error .recordWithoutFields
    | some items => do
      let fields := (← items.mapM Exchange.entry).flatten
      .ok ⟨leader, fields.filterMap Field.control?, fields.filterMap Field.data?⟩
  | _ => .error .recordNotObject

def ofExchangeText (text : String) : Except Error Record :=
  match Json.parse? text with
  | none => .error .unreadableJson
  | some value => ofExchange value

end Record

/-! ### Writing -/

def ControlField.toExchange (field : ControlField) : Json := .obj [(field.tag, .str field.data)]

def Subfield.toExchange (s : Subfield) : Json := .obj [(s.code.toString, .str s.value)]

def DataField.toExchange (field : DataField) : Json :=
  .obj [(field.tag, .obj
    [("ind1", .str field.indicator1.toString),
     ("ind2", .str field.indicator2.toString),
     ("subfields", .arr (field.subfields.map Subfield.toExchange))])]

def Record.toExchange (record : Record) : Json :=
  .obj
    [("leader", .str record.leader),
     ("fields", .arr (record.controlFields.map ControlField.toExchange ++
       record.dataFields.map DataField.toExchange))]

end Crosswalk.Marc
