/-!
# MARC records

A record has a leader, control fields that hold plain data, and data fields that
hold two indicators and subfields. Fields are named by tags, subfields by one
character codes; tags and codes may repeat, and the order of fields and
subfields counts. Tags of the form `00X` are those of control fields.
-/

namespace Crosswalk.Marc

structure ControlField where
  tag : String
  data : String
  deriving DecidableEq, Repr, Inhabited

structure Subfield where
  code : Char
  value : String
  deriving DecidableEq, Repr, Inhabited

structure DataField where
  tag : String
  indicator1 : Char
  indicator2 : Char
  subfields : List Subfield
  deriving DecidableEq, Repr, Inhabited

structure Record where
  leader : String
  controlFields : List ControlField
  dataFields : List DataField
  deriving DecidableEq, Repr, Inhabited

/-- Whether the tag is one of a control field: two zeros and one ASCII character. -/
def isControlTag (tag : String) : Bool :=
  match tag.toList with
  | ['0', '0', c] => c.toNat < 128
  | _ => false

namespace DataField

def valuesOf (codes : List Char) (field : DataField) : List String :=
  (field.subfields.filter fun s => codes.contains s.code).map Subfield.value

def valueOf? (code : Char) (field : DataField) : Option String :=
  (field.subfields.find? fun s => s.code = code).map Subfield.value

def value (field : DataField) : String :=
  String.intercalate " " (field.subfields.map Subfield.value)

end DataField

namespace Record

def empty (leader : String) : Record := ⟨leader, [], []⟩

def addControl (field : ControlField) (record : Record) : Record :=
  { record with controlFields := record.controlFields ++ [field] }

def addData (field : DataField) (record : Record) : Record :=
  { record with dataFields := record.dataFields ++ [field] }

def controlWith (tag : String) (record : Record) : List ControlField :=
  record.controlFields.filter fun f => f.tag = tag

def dataWith (tag : String) (record : Record) : List DataField :=
  record.dataFields.filter fun f => f.tag = tag

/-- How often the tag occurs. Control fields are counted for the tag of a control field and data
fields for any other. -/
def occurrences (tag : String) (record : Record) : Nat :=
  if isControlTag tag then (record.controlWith tag).length else (record.dataWith tag).length

/-! ### One occurrence of a tag -/

/-- Drops the fields with the tag, except the one whose number is `index` when they are counted
from `seen`. -/
def keepOnly {α : Type} (tagOf : α → String) (tag : String) (index : Nat) : Nat → List α → List α
  | _, [] => []
  | seen, field :: rest =>
    if tagOf field = tag then
      if seen = index then field :: keepOnly tagOf tag index (seen + 1) rest
      else keepOnly tagOf tag index (seen + 1) rest
    else field :: keepOnly tagOf tag index seen rest

/-- The record with a single occurrence of the tag left, all other fields in their order; nothing
if the tag does not occur that often. Fields are counted through, control fields first. -/
def withOccurrence? (tag : String) (index : Nat) (record : Record) : Option Record :=
  if index < record.occurrences tag then
    some
      { record with
        controlFields := keepOnly ControlField.tag tag index 0 record.controlFields
        dataFields :=
          keepOnly DataField.tag tag index (record.controlWith tag).length record.dataFields }
  else none

theorem withOccurrence?_isSome (tag : String) (index : Nat) (record : Record) :
    (record.withOccurrence? tag index).isSome = decide (index < record.occurrences tag) := by
  unfold withOccurrence?
  split
  · rename_i h
    simp only [Option.isSome_some, h, decide_true]
  · rename_i h
    simp only [Option.isSome_none, h, decide_false]

end Record

end Crosswalk.Marc
