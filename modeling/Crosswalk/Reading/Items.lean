import Crosswalk.Expression.Parser
import Crosswalk.Marc.Record
import Crosswalk.Rule.Basic

/-!
# Items of a group

A group turns the values of its fields into items. A field that several values
were read for spreads them over as many items, and every other field goes into
each of them; an item without a required field is dropped. If the fields read a
data field that occurs several times, the group is read once for each occurrence
of the most frequent one, its driving tag. In the end the items are filled up
with what the first item has and they lack.
-/

namespace Crosswalk.Reading

/-! ### Keys -/

/-- The part of the path below the base, if the base is not empty and the path lies below it. -/
def below? (base path : List Char) : Option (List Char) :=
  if !base.isEmpty && base.isPrefixOf path then
    match path.drop base.length with
    | '.' :: c :: rest => some (c :: rest)
    | _ => none
  else none

/-- The key of a field in the items of its group: its path below the group's, or else below the
rule's, or else its last piece. -/
def relativeKey (groupPath rulePath fieldPath : String) : String :=
  let path := fieldPath.toList
  String.ofList
    (((below? groupPath.toList path).or (below? rulePath.toList path)).getD
      ((Path.pieces '.' path).getLastD []))

/-! ### Spreading values over items -/

structure FieldValue where
  key : String
  value : Value
  required : Bool
  deriving Inhabited

namespace FieldValue

/-- The texts that the field spreads over the items: those of a list, unless the key is marked as
an array and takes the list as it is. -/
def spread? (field : FieldValue) : Option (List String) :=
  match field.value with
  | .list texts _ => if Path.isMarked field.key then none else some texts
  | _ => none

def width (field : FieldValue) : Nat :=
  match field.spread?, field.value with
  | some texts, _ => texts.length
  | none, .missing => 0
  | none, _ => 1

def slot? (index : Nat) (field : FieldValue) : Option Value :=
  match field.spread? with
  | some [text] => some (.string text)
  | some texts => texts[index]?.map .string
  | none => if field.value.isMissing then none else some field.value

end FieldValue

def width (fields : List FieldValue) : Nat := (fields.map FieldValue.width).foldl max 0

def isComplete (fields : List FieldValue) (index : Nat) : Bool :=
  fields.all fun field => !field.required || (field.slot? index).isSome

def itemAt (fields : List FieldValue) (index : Nat) : Item :=
  Entries.ofPairs (fields.filterMap fun field => (field.slot? index).map fun v => (field.key, v))

def explode (fields : List FieldValue) : List Item :=
  (List.range (width fields)).filterMap fun index =>
    if isComplete fields index && !(itemAt fields index).isEmpty then some (itemAt fields index)
    else none

/-! ### Filling up -/

/-- The item with those entries of the first one behind it whose keys it lacks. -/
def filled (first item : Item) : Item :=
  item ++ first.filter fun entry => !Entries.contains entry.1 item

def sparseFill : List Item → List Item
  | [] => []
  | first :: rest => first :: rest.map (filled first)

theorem length_sparseFill (items : List Item) : (sparseFill items).length = items.length := by
  cases items with
  | nil => rfl
  | cons first rest => simp only [sparseFill, List.length_cons, List.length_map]

/-! ### The driving tag -/

def dataTags (expression : String) : List String :=
  match Expression.parse expression with
  | .error _ => []
  | .ok e => e.clauses.flatten.filterMap fun token =>
    match token with
    | .field tag _ => if Marc.isControlTag tag then none else some tag
    | _ => none

/-- The tags that the enabled fields of a group refer to, keys of arrays apart. -/
def groupTags (groupPath rulePath : String) (fields : List Rule) : List String :=
  (fields.filter fun field => field.head.enabled
      && !Path.isMarked (relativeKey groupPath rulePath field.head.path)).flatMap
    fun field => ((field.head.expression).map dataTags).getD []

/-- The more frequent of the best tag so far and another one, which has to occur at least twice;
of equally frequent ones the earlier. -/
def moreFrequent (record : Marc.Record) (best : Option (String × Nat)) (tag : String) :
    Option (String × Nat) :=
  let count := record.occurrences tag
  if 1 < count && best.all (fun b => b.2 < count) then some (tag, count) else best

def drivingTag? (record : Marc.Record) (tags : List String) : Option (String × Nat) :=
  tags.foldl (moreFrequent record) none

/-- The records that the group is read from: one for each occurrence of the driving tag, or else
the whole record. -/
def scopes (record : Marc.Record) (tags : List String) : List Marc.Record :=
  match drivingTag? record tags with
  | some (tag, count) => (List.range count).filterMap fun index => record.withOccurrence? tag index
  | none => [record]

end Crosswalk.Reading
