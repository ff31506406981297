import Crosswalk.Expression.Parser
import Crosswalk.Reading.Clause
import Crosswalk.Reading.Items

/-!
# Reading rules

A rule reads a value from a record according to its kind. The value of an
expression is a list if the rule's path is marked as an array, or if the reader
asks for all occurrences; fields of groups are always read so. An expression
that cannot be read or evaluated makes the rule read nothing, and the one error
that ends a run is an unknown time zone. The groups of a rule are read one by
one and their items put together in ascending order of the groups, groups of
equal order in the order in which they are declared.
-/

namespace Crosswalk.Reading

def yieldValue (policy : Policy) : Yield → Value
  | .removal => .removal ""
  | .scalar text => if Text.isBlankText text then .missing else .string text
  | .items [] => .missing
  | .items texts => .list texts policy

def expressionYield (setting : Setting) (fan : Bool) (head : RuleHead) (record : Marc.Record)
    (text : String) : Except Error Yield := do
  let expression ← Expression.parse text
  clausesYield setting fan head record expression.clauses

def readExpression (setting : Setting) (fan : Bool) (head : RuleHead) (record : Marc.Record) :
    Except Error Value :=
  match head.expression with
  | none => .ok .missing
  | some text =>
    match expressionYield setting (fan || Path.isMarked head.path) head record text with
    | .ok yielded => .ok (yieldValue head.policyOrDefault yielded)
    | .error e => if e.fatal then .error e else .ok .missing

def boolValue : Option BoolAction → Value
  | some .allTrue => .bool true
  | some .allFalse => .bool false
  | some .remove => .removal ""
  | some .asIs | none => .missing

/-- The value that the items of the groups amount to. Without items there is nothing to write,
unless the array is to be deleted. -/
def itemsValue (head : RuleHead) (items : List Item) : Value :=
  if items.isEmpty && head.policyOrDefault != .deleteExisting then .missing
  else .repeatable items head.policyOrDefault head.path

/-- The items of all groups, in ascending order of the groups. -/
def inOrder (groups : List (Int × Except Error (List Item))) : Except Error (List Item) :=
  ((groups.mergeSort fun a b => decide (a.1 ≤ b.1)).mapM Prod.snd).map List.flatten

mutual

/-- The value of a rule; with `fan`, expressions are read as lists. -/
def readRule (setting : Setting) : Rule → Bool → Marc.Record → Except Error Value
  | ⟨head, groups⟩, fan, record =>
    match Rule.kind ⟨head, groups⟩ with
    | .repeatable =>
      (inOrder (readGroups setting head.path groups record)).map (itemsValue head)
    | .expression => readExpression setting fan head record
    | .boolean => .ok (boolValue head.boolAction)
    | .empty => .ok .missing

def readGroups (setting : Setting) (rulePath : String) :
    List Group → Marc.Record → List (Int × Except Error (List Item))
  | [], _ => []
  | ⟨order, path, fields⟩ :: rest, record =>
    let evaluated := (scopes record (groupTags path rulePath fields)).mapM fun scope =>
      (readFields setting path rulePath fields scope).map explode
    (order, evaluated.map fun items => sparseFill items.flatten)
      :: readGroups setting rulePath rest record

def readFields (setting : Setting) (groupPath rulePath : String) :
    List Rule → Marc.Record → Except Error (List FieldValue)
  | [], _ => .ok []
  | ⟨head, groups⟩ :: rest, record =>
    if head.enabled then do
      let value ← readRule setting ⟨head, groups⟩ true record
      let others ← readFields setting groupPath rulePath rest record
      .ok (⟨relativeKey groupPath rulePath head.path, value, head.required⟩ :: others)
    else readFields setting groupPath rulePath rest record

end

/-- The value of a rule: a list only where the path is marked as an array. -/
def read (setting : Setting) (rule : Rule) (record : Marc.Record) : Except Error Value :=
  readRule setting rule false record

def readAll (setting : Setting) (rule : Rule) (record : Marc.Record) : Except Error Value :=
  readRule setting rule true record

end Crosswalk.Reading
