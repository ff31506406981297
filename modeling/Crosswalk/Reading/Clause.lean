import Crosswalk.Accepted
import Crosswalk.Date.Reading
import Crosswalk.Expression.Basic
import Crosswalk.Marc.Record
import Crosswalk.Reading.Setting
import Crosswalk.Rule.Basic

/-!
# Reading clauses

A token yields a list of values, one for each field or stretch of characters
that it finds; data of subfields is read as dates where possible, and every
value is replaced by an accepted identifier where one applies. A clause puts the
values of its tokens together. For a single text it joins the first value of
each token. For a list it takes the values of all occurrences: a token with as
many values as there are elements so far adds to each element in turn, and any
other token appends its values as elements of their own.
-/

namespace Crosswalk

/-! ### Raw values -/

namespace Marc

/-- The text of a data field, narrowed to the codes if there are any; nothing if the field has no
such subfield. -/
def DataField.narrowed? (codes : List Char) (field : DataField) : Option String :=
  if codes.isEmpty then some field.value
  else if (field.valuesOf codes).isEmpty then none
  else some (String.intercalate " " (field.valuesOf codes))

/-- The texts of the fields with the tag. Control fields have no subfields to narrow to. -/
def Record.fieldTexts (tag : String) (codes : List Char) (record : Record) : List String :=
  if isControlTag tag then
    if codes.isEmpty then (record.controlWith tag).map ControlField.data else []
  else (record.dataWith tag).filterMap (DataField.narrowed? codes)

/-- The texts that have character positions under the tag: the leader, or control fields. -/
def Record.positioned (tag : String) (record : Record) : Except Error (List String) :=
  if tag = Expression.leaderTag then .ok [record.leader]
  else if isControlTag tag then .ok ((record.controlWith tag).map ControlField.data)
  else .error (.rangeOnDataField tag)

end Marc

namespace Reading

/-- The characters from position `start` up to before position `stop`, as far as the text reaches;
nothing if it does not reach `start`. -/
def slice? (start stop : Nat) (text : String) : Option String :=
  if text.toList.length ≤ start then none
  else some (String.ofList ((text.toList.drop start).take (stop - start)))

/-! ### Values of a token -/

def settled (setting : Setting) (head : RuleHead) (text : String) : String :=
  Accepted.substitute (setting.config.requiresAccepted head.fieldName) head.accepted text

def nonBlank (texts : List String) : List String := texts.filter fun t => !Text.isBlankText t

def tokenValues (setting : Setting) (head : RuleHead) (record : Marc.Record) :
    Expression.Token → Except Error (List String)
  | .remove => .ok []
  | .today => setting.localToday.map fun date => [date]
  | .literal text => .ok [settled setting head text]
  | .field tag codes =>
    let texts := record.fieldTexts tag codes
    let dated :=
      if Marc.isControlTag tag then texts
      else texts.map (Date.normalize setting.config.datePatterns)
    .ok (nonBlank (dated.map (settled setting head)))
  | .range tag start stop => do
    let texts ← record.positioned tag
    .ok (nonBlank ((texts.filterMap (slice? start stop)).map (settled setting head)))

theorem tokenValues_range (setting : Setting) (head : RuleHead) {record : Marc.Record}
    {tag : String} {texts : List String} (h : record.positioned tag = .ok texts)
    (start stop : Nat) :
    tokenValues setting head record (.range tag start stop)
      = .ok (nonBlank ((texts.filterMap (slice? start stop)).map (settled setting head))) := by
  rw [tokenValues, h]
  rfl

/-- The values of each token of a clause; nothing if the clause asks for a removal. Tokens are
evaluated from left to right, up to the first removal or error. -/
def clauseValues (setting : Setting) (head : RuleHead) (record : Marc.Record) :
    Expression.Clause → Except Error (Option (List (List String)))
  | [] => .ok (some [])
  | .remove :: _ => .ok none
  | token :: rest => do
    let values ← tokenValues setting head record token
    let others ← clauseValues setting head record rest
    .ok (others.map (values :: ·))

/-! ### What a clause yields -/

inductive Yield where
  | removal
  | scalar (text : String)
  | items (texts : List String)
  deriving DecidableEq, Repr, Inhabited

namespace Yield

/-- Whether there is nothing in it, so that the next clause is tried. -/
def isBlank : Yield → Bool
  | removal => false
  | scalar text => Text.isBlankText text
  | items texts => texts.isEmpty

end Yield

def joinFirst (values : List (List String)) : String :=
  String.join (values.filterMap List.head?)

/-- Adds the values of a token to the elements: to each element in turn if there are as many, and
behind the last element otherwise. -/
def correlate (elements values : List String) : List String :=
  if values.isEmpty then elements
  else if elements.length = values.length then List.zipWith (· ++ ·) elements values
  else elements ++ values

def fanOut (values : List (List String)) : List String :=
  values.foldl (fun elements vs => correlate elements (nonBlank vs)) []

/-- What the clause yields, as a list with `fan` and as a single text without. -/
def clauseYield (setting : Setting) (fan : Bool) (head : RuleHead) (record : Marc.Record)
    (clause : Expression.Clause) : Except Error Yield := do
  match ← clauseValues setting head record clause with
  | none => .ok .removal
  | some values => .ok (if fan then .items (fanOut values) else .scalar (joinFirst values))

def clausesYield (setting : Setting) (fan : Bool) (head : RuleHead) (record : Marc.Record) :
    List Expression.Clause → Except Error Yield
  | [] => .ok (if fan then .items [] else .scalar "")
  | clause :: rest => do
    let yielded ← clauseYield setting fan head record clause
    if yielded.isBlank then clausesYield setting fan head record rest else .ok yielded

end Reading

end Crosswalk
