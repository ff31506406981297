import Crosswalk.Entries
import Crosswalk.Text.Blank

/-!
# Values

A value is what a rule reads from a record and what is then written into a
document: nothing, a text, a deletion marker, a Boolean, a list of texts, or the
items of a group. An item is an ordered table from paths, relative to the group,
to values of its own. Lists and groups carry the policy for an array that is
there already.
-/

namespace Crosswalk

/-- What becomes of an array that is there already. -/
inductive Policy where
  /-- The new elements follow the old ones. -/
  | extendExisting
  /-- The new elements take the place of the old ones. -/
  | exchangeExisting
  /-- The array goes. -/
  | deleteExisting
  /-- The old elements that equal a new one go. -/
  | deleteIncoming
  deriving DecidableEq, Repr

instance : Inhabited Policy := ⟨.extendExisting⟩

inductive Value where
  | missing
  | string (text : String)
  /-- A marker that deletes the destination; its text plays no part. -/
  | removal (text : String)
  | bool (flag : Bool)
  | list (items : List String) (policy : Policy)
  | repeatable (items : List (List (String × Value))) (policy : Policy) (root : String)
  deriving Repr, Inhabited

/-- One object of a repeatable value: an ordered table from relative paths to values. -/
abbrev Item := List (String × Value)

namespace Value

/-- Whether there is nothing to write. A blank text counts as nothing. -/
def isMissing : Value → Bool
  | missing => true
  | string text => Text.isBlankText text
  | _ => false

def isArray : Value → Bool
  | list .. | repeatable .. => true
  | _ => false

def policy? : Value → Option Policy
  | list _ policy => some policy
  | repeatable _ policy _ => some policy
  | _ => none

def kind : Value → String
  | missing => "missing"
  | string _ | removal _ => "string"
  | bool _ => "boolean"
  | list .. => "list"
  | repeatable .. => "repeatable"

end Value

end Crosswalk
