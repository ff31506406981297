import Crosswalk.Path
import Crosswalk.Value

/-!
# Rules and profiles

A rule maps data of a record to one destination path. What it says, apart from
groups, is its head. A repeatable rule has groups as well: a group describes the
objects of an array by field rules, which are rules again. A profile is an
ordered list of rules, or none at all.
-/

namespace Crosswalk

inductive BoolAction where
  | allTrue
  | allFalse
  | asIs
  | remove
  deriving DecidableEq, Repr, Inhabited

/-- What a rule says, apart from its groups. -/
structure RuleHead where
  path : String
  /-- The logical name, if it differs from the last name of the path. -/
  name : Option String := none
  expression : Option String := none
  enabled : Bool := true
  /-- An item of a group in which this field is missing is dropped. -/
  required : Bool := false
  boolAction : Option BoolAction := none
  policy : Option Policy := none
  /-- Identifiers with the texts that stand for them. -/
  accepted : List (String × String) := []
  deriving DecidableEq, Repr, Inhabited

mutual

structure Rule where
  head : RuleHead
  groups : List Group

/-- The objects of an array: where they are, and the rules for their properties. Groups are read in
ascending order. -/
structure Group where
  order : Int
  path : String
  fields : List Rule

end

instance : Inhabited Rule := ⟨⟨default, []⟩⟩

instance : Inhabited Group := ⟨⟨0, "", []⟩⟩

inductive RuleKind where
  | repeatable
  | expression
  | boolean
  | empty
  deriving DecidableEq, Repr, Inhabited

/-- The last name of a dotted path, without array mark. -/
def lastName (path : String) : String :=
  String.ofList (Path.unmark ((Path.pieces '.' path.toList).getLastD [])).1

namespace RuleHead

/-- Arrays are extended unless the rule says otherwise. -/
def policyOrDefault (head : RuleHead) : Policy := head.policy.getD default

theorem policyOrDefault_of_policy (head : RuleHead) (policy : Policy)
    (h : head.policy = some policy) : head.policyOrDefault = policy := by
  rw [policyOrDefault, h, Option.getD_some]

def fieldName (head : RuleHead) : String := head.name.getD (lastName head.path)

def hasExpression (head : RuleHead) : Bool :=
  head.expression.any fun text => !Text.isBlankText text

end RuleHead

namespace Rule

/-- The way in which the rule is evaluated. Groups count only together with a policy; a rule that
deletes an array needs no groups as long as it has no expression. -/
def kind (rule : Rule) : RuleKind :=
  if !rule.groups.isEmpty && rule.head.policy.isSome then .repeatable
  else if rule.head.policy = some .deleteExisting && rule.head.expression.isNone then .repeatable
  else if rule.head.hasExpression then .expression
  else if rule.head.boolAction.isSome then .boolean
  else .empty

def ofExpression (path expression : String) : Rule :=
  ⟨{ path, expression := some expression }, []⟩

def ofGroups (path : String) (policy : Policy) (groups : List Group) : Rule :=
  ⟨{ path, policy := some policy }, groups⟩

def ofBoolAction (path : String) (action : BoolAction) : Rule :=
  ⟨{ path, boolAction := some action }, []⟩

end Rule

structure Profile where
  rules? : Option (List Rule)
  deriving Inhabited

namespace Profile

def enabledRules (profile : Profile) : List Rule :=
  (profile.rules?.getD []).filter fun rule => rule.head.enabled

end Profile

end Crosswalk
