/-!
# Expressions

An expression tells where a rule takes its data from. It is a list of clauses,
of which the first that yields something counts; a clause is a row of tokens
whose values are joined. A token refers to a field, to a stretch of characters
of the leader or a control field, to a fixed text, to the current date, or asks
for the destination to be removed.
-/

namespace Crosswalk

namespace Expression

/-- The pseudo tag of the leader. -/
def leaderTag : String := "LDR"

inductive Token where
  /-- All fields with the tag, narrowed to at most two subfield codes. -/
  | field (tag : String) (codes : List Char)
  /-- The characters from position `start` up to before position `stop`, counted from zero. -/
  | range (tag : String) (start stop : Nat)
  | literal (text : String)
  | today
  | remove
  deriving DecidableEq, Repr, Inhabited

abbrev Clause := List Token

end Expression

/-- The clauses of an expression, in the order of preference. -/
structure Expression where
  clauses : List Expression.Clause
  deriving DecidableEq, Repr, Inhabited

end Crosswalk
