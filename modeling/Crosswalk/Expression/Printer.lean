import Crosswalk.Expression.Parser

/-!
# Writing expressions

The written form of an expression: clauses with the separator between them,
tokens with a space between them, positions counted from one. A literal is
enclosed in double quotes unless it contains one, and then in backticks.
-/

namespace Crosswalk.Expression

def quoted (cs : List Char) : List Char :=
  let quote := if '"' ∈ cs then '\x60' else '"'
  quote :: (cs ++ [quote])

def Token.text : Token → List Char
  | field tag codes => tag.toList ++ codes.flatMap fun c => ['$', c]
  | range tag start stop =>
    tag.toList ++ '/' :: (Nat.toDigits 10 (start + 1) ++ '-' :: Nat.toDigits 10 stop)
  | literal text => quoted text.toList
  | today => todayText
  | remove => removeText

def clauseText (clause : Clause) : List Char :=
  List.intercalate [' '] (clause.map Token.text)

def text (e : Expression) : String :=
  String.ofList (List.intercalate (separator.map Prod.fst) (e.clauses.map clauseText))

end Crosswalk.Expression
