import Crosswalk.Entries
import Crosswalk.Text.Ascii
import Crosswalk.Text.Blank

/-!
# Accepted values

Accepted values are identifiers, each with a text that is shown for it. A value
stands for an identifier when it is that identifier, or when it matches the text
of one, the first such in order. A text of the form `Name (Code)` is matched by
the whole, by the code, by the code in brackets and by the name. Case makes no
difference within ASCII, white space around a value or text none at all.
-/

namespace Crosswalk.Accepted

/-- The name and the code of a text `Name (Code)`; the last opening bracket counts. -/
def bracketed? (text : List Char) : Option (List Char × List Char) :=
  let trim (cs : List Char) := Text.dropBlankEnd (Text.dropBlank cs)
  match (Text.dropBlankEnd text).reverse with
  | ')' :: body =>
    match body.dropWhile (· != '(') with
    | '(' :: name => some (trim name.reverse, trim (body.takeWhile (· != '(')).reverse)
    | _ => none
  | _ => none

def matchesText (value text : List Char) : Bool :=
  Text.alike value (Text.dropBlankEnd (Text.dropBlank text))
    || match bracketed? text with
      | some (name, code) =>
        Text.alike value code || Text.alike value ('(' :: (code ++ [')']))
          || (!name.isEmpty && Text.alike value name)
      | none => false

def find? (value : String) (accepted : List (String × String)) : Option String :=
  let trimmed := Text.trim value
  if trimmed = "" then none
  else if Entries.contains trimmed accepted then some trimmed
  else
    (accepted.find? fun entry => matchesText trimmed.toList entry.2.toList).map Prod.fst

/-- The identifier in the place of the value. A value that stands for none stays as it is, or
becomes empty where only accepted values are allowed. Without any accepted values all stay. -/
def substitute (strict : Bool) (accepted : List (String × String)) (value : String) : String :=
  if accepted.isEmpty then value
  else
    match find? value accepted with
    | some id => id
    | none => if strict then "" else value

end Crosswalk.Accepted
