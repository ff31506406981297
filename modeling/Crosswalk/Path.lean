import Crosswalk.Error
import Crosswalk.Text.Blank

/-!
# Destination paths

A path names a place in a document: names joined by points, the last one with
`[]` after it when the place is an array. A name is any text without points and
square brackets, and is not empty. White space around the whole path is dropped;
inside, it belongs to the names.
-/

namespace Crosswalk

/-- A place in a document: the keys that lead to an object, and a key in it. -/
structure Path where
  parents : List String
  leaf : String
  isArray : Bool
  deriving DecidableEq, Repr, Inhabited

namespace Path

def keys (p : Path) : List String := p.parents ++ [p.leaf]

def arrayMark : List Char := ['[', ']']

/-- The text cut at every occurrence of the character; there is one piece more than cuts. -/
def pieces (cut : Char) : List Char → List (List Char)
  | [] => [[]]
  | c :: rest =>
    if c = cut then [] :: pieces cut rest
    else
      match pieces cut rest with
      | [] => [[c]]
      | piece :: others => (c :: piece) :: others

def isMarked (text : String) : Bool := arrayMark.isSuffixOf text.toList

def unmark (piece : List Char) : List Char × Bool :=
  if arrayMark.isSuffixOf piece then (piece.take (piece.length - arrayMark.length), true)
  else (piece, false)

/-- Whether the text can be a name: it is not empty and has no square bracket. Points do not occur
in a piece. -/
def isName (cs : List Char) : Bool :=
  !cs.isEmpty && cs.all fun c => c != '[' && c != ']'

/-- Reads the pieces from left to right. The first fault decides, and of one piece the name is
looked at before the mark. -/
def ofPieces (shown : String) (parents : List String) : List (List Char) → Except Error Path
  | [] => .error .emptyPath
  | [piece] =>
    let (name, marked) := unmark piece
    if isName name then .ok ⟨parents.reverse, String.ofList name, marked⟩
    else .error (.malformedSegment shown (String.ofList piece))
  | piece :: rest =>
    let (name, marked) := unmark piece
    if ¬ isName name then .error (.malformedSegment shown (String.ofList piece))
    else if marked then .error (.earlyMarker shown (String.ofList piece))
    else ofPieces shown (String.ofList name :: parents) rest

def parse (text : String) : Except Error Path :=
  let trimmed := Text.dropBlankEnd (Text.dropBlank text.toList)
  if trimmed.isEmpty then .error .emptyPath else ofPieces text [] (pieces '.' trimmed)

def text (p : Path) : String :=
  String.intercalate "." p.keys ++ if p.isArray then "[]" else ""

end Path

end Crosswalk
