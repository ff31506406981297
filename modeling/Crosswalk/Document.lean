import Crosswalk.Json.Canonical
import Crosswalk.Path
import Crosswalk.Value

/-!
# Writing into documents

A document is a JSON value that grows by writes. A write walks to the object
that holds the path's last key, making objects of whatever is absent or null on
the way, and changes that object. It answers with the document as it left it and
with what went wrong, if anything did: `Written` keeps both, so that it can be
said, and proved, what a failed write leaves behind.

Texts and Booleans replace what is there. Lists and group items are merged with
the array that is there by one of four policies. When the last element of an
array goes, so does its key, and the object around it too if that key was its
only one; the walk upwards ends there.
-/

namespace Crosswalk

/-- A document after a write, and what went wrong with the write. -/
structure Written where
  document : Json
  failure? : Option Error := none
  deriving Inhabited

namespace Document

def start : Json → Json
  | .null => .obj []
  | document => document

/-! ### Walking to an object -/

/-- The members of a value in which keys can be stored: those of an object, and none yet of
null. -/
def storage? : Json → Option (List (String × Json))
  | .obj members => some members
  | .null => some []
  | _ => none

/-- Applies the change to the object at the end of the keys, making objects of what is absent or
null on the way. Names the key whose value stands in the way, if there is one. -/
def changeWithin (change : List (String × Json) → List (String × Json)) :
    List String → List (String × Json) → List (String × Json) × Option String
  | [], members => (change members, none)
  | key :: rest, members =>
    match storage? ((Entries.get? key members).getD .null) with
    | none => (members, some key)
    | some inner =>
      let (changed, obstacle) := changeWithin change rest inner
      (Entries.insert key (.obj changed) members, obstacle)

def changeAt (shown : String) (keys : List String)
    (change : List (String × Json) → List (String × Json)) (document : Json) : Written :=
  match storage? document with
  | none => ⟨document, some (.rootNotObject shown)⟩
  | some members =>
    let (changed, obstacle) := changeWithin change keys members
    ⟨.obj changed, obstacle.map (Error.segmentNotObject shown)⟩

/-- Applies the change to the object at the end of the keys, if the keys lead to one. -/
def adjustAt (change : List (String × Json) → List (String × Json)) : List String → Json → Json
  | [], .obj members => .obj (change members)
  | key :: rest, .obj members =>
    match Entries.get? key members with
    | some inner => .obj (Entries.insert key (adjustAt change rest inner) members)
    | none => .obj members
  | _, document => document

/-! ### Removing an array -/

def isEmptyObject : Json → Bool
  | .obj [] => true
  | _ => false

def eraseIfEmpty (key : String) (members : List (String × Json)) : List (String × Json) :=
  if (Entries.get? key members).any isEmptyObject then Entries.erase key members else members

/-- Removes the key of an array, and then its parent's key if the parent is left empty. Nothing
happens where the key is absent, and the root stays. -/
def removeArray (target : Path) (document : Json) : Json :=
  if (document.at? target.keys).isNone then document
  else
    let removed := adjustAt (Entries.erase target.leaf) target.parents document
    match target.parents.reverse with
    | [] => removed
    | parent :: above => adjustAt (eraseIfEmpty parent) above.reverse removed

/-! ### Merging an array -/

def elementsAt (key : String) (members : List (String × Json)) : List Json :=
  match Entries.get? key members with
  | some (.arr old) => old
  | _ => []

/-- The elements that equal no incoming one up to key order. -/
def without (incoming old : List Json) : List Json :=
  old.filter fun element => !(incoming.map Json.canonical).contains element.canonical

def mergeArray (target : Path) (shown : String) (policy : Policy) (incoming : List Json)
    (document : Json) : Written :=
  match policy with
  | .extendExisting =>
    if incoming.isEmpty then ⟨document, none⟩
    else
      changeAt shown target.parents (fun members =>
        Entries.insert target.leaf (.arr (elementsAt target.leaf members ++ incoming)) members)
        document
  | .exchangeExisting =>
    if incoming.isEmpty then ⟨removeArray target document, none⟩
    else changeAt shown target.parents (Entries.insert target.leaf (.arr incoming)) document
  | .deleteExisting => ⟨removeArray target document, none⟩
  | .deleteIncoming =>
    match document.at? target.keys with
    | some (.arr old) =>
      let kept := without incoming old
      let thinned := adjustAt (Entries.insert target.leaf (.arr kept)) target.parents document
      ⟨if kept.isEmpty then removeArray target thinned else thinned, none⟩
    | _ => ⟨document, none⟩

/-! ### Writing a value -/

inductive Content where
  | nothing
  | deletion
  | scalar (value : Json)
  | elements (kind : String) (incoming : List Json)
  deriving Inhabited

def store (target : Path) (shown : String) (policy : Option Policy) (document : Json) :
    Content → Written
  | .nothing => ⟨document, none⟩
  | .deletion => ⟨adjustAt (Entries.erase target.leaf) target.parents document, none⟩
  | .scalar value =>
    if target.isArray then ⟨document, some (.scalarToArray shown)⟩
    else changeAt shown target.parents (Entries.insert target.leaf value) document
  | .elements kind incoming =>
    if ¬ target.isArray then ⟨document, some (.arrayToScalar kind shown)⟩
    else
      match document.at? target.keys with
      | none | some .null | some (.arr _) =>
        mergeArray target shown (policy.getD default) incoming document
      | some _ => ⟨document, some (.notAnArray shown)⟩

mutual

/-- What the value amounts to. The items of a group are built into objects first, which fails if
an entry of an item cannot be written; items that build to nothing are left out. -/
def content : Value → Except Error Content
  | .missing => .ok .nothing
  | .removal _ => .ok .deletion
  | .string text => .ok (.scalar (.str text))
  | .bool flag => .ok (.scalar (.bool flag))
  | .list items _ => .ok (.elements "list" (items.map .str))
  | .repeatable items _ _ => (built items).map (.elements "repeatable")

def built : List Item → Except Error (List Json)
  | [] => .ok []
  | item :: rest => do
    let object ← builtOn (.obj []) item
    let others ← built rest
    .ok (if isEmptyObject object then others else object :: others)

def builtOn : Json → Item → Except Error Json
  | document, [] => .ok document
  | document, (key, value) :: rest => do
    let target ← Path.parse key
    let written := store target key none document (← content value)
    match written.failure? with
    | some e => .error e
    | none => builtOn written.document rest

end

/-- Writes the value at the path. Without a policy an array is extended, whatever policy the value
itself carries. -/
def write (path : String) (value : Value) (policy : Option Policy) (document : Json) : Written :=
  match Path.parse path with
  | .error e => ⟨document, some e⟩
  | .ok target =>
    match content value with
    | .error e => ⟨document, some e⟩
    | .ok content => store target path policy document content

end Document

end Crosswalk
