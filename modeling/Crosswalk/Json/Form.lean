import Crosswalk.Json.Basic

/-!
# Forms

Rules, configurations, reference tables and stored records are kept as JSON in
forms with a fixed list of named fields. A form may be written as an object,
where unknown members are passed over and a known member must not be repeated,
or as an array of the fields in their order, where fields may be missing at the
end only. `slots?` brings both into one shape, a slot for each named field; the
readers below then fill in what a missing field stands for. Since what an unknown
member holds makes no difference, forms without numbers are read leniently from
text (`skim?`): whatever is passed over only has to be well formed.
-/

namespace Crosswalk.Json

variable {α : Type}

def named (key : String) (members : List (String × Json)) : List (String × Json) :=
  members.filter fun m => m.1 = key

/-- The slot of one field of an object: empty when it is absent, refused when it is repeated. -/
def slot? (members : List (String × Json)) (field : String) : Option (Option Json) :=
  match named field members with
  | [] => some none
  | [m] => some (some m.2)
  | _ => none

def slots? (fields : List String) : Json → Option (List (Option Json))
  | .obj members => fields.mapM (slot? members)
  | .arr items =>
    if items.length ≤ fields.length then
      some (items.map some ++ List.replicate (fields.length - items.length) none)
    else none
  | _ => none

/-! ### Filling a slot -/

def required (read : Json → Option α) : Option Json → Option α
  | none => none
  | some value => read value

def optional (read : Json → Option α) : Option Json → Option (Option α)
  | none => some none
  | some .null => some none
  | some value => (read value).map some

/-- A field that stands for `default` when it is absent; null is refused like any other wrong
value. -/
def orElse (default : α) (read : Json → Option α) : Option Json → Option α
  | none => some default
  | some value => read value

/-! ### Reading a value -/

def bool? : Json → Option Bool
  | .bool b => some b
  | _ => none

def char? : Json → Option Char
  | .str s =>
    match s.toList with
    | [c] => some c
    | _ => none
  | _ => none

def int32? : Json → Option Int
  | .num (.int n) => if -2147483648 ≤ n ∧ n ≤ 2147483647 then some n else none
  | _ => none

def list? (read : Json → Option α) : Json → Option (List α)
  | .arr items => items.mapM read
  | _ => none

/-- An ordered table, every value read in the same way; a repeated key keeps its first place and
takes its last value. -/
def table? (read : Json → Option α) : Json → Option (List (String × α))
  | .obj members =>
    (members.mapM fun (m : String × Json) => (read m.2).map fun v => (m.1, v)).map Entries.ofPairs
  | _ => none

/-- One of a fixed list of named choices, written as its name or as an object with that one key and
the value null. -/
def choice? (choices : List (String × α)) : Json → Option α
  | .str name => Entries.get? name choices
  | .obj [(name, .null)] => Entries.get? name choices
  | _ => none

/-! ### Depth -/

mutual

def depth : Json → Nat
  | .arr items => depthOfItems items + 1
  | .obj members => depthOfMembers members + 1
  | _ => 0

def depthOfItems : List Json → Nat
  | [] => 0
  | item :: rest => max (depth item) (depthOfItems rest)

def depthOfMembers : List (String × Json) → Nat
  | [] => 0
  | (_, value) :: rest => max (depth value) (depthOfMembers rest)

end

end Crosswalk.Json
