import Crosswalk.Entries
import Crosswalk.Json.Double

/-!
# JSON values

A value is a scalar, an array or an object. Objects are lists of members: their
order shows in every text, and a value read from text may name a key twice.
`Json.merged` settles such repeats (first place, last value), and
`Json.DistinctKeys` says that none are left, at any depth. Two integers, or two
doubles, are the same number only if they are written the same way.
-/

namespace Crosswalk

namespace Json

inductive Number where
  | int (value : Int)
  | double (value : Double)
  deriving DecidableEq, Repr, Inhabited

end Json

inductive Json where
  | null
  | bool (value : Bool)
  | num (value : Json.Number)
  | str (value : String)
  | arr (items : List Json)
  | obj (members : List (String × Json))
  deriving Repr, Inhabited

namespace Json

/-! ### Equality -/

mutual

def beq : Json → Json → Bool
  | .null, .null => true
  | .bool a, .bool b => a == b
  | .num a, .num b => a == b
  | .str a, .str b => a == b
  | .arr a, .arr b => beqItems a b
  | .obj a, .obj b => beqMembers a b
  | _, _ => false

def beqItems : List Json → List Json → Bool
  | [], [] => true
  | a :: as, b :: bs => beq a b && beqItems as bs
  | _, _ => false

def beqMembers : List (String × Json) → List (String × Json) → Bool
  | [], [] => true
  | (k, a) :: as, (l, b) :: bs => k == l && beq a b && beqMembers as bs
  | _, _ => false

end

mutual

theorem beq_iff (a b : Json) : beq a b = true ↔ a = b := by
  cases a <;> cases b <;> simp only [beq, reduceCtorEq, beq_iff_eq, Json.bool.injEq,
    Json.num.injEq, Json.str.injEq, Json.arr.injEq, Json.obj.injEq, Bool.false_eq_true]
  case arr.arr as bs => exact beqItems_iff as bs
  case obj.obj as bs => exact beqMembers_iff as bs

theorem beqItems_iff (as bs : List Json) : beqItems as bs = true ↔ as = bs := by
  match as, bs with
  | [], [] => simp only [beqItems]
  | [], b :: bs => simp only [beqItems, Bool.false_eq_true, reduceCtorEq]
  | a :: as, [] => simp only [beqItems, Bool.false_eq_true, reduceCtorEq]
  | a :: as, b :: bs =>
    simp only [beqItems, Bool.and_eq_true, List.cons.injEq, beq_iff a b, beqItems_iff as bs]

theorem beqMembers_iff (as bs : List (String × Json)) : beqMembers as bs = true ↔ as = bs := by
  match as, bs with
  | [], [] => simp only [beqMembers]
  | [], (l, b) :: bs => simp only [beqMembers, Bool.false_eq_true, reduceCtorEq]
  | (k, a) :: as, [] => simp only [beqMembers, Bool.false_eq_true, reduceCtorEq]
  | (k, a) :: as, (l, b) :: bs =>
    simp only [beqMembers, Bool.and_eq_true, List.cons.injEq, Prod.mk.injEq, beq_iff_eq,
      beq_iff a b, beqMembers_iff as bs]

end

instance : DecidableEq Json := fun a b =>
  if h : beq a b = true then isTrue ((beq_iff a b).1 h)
  else isFalse fun he => h ((beq_iff a b).2 he)

/-! ### Repeated keys -/

mutual

/-- The value with every repeated key settled: it keeps its first place and takes its last
value. -/
def merged : Json → Json
  | .arr items => .arr (mergedItems items)
  | .obj members => .obj (Entries.ofPairs (mergedMembers members))
  | scalar => scalar

def mergedItems : List Json → List Json
  | [] => []
  | item :: rest => merged item :: mergedItems rest

def mergedMembers : List (String × Json) → List (String × Json)
  | [] => []
  | (key, value) :: rest => (key, merged value) :: mergedMembers rest

end

mutual

/-- No object of the value, at any depth, names a key twice. -/
def DistinctKeys : Json → Prop
  | .arr items => DistinctKeysItems items
  | .obj members => Entries.Distinct members ∧ DistinctKeysMembers members
  | _ => True

def DistinctKeysItems : List Json → Prop
  | [] => True
  | item :: rest => DistinctKeys item ∧ DistinctKeysItems rest

def DistinctKeysMembers : List (String × Json) → Prop
  | [] => True
  | (_, value) :: rest => DistinctKeys value ∧ DistinctKeysMembers rest

end

/-! ### Looking inside -/

/-- The value that a walk through object keys leads to. -/
def at? : List String → Json → Option Json
  | [], value => some value
  | key :: rest, .obj members => (Entries.get? key members).bind (at? rest)
  | _ :: _, _ => none

theorem at?_nil (value : Json) : at? [] value = some value := by
  cases value <;> rfl

def string? : Json → Option String
  | .str s => some s
  | _ => none

def items? : Json → Option (List Json)
  | .arr items => some items
  | _ => none

def members? : Json → Option (List (String × Json))
  | .obj members => some members
  | _ => none

end Json

end Crosswalk
