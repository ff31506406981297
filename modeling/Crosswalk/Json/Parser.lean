import Crosswalk.Json.Token

/-!
# Reading JSON text

A value is built from its tokens by a machine that keeps the open arrays and
objects on a stack, so reading is one pass over the tokens and needs no bound of
its own. The one bound is the format's: containers nest at most `depthLimit`
deep. Repeated keys are kept as written; `merged` settles them. Lenient reading
knows no such bound, and the number zero stands in for whatever is well formed
but has no value: numerals and texts, and objects with such a text as a key. What
strict reading accepts, it reads in the same way (`skim?_of_ofText?`).
-/

namespace Crosswalk.Json

def depthLimit : Nat := 127

/-- The members of an object that were read so far, last first; lost once a key had no value. -/
abbrev Members := Option (List (String × Json))

/-- A container that has been opened and waits for its next value. What it holds already is kept
last first. -/
inductive Frame where
  | array (before : List Json)
  | object (before : Members) (key : String)
  deriving Inhabited

/-- What has been read so far, and what may follow. -/
inductive Reading where
  | value (stack : List Frame)
  | firstItem (stack : List Frame)
  | firstKey (stack : List Frame)
  | key (stack : List Frame) (before : Members)
  | colon (stack : List Frame) (before : Members) (key : String)
  | after (stack : List Frame) (value : Json)
  deriving Inhabited

namespace Reading

def standIn : Json := .num (.int 0)

def object (before : Members) (key : String) (value : Json) : Json :=
  match before with
  | some members => .obj ((key, value) :: members).reverse
  | none => standIn

def opened (strict : Bool) (stack : List Frame) (state : Reading) : Option Reading :=
  if strict && depthLimit ≤ stack.length then none else some state

def start (strict : Bool) (stack : List Frame) : Token → Option Reading
  | .beginArray => opened strict stack (.firstItem stack)
  | .beginObject => opened strict stack (.firstKey stack)
  | .null => some (.after stack .null)
  | .bool b => some (.after stack (.bool b))
  | .num n => some (.after stack (.num n))
  | .str s => some (.after stack (.str s))
  | .unpaired => some (.after stack standIn)
  | _ => none

def step (strict : Bool) : Reading → Token → Option Reading
  | .value stack, t => start strict stack t
  | .firstItem stack, .endArray => some (.after stack (.arr []))
  | .firstItem stack, t => start strict (.array [] :: stack) t
  | .firstKey stack, .endObject => some (.after stack (.obj []))
  | .firstKey stack, .str k => some (.colon stack (some []) k)
  | .firstKey stack, .unpaired => some (.colon stack none "")
  | .key stack before, .str k => some (.colon stack before k)
  | .key stack _, .unpaired => some (.colon stack none "")
  | .colon stack before k, .colon => some (.value (.object before k :: stack))
  | .after (.array before :: stack) v, .comma => some (.value (.array (v :: before) :: stack))
  | .after (.array before :: stack) v, .endArray =>
    some (.after stack (.arr (v :: before).reverse))
  | .after (.object before k :: stack) v, .comma => some (.key stack (before.map ((k, v) :: ·)))
  | .after (.object before k :: stack) v, .endObject => some (.after stack (object before k v))
  | _, _ => none

def run (strict : Bool) : Reading → List Token → Option Reading
  | state, [] => some state
  | state, t :: rest => (step strict state t).bind fun next => run strict next rest

theorem opened_lenient {stack : List Frame} {state next : Reading}
    (h : opened true stack state = some next) : opened false stack state = some next := by
  unfold opened at h ⊢
  split at h
  · cases h
  · exact h

theorem start_lenient {stack : List Frame} {t : Token} {next : Reading}
    (h : start true stack t = some next) : start false stack t = some next := by
  cases t with
  | beginArray => exact opened_lenient h
  | beginObject => exact opened_lenient h
  | _ => exact h

theorem step_lenient {state next : Reading} {t : Token} (h : step true state t = some next) :
    step false state t = some next := by
  unfold step at h ⊢
  split at h
  case h_1 => exact start_lenient h
  case h_3 => exact start_lenient h
  all_goals exact h

theorem run_lenient {state final : Reading} {tokens : List Token}
    (h : run true state tokens = some final) : run false state tokens = some final := by
  induction tokens generalizing state with
  | nil => exact h
  | cons t rest ih =>
    simp only [run, Option.bind_eq_some_iff] at h ⊢
    obtain ⟨next, hstep, hrest⟩ := h
    exact ⟨next, step_lenient hstep, ih hrest⟩

end Reading

def ofTokens? (strict : Bool) (tokens : List Token) : Option Json :=
  match Reading.run strict (.value []) tokens with
  | some (.after [] v) => some v
  | _ => none

def ofText? (text : String) : Option Json :=
  (Token.ofText? true text.toList).bind (ofTokens? true)

/-- The value that the text holds under lenient reading, repeated keys as written. It is meant for
readers that pass over parts of the value and take numbers nowhere else. -/
def skim? (text : String) : Option Json :=
  (Token.ofText? false text.toList).bind (ofTokens? false)

theorem ofTokens?_lenient {tokens : List Token} {v : Json} (h : ofTokens? true tokens = some v) :
    ofTokens? false tokens = some v := by
  unfold ofTokens? at h ⊢
  split at h
  · rename_i hrun
    rw [Reading.run_lenient hrun]
    exact h
  · cases h

/-- What strict reading accepts, lenient reading reads in the same way. -/
theorem skim?_of_ofText? {text : String} {v : Json} (h : ofText? text = some v) :
    skim? text = some v := by
  simp only [ofText?, Option.bind_eq_some_iff] at h
  obtain ⟨tokens, htokens, hvalue⟩ := h
  simp only [skim?, Token.ofText?_lenient htokens, Option.bind_some, ofTokens?_lenient hvalue]

/-- The value that the text holds, with repeated keys settled. -/
def parse? (text : String) : Option Json := (ofText? text).map merged

end Crosswalk.Json
