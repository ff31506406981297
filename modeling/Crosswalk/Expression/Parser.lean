import Crosswalk.Error
import Crosswalk.Expression.Basic
import Crosswalk.Text.Blank
import Crosswalk.Text.Digit

/-!
# Reading expressions

Clauses are separated by `; else `, the tokens of a clause by white space. A
quote or backtick opens a literal, which reaches up to the next character of the
same sort; inside it nothing separates. So the text is first marked, character
by character, with what lies inside literals, and then cut twice at unmarked
places. The tokens are classified one by one, from left to right.
-/

namespace Crosswalk.Expression

/-! ### Literals -/

def isQuote (c : Char) : Bool := c = '"' || c = '\x60'

/-- A character of an expression, marked when it belongs to a literal. -/
abbrev Marked := Char × Bool

/-- Marks the characters of literals, their quotes included. The first argument is the quote of the
literal that is open; nothing results if one is open at the end. -/
def marked? : Option Char → List Char → Option (List Marked)
  | none, [] => some []
  | some _, [] => none
  | none, c :: rest =>
    (marked? (if isQuote c then some c else none) rest).map ((c, isQuote c) :: ·)
  | some quote, c :: rest =>
    (marked? (if c = quote then none else some quote) rest).map ((c, true) :: ·)

theorem map_fst_marked? {quote : Option Char} {cs : List Char} {ms : List Marked}
    (h : marked? quote cs = some ms) : ms.map Prod.fst = cs := by
  induction cs generalizing quote ms with
  | nil =>
    cases quote with
    | none =>
      simp only [marked?, Option.some.injEq] at h
      rw [← h]
      rfl
    | some q => cases h
  | cons c rest ih =>
    cases quote <;>
    · simp only [marked?, Option.map_eq_some_iff] at h
      obtain ⟨tail, ht, rfl⟩ := h
      rw [List.map_cons, ih ht]

/-! ### Cutting -/

def consFirst {α : Type} (a : α) : List (List α) → List (List α)
  | [] => [[a]]
  | piece :: rest => (a :: piece) :: rest

def separator : List Marked :=
  [(';', false), (' ', false), ('e', false), ('l', false), ('s', false), ('e', false), (' ', false)]

/-- Cuts at every separator. The first argument counts the characters of a separator that are still
to be passed over. -/
def clauseTexts : Nat → List Marked → List (List Marked)
  | _, [] => [[]]
  | skip + 1, _ :: rest => clauseTexts skip rest
  | 0, m :: rest =>
    if separator.isPrefixOf (m :: rest) then [] :: clauseTexts (separator.length - 1) rest
    else consFirst m (clauseTexts 0 rest)

def cutAtBlanks : List Marked → List (List Char)
  | [] => [[]]
  | (c, inside) :: rest =>
    if !inside && Text.isBlank c then [] :: cutAtBlanks rest else consFirst c (cutAtBlanks rest)

def tokenTexts (clause : List Marked) : List (List Char) :=
  (cutAtBlanks clause).filter fun piece => !piece.isEmpty

/-! ### Tokens -/

def todayText : List Char := "###TODAY###".toList

def removeText : List Char := "###REMOVE###".toList

def literal? (quote : Char) (rest : List Char) : Option Token :=
  if rest.getLast? = some quote ∧ quote ∉ rest.dropLast then
    some (.literal (String.ofList rest.dropLast))
  else none

/-- Subfield codes: at most two letters or digits of ASCII, each after a dollar sign. -/
def codes? : List Char → Option (List Char)
  | [] => some []
  | ['$', a] => if a.isAlphanum then some [a] else none
  | ['$', a, '$', b] => if a.isAlphanum && b.isAlphanum then some [a, b] else none
  | _ => none

def field? : List Char → Option Token
  | a :: b :: c :: rest =>
    if [a, b, c].all Text.isDecimalDigit then
      (codes? rest).map (.field (String.ofList [a, b, c]))
    else none
  | _ => none

/-- A position: an ASCII number below `2 ^ 64`. The first digit that is not ASCII, or that brings
the number beyond this, is the fault. -/
def position (token : String) : Nat → List Char → Except Error Nat
  | n, [] => .ok n
  | n, c :: rest =>
    match Text.digitValue? c with
    | none => .error (.positionNotAscii token)
    | some d =>
      if n * 10 + d < Text.wordLimit then position token (n * 10 + d) rest
      else .error (.positionTooLarge token)

/-- The parts of a byte range: three digits or the leader's tag, a slash, the first position and, if
there is one, the last position after a hyphen. -/
def rangeParts? : List Char → Option (List Char × List Char × Option (List Char))
  | a :: b :: c :: '/' :: rest =>
    let first := rest.takeWhile Text.isDecimalDigit
    if ([a, b, c].all Text.isDecimalDigit || String.ofList [a, b, c] = leaderTag)
        && !first.isEmpty then
      match rest.dropWhile Text.isDecimalDigit with
      | [] => some ([a, b, c], first, none)
      | '-' :: last =>
        if !last.isEmpty && last.all Text.isDecimalDigit then some ([a, b, c], first, some last)
        else none
      | _ => none
    else none
  | _ => none

def rangeToken (token tag : String) (first last : Nat) : Except Error Token :=
  if first = 0 ∨ last < first then .error (.emptyRange token)
  else .ok (.range tag (first - 1) last)

def classify (cs : List Char) : Except Error Token :=
  let token := String.ofList cs
  if cs = todayText then .ok .today
  else if cs = removeText then .ok .remove
  else
    match cs with
    | [] => .error (.unrecognizedToken token)
    | c :: rest =>
      if isQuote c then
        match literal? c rest with
        | some t => .ok t
        | none => .error (.malformedLiteral token)
      else
        match field? cs, rangeParts? cs with
        | some t, _ => .ok t
        | none, some (tag, first, last) => do
          let first ← position token 0 first
          let last ← match last with
            | none => .ok first
            | some digits => position token 0 digits
          rangeToken token (String.ofList tag) first last
        | none, none => .error (.unrecognizedToken token)

def parse (text : String) : Except Error Expression :=
  match marked? none text.toList with
  | none => .error (.unterminatedQuote text)
  | some ms => do
    let clauses ← (clauseTexts 0 ms).mapM fun clause => (tokenTexts clause).mapM classify
    .ok ⟨clauses⟩

end Crosswalk.Expression
