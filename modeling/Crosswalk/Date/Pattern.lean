import Crosswalk.Text.Blank

/-!
# Date patterns

A pattern describes how a date is written: text that stands for itself, white
space, and specifiers that start with a percent sign. A specifier is a letter,
perhaps with a padding mark before it, which makes no difference for reading and
goes with plain numbers only; some letters abbreviate a longer pattern. A
pattern with a specifier that is not known fits no text.
-/

namespace Crosswalk.Date

inductive NumberField where
  | year
  | century
  | yearOfCentury
  | isoYear
  | isoYearOfCentury
  | quarter
  | month
  | day
  | weekFromSunday
  | weekFromMonday
  | isoWeek
  | weekdayFromSunday
  | weekdayFromMonday
  | dayOfYear
  | hour
  | hourOfHalf
  | minute
  | second
  | nanosecond
  | timestamp
  deriving DecidableEq, Repr

inductive Element where
  | literal (c : Char)
  | blank
  | number (field : NumberField)
  /-- An English month name: its first three letters, or also the full name. -/
  | monthName (full : Bool)
  | dayName (full : Bool)
  | halfDay
  /-- A point with decimals of a second, if there is a point; exactly as many decimals, if their
  count is given. -/
  | fraction (count : Option Nat)
  | decimals (count : Nat)
  | zoneName
  /-- The offset of a time zone; `Z` and missing minutes are allowed or not. -/
  | offset (zulu bare : Bool)
  | timeMark
  | offsetOrUtc
  deriving DecidableEq, Repr

abbrev Pattern := List Element

namespace Pattern

def numberOf? : Char → Option NumberField
  | 'Y' => some .year
  | 'C' => some .century
  | 'y' => some .yearOfCentury
  | 'G' => some .isoYear
  | 'g' => some .isoYearOfCentury
  | 'q' => some .quarter
  | 'm' => some .month
  | 'd' => some .day
  | 'e' => some .day
  | 'U' => some .weekFromSunday
  | 'W' => some .weekFromMonday
  | 'V' => some .isoWeek
  | 'w' => some .weekdayFromSunday
  | 'u' => some .weekdayFromMonday
  | 'j' => some .dayOfYear
  | 'H' => some .hour
  | 'k' => some .hour
  | 'I' => some .hourOfHalf
  | 'l' => some .hourOfHalf
  | 'M' => some .minute
  | 'S' => some .second
  | 'f' => some .nanosecond
  | 's' => some .timestamp
  | _ => none

def single? : Char → Option Element
  | '%' => some (.literal '%')
  | 'n' => some .blank
  | 't' => some .blank
  | 'B' => some (.monthName true)
  | 'b' => some (.monthName false)
  | 'h' => some (.monthName false)
  | 'A' => some (.dayName true)
  | 'a' => some (.dayName false)
  | 'p' => some .halfDay
  | 'P' => some .halfDay
  | 'Z' => some .zoneName
  | 'z' => some (.offset false false)
  | c => (numberOf? c).map .number

/-- The element of a specifier, given the text after the percent sign, and how many characters the
specifier takes. -/
def specifier? : List Char → Option (Element × Nat)
  | '.' :: 'f' :: _ => some (.fraction none, 2)
  | '.' :: '3' :: 'f' :: _ => some (.fraction (some 3), 3)
  | '.' :: '6' :: 'f' :: _ => some (.fraction (some 6), 3)
  | '.' :: '9' :: 'f' :: _ => some (.fraction (some 9), 3)
  | '3' :: 'f' :: _ => some (.decimals 3, 2)
  | '6' :: 'f' :: _ => some (.decimals 6, 2)
  | '9' :: 'f' :: _ => some (.decimals 9, 2)
  | ':' :: 'z' :: _ => some (.offset false false, 2)
  | ':' :: ':' :: 'z' :: _ => some (.offset false false, 3)
  | ':' :: ':' :: ':' :: 'z' :: _ => some (.offset false false, 4)
  | '#' :: 'z' :: _ => some (.offset true true, 2)
  | '-' :: c :: _ => (numberOf? c).map fun f => (.number f, 2)
  | '0' :: c :: _ => (numberOf? c).map fun f => (.number f, 2)
  | '_' :: c :: _ => (numberOf? c).map fun f => (.number f, 2)
  | c :: _ => (single? c).map fun e => (e, 1)
  | [] => none

def ofChar (c : Char) : Element := if Text.isBlank c then .blank else .literal c

/-- The elements of the text. A letter may stand for a longer pattern, as given by `expand`. The
second argument counts the characters of a specifier that are still to be passed over. -/
def elements? (expand : Char → Option Pattern) : Nat → List Char → Option Pattern
  | _, [] => some []
  | skip + 1, _ :: rest => elements? expand skip rest
  | 0, ['%'] => none
  | 0, '%' :: c :: rest =>
    match expand c with
    | some pattern => (elements? expand 1 (c :: rest)).map (pattern ++ ·)
    | none =>
      match specifier? (c :: rest) with
      | some (e, taken) => (elements? expand taken (c :: rest)).map (e :: ·)
      | none => none
  | 0, c :: rest => (elements? expand 0 rest).map (ofChar c :: ·)

def abbreviated? : Char → Option String
  | 'D' => some "%m/%d/%y"
  | 'x' => some "%m/%d/%y"
  | 'F' => some "%Y-%m-%d"
  | 'v' => some "%e-%b-%Y"
  | 'R' => some "%H:%M"
  | 'T' => some "%H:%M:%S"
  | 'X' => some "%H:%M:%S"
  | 'r' => some "%I:%M:%S %p"
  | 'c' => some "%a %b %e %H:%M:%S %Y"
  | _ => none

def timestamp : Pattern :=
  [.number .year, .blank, .literal '-', .number .month, .blank, .literal '-', .number .day,
   .timeMark, .number .hour, .blank, .literal ':', .number .minute, .blank, .literal ':',
   .number .second, .fraction none, .blank, .offsetOrUtc]

def expansion? (c : Char) : Option Pattern :=
  if c = '+' then some timestamp
  else (abbreviated? c).bind fun text => elements? (fun _ => none) 0 text.toList

def ofText? (text : String) : Option Pattern := elements? expansion? 0 text.toList

end Pattern

end Crosswalk.Date
