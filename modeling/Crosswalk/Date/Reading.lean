import Crosswalk.Date.Calendar
import Crosswalk.Date.Pattern
import Crosswalk.Text.Ascii
import Crosswalk.Text.Digit

/-!
# Reading dates by patterns

Reading a text by a pattern collects the parts that the text states. A part may
be stated twice if both statements agree, and each part has its range. The parts
then have to determine a date: by year, month and day; by year and day of the
year; by year, week and weekday; or by ISO year, week and weekday. All other
parts that were stated must agree with that date, except for the time of day,
which only has to be well formed.
-/

namespace Crosswalk.Date

inductive Part where
  | year
  | century
  | yearOfCentury
  | isoYear
  | isoYearOfCentury
  | quarter
  | month
  | day
  | weekFromSunday
  | weekFromMonday
  | isoWeek
  | weekday
  | dayOfYear
  | half
  | hourOfHalf
  | minute
  | second
  | nanosecond
  | timestamp
  | offset
  deriving DecidableEq, Repr

abbrev Parts := List (Part × Int)

namespace Parts

def get? (part : Part) : Parts → Option Int
  | [] => none
  | (p, value) :: rest => if p = part then some value else get? part rest

/-- States a part, unless it contradicts what has been stated. -/
def state? (part : Part) (value : Int) (parts : Parts) : Option Parts :=
  match get? part parts with
  | none => some ((part, value) :: parts)
  | some old => if old = value then some parts else none

def stateWithin? (low high : Int) (part : Part) (value : Int) (parts : Parts) : Option Parts :=
  if low ≤ value ∧ value ≤ high then state? part value parts else none

def stateNumber? (field : NumberField) (value : Int) (parts : Parts) : Option Parts :=
  match field with
  | .year => stateWithin? (-2147483648) 2147483647 .year value parts
  | .century => stateWithin? 0 99 .century value parts
  | .yearOfCentury => stateWithin? 0 99 .yearOfCentury value parts
  | .isoYear => stateWithin? (-2147483648) 2147483647 .isoYear value parts
  | .isoYearOfCentury => stateWithin? 0 99 .isoYearOfCentury value parts
  | .quarter => stateWithin? 1 4 .quarter value parts
  | .month => stateWithin? 1 12 .month value parts
  | .day => stateWithin? 1 31 .day value parts
  | .weekFromSunday => stateWithin? 0 53 .weekFromSunday value parts
  | .weekFromMonday => stateWithin? 0 53 .weekFromMonday value parts
  | .isoWeek => stateWithin? 1 53 .isoWeek value parts
  | .weekdayFromSunday =>
    if 0 ≤ value ∧ value ≤ 6 then state? .weekday ((value + 6) % 7) parts else none
  | .weekdayFromMonday => stateWithin? 0 6 .weekday (value - 1) parts
  | .dayOfYear => stateWithin? 1 366 .dayOfYear value parts
  | .hour =>
    if 0 ≤ value ∧ value ≤ 23 then
      (state? .half (value / 12) parts).bind (state? .hourOfHalf (value % 12))
    else none
  | .hourOfHalf => if 1 ≤ value ∧ value ≤ 12 then state? .hourOfHalf (value % 12) parts else none
  | .minute => stateWithin? 0 59 .minute value parts
  | .second => stateWithin? 0 60 .second value parts
  | .nanosecond => stateWithin? 0 999999999 .nanosecond value parts
  | .timestamp => state? .timestamp value parts

end Parts

/-! ### Numbers -/

/-- How many digits a number takes when it has no sign, and whether it may have one. Years may have
a sign, and then any count of digits. -/
def NumberField.width : NumberField → Option Nat × Bool
  | .year | .isoYear => (some 4, true)
  | .quarter | .weekdayFromSunday | .weekdayFromMonday => (some 1, false)
  | .dayOfYear => (some 3, false)
  | .nanosecond => (some 9, false)
  | .timestamp => (none, false)
  | _ => (some 2, false)

/-- A number of at least one and at most `width` digits, below `2 ^ 63`. -/
def readNatural? (width : Option Nat) (cs : List Char) : Option (Nat × List Char) :=
  let run := cs.takeWhile Char.isDigit
  let digits := match width with
    | some w => run.take w
    | none => run
  let value := Text.decimalValue 0 digits
  if digits.isEmpty || Text.wordLimit ≤ 2 * value then none else some (value, cs.drop digits.length)

def readInteger? (field : NumberField) (cs : List Char) : Option (Int × List Char) :=
  let (width, signed) := field.width
  match signed, Text.dropBlank cs with
  | true, '-' :: rest => (readNatural? none rest).map fun (n, after) => (-(n : Int), after)
  | true, '+' :: rest => (readNatural? none rest).map fun (n, after) => ((n : Int), after)
  | _, rest => (readNatural? width rest).map fun (n, after) => ((n : Int), after)

/-! ### Names -/

def monthNames : List (String × String) :=
  [("jan", "uary"), ("feb", "ruary"), ("mar", "ch"), ("apr", "il"), ("may", ""), ("jun", "e"),
   ("jul", "y"), ("aug", "ust"), ("sep", "tember"), ("oct", "ober"), ("nov", "ember"),
   ("dec", "ember")]

def dayNames : List (String × String) :=
  [("mon", "day"), ("tue", "sday"), ("wed", "nesday"), ("thu", "rsday"), ("fri", "day"),
   ("sat", "urday"), ("sun", "day")]

/-- The place in the list of the name that the text starts with. With `full`, the rest of the name
is taken too if it follows. -/
def readName? (names : List (String × String)) (full : Bool) (cs : List Char) :
    Option (Nat × List Char) :=
  names.zipIdx.findSome? fun ((short, more), index) =>
    (Text.afterAlike? short.toList cs).map fun rest =>
      (index, if full then (Text.afterAlike? more.toList rest).getD rest else rest)

/-! ### Time of day -/

/-- Up to nine decimals of a second, in nanoseconds; further digits are passed over. -/
def readFraction? (cs : List Char) : Option (Nat × List Char) :=
  (readNatural? (some 9) cs).map fun (n, after) =>
    (n * Nat.pow 10 (9 - (cs.length - after.length)), after.dropWhile Char.isDigit)

def readDecimals? (count : Nat) (cs : List Char) : Option (Nat × List Char) :=
  if (cs.take count).length = count && (cs.take count).all Char.isDigit then
    some (Text.decimalValue 0 (cs.take count) * Nat.pow 10 (9 - count), cs.drop count)
  else none

def readOffsetMinutes? (bare : Bool) : List Char → Option (Nat × List Char)
  | a :: b :: rest =>
    if a.isDigit && b.isDigit && a < '6' then some (Text.decimalValue 0 [a, b], rest) else none
  | [] => if bare then some (0, []) else none
  | [_] => none

/-- The offset of a time zone in seconds: a sign, two digits, and two more after any colons and
white space. -/
def readOffset? (zulu bare : Bool) (cs : List Char) : Option (Int × List Char) :=
  let unsigned (negative : Bool) (cs : List Char) : Option (Int × List Char) :=
    match cs with
    | a :: b :: rest =>
      if a.isDigit && b.isDigit then
        let hours := Text.decimalValue 0 [a, b]
        let rest := rest.dropWhile fun c => c = ':' || Text.isBlank c
        (readOffsetMinutes? bare rest).map fun (minutes, after) =>
          let seconds : Int := hours * 3600 + minutes * 60
          (if negative then -seconds else seconds, after)
      else none
    | _ => none
  match cs with
  | '+' :: rest => unsigned false rest
  | '-' :: rest => unsigned true rest
  | '\u2212' :: rest => unsigned true rest
  | c :: rest => if zulu && (c = 'Z' || c = 'z') then some (0, rest) else none
  | [] => none

/-! ### Patterns -/

def Element.read? (e : Element) (parts : Parts) (cs : List Char) : Option (Parts × List Char) :=
  match e with
  | .literal c =>
    match cs with
    | d :: rest => if d = c then some (parts, rest) else none
    | [] => none
  | .blank => some (parts, Text.dropBlank cs)
  | .number field =>
    (readInteger? field cs).bind fun (n, rest) =>
      (parts.stateNumber? field n).map fun next => (next, rest)
  | .monthName full =>
    (readName? monthNames full cs).bind fun (index, rest) =>
      (parts.state? .month (index + 1)).map fun next => (next, rest)
  | .dayName full =>
    (readName? dayNames full cs).bind fun (index, rest) =>
      (parts.state? .weekday index).map fun next => (next, rest)
  | .halfDay =>
    (readName? [("am", ""), ("pm", "")] false cs).bind fun (index, rest) =>
      (parts.state? .half index).map fun next => (next, rest)
  | .fraction count =>
    match cs with
    | '.' :: rest =>
      (count.elim readFraction? readDecimals? rest).bind fun (n, after) =>
        (parts.state? .nanosecond n).map fun next => (next, after)
    | _ => some (parts, cs)
  | .decimals count =>
    (readDecimals? count cs).bind fun (n, after) =>
      (parts.state? .nanosecond n).map fun next => (next, after)
  | .zoneName => some (parts, cs.dropWhile fun c => !Text.isBlank c)
  | .offset zulu bare =>
    (readOffset? zulu bare (Text.dropBlank cs)).bind fun (seconds, after) =>
      (parts.state? .offset seconds).map fun next => (next, after)
  | .timeMark =>
    match cs with
    | c :: rest => if c = 't' || c = 'T' || c = ' ' then some (parts, rest) else none
    | [] => none
  | .offsetOrUtc =>
    let cs := Text.dropBlank cs
    let read := match Text.afterAlike? ['u', 't', 'c'] cs with
      | some rest => some (0, rest)
      | none => readOffset? true false cs
    read.bind fun (seconds, after) =>
      (parts.state? .offset seconds).map fun next => (next, after)

def Pattern.read? : Pattern → Parts → List Char → Option Parts
  | [], parts, [] => some parts
  | [], _, _ :: _ => none
  | e :: rest, parts, cs =>
    (e.read? parts cs).bind fun (next, after) => Pattern.read? rest next after

/-! ### From parts to a date -/

namespace Parts

/-- The year that is stated in full, by its century, or by its last two digits, which then mean
1970 to 2069. The outer result is empty when the statements contradict each other or leave the year
open. -/
def resolvedYear? : Option Int → Option Int → Option Int → Option (Option Int)
  | full, none, none => some full
  | some full, hundreds, last =>
    if 0 ≤ full ∧ hundreds.getD (full / 100) = full / 100 ∧ last.getD (full % 100) = full % 100 then
      some (some full)
    else none
  | none, some hundreds, some last => some (some (hundreds * 100 + last))
  | none, none, some last => some (some (last + if last < 70 then 2000 else 1900))
  | none, some _, none => none

def agrees (parts : Parts) (part : Part) (value : Int) : Bool :=
  (parts.get? part).all fun stated => stated = value

def agreesOnYear (parts : Parts) (whole hundreds rest : Part) (value : Int) : Bool :=
  parts.agrees whole value
    && (parts.get? hundreds).all (fun c => 0 ≤ value && c = value / 100)
    && (parts.get? rest).all (fun y => 0 ≤ value && y = value % 100)

def agreesOnDay (parts : Parts) (date : Date) : Bool :=
  parts.agreesOnYear .year .century .yearOfCentury date.year
    && parts.agrees .month date.month && parts.agrees .day date.day

def agreesOnIsoWeek (parts : Parts) (date : Date) : Bool :=
  parts.agrees .isoYear date.isoWeek.1
    && (parts.get? .isoYearOfCentury).all
      (fun y => 0 ≤ date.isoWeek.1 && y = date.isoWeek.1 % 100)
    && parts.agrees .isoWeek date.isoWeek.2 && parts.agrees .weekday date.weekday

def agreesOnOrdinal (parts : Parts) (date : Date) : Bool :=
  parts.agrees .dayOfYear date.ordinal
    && parts.agrees .weekFromSunday (date.weekFrom 6)
    && parts.agrees .weekFromMonday (date.weekFrom 0)

/-- The date that the parts determine first, in the order of the ways to determine one. -/
def candidate? (parts : Parts) (year isoYear : Option Int) : Option Date :=
  let part (p : Part) : Option Nat := (parts.get? p).map Int.toNat
  match year, part .month, part .day, part .dayOfYear, part .weekday with
  | some y, some m, some d, _, _ => ofYearMonthDay? y m d
  | some y, _, _, some n, _ => ofOrdinal? y n
  | year, _, _, _, some weekday =>
    match year, part .weekFromSunday, part .weekFromMonday, isoYear, part .isoWeek with
    | some y, some week, _, _, _ => ofWeek? 6 y week weekday
    | some y, none, some week, _, _ => ofWeek? 0 y week weekday
    | _, _, _, some y, some week => ofIsoWeek? y week weekday
    | _, _, _, _, _ => none
  | _, _, _, _, _ => none

def date? (parts : Parts) : Option Date := do
  let year ← resolvedYear? (parts.get? .year) (parts.get? .century) (parts.get? .yearOfCentury)
  let isoYear ← resolvedYear? (parts.get? .isoYear) none (parts.get? .isoYearOfCentury)
  let date ← candidate? parts year isoYear
  if parts.agreesOnDay date && parts.agreesOnIsoWeek date && parts.agreesOnOrdinal date
      && parts.agrees .quarter date.quarter then
    some date
  else none

end Parts

def parse? (pattern text : String) : Option Date :=
  ((Pattern.ofText? pattern).bind fun p => p.read? [] text.toList).bind Parts.date?

/-- The ISO text of the date that the text means by the first pattern that fits it; the text itself
if none does. White space around a date makes no difference. -/
def normalize (patterns : List String) (text : String) : String :=
  match patterns.findSome? fun pattern => parse? pattern (Text.trim text) with
  | some date => date.iso
  | none => text

end Crosswalk.Date
