/-!
# Calendar dates

Dates of the Gregorian calendar, continued into the past, with a year zero and
negative years before it. Years run from -262143 to 262142. A date is also a day
of its year, a day of the week, and a day of an ISO week; an ISO week belongs to
the year that holds its Thursday. Days of the week count from Monday as zero.
-/

namespace Crosswalk

namespace Date

def isLeap (year : Int) : Bool := year % 4 = 0 && (year % 100 != 0 || year % 400 = 0)

def daysInYear (year : Int) : Nat := if isLeap year then 366 else 365

def monthLengths (year : Int) : List Nat :=
  [31, if isLeap year then 29 else 28, 31, 30, 31, 30, 31, 31, 30, 31, 30, 31]

/-- How many days the month has, counted from one; none if there is no such month. -/
def daysInMonth (year : Int) : Nat → Nat
  | 0 => 0
  | month + 1 => (monthLengths year).getD month 0

def minYear : Int := -262143

def maxYear : Int := 262142

def Valid (year : Int) (month day : Nat) : Prop :=
  minYear ≤ year ∧ year ≤ maxYear ∧ 1 ≤ day ∧ day ≤ daysInMonth year month

instance (year : Int) (month day : Nat) : Decidable (Valid year month day) := by
  unfold Valid
  infer_instance

end Date

structure Date where
  year : Int
  month : Nat
  day : Nat
  valid : Date.Valid year month day
  deriving DecidableEq, Repr

namespace Date

def ofYearMonthDay? (year : Int) (month day : Nat) : Option Date :=
  if h : Valid year month day then some ⟨year, month, day, h⟩ else none

def daysBefore (year : Int) (month : Nat) : Nat :=
  ((monthLengths year).take (month - 1)).foldl Nat.add 0

/-- The day of the year, counted from one. -/
def ordinal (date : Date) : Nat := daysBefore date.year date.month + date.day

def ofOrdinal? (year : Int) (ordinal : Nat) : Option Date :=
  (List.range 12).findSome? fun m =>
    ofYearMonthDay? year (m + 1) (ordinal - daysBefore year (m + 1))

def quarter (date : Date) : Nat := (date.month - 1) / 3 + 1

/-! ### Weeks -/

/-- The day of the week on the given day of the year. The first day of the year 1 is a Monday, and
every fourth year but three in four hundred moves the next year by two days and not by one. -/
def weekdayOf (year : Int) (ordinal : Int) : Nat :=
  let before := year - 1
  ((before * 365 + before / 4 - before / 100 + before / 400 + (ordinal - 1)) % 7).toNat

def weekday (date : Date) : Nat := weekdayOf date.year date.ordinal

def daysSince (day first : Nat) : Nat := (day + 7 - first) % 7

/-- The week of the year, when weeks start on the given day and those days that come before the
first start make week zero. -/
def weekFrom (first : Nat) (date : Date) : Nat :=
  (date.ordinal + 6 - daysSince date.weekday first) / 7

def ofWeek? (first : Nat) (year : Int) (week weekday : Nat) : Option Date :=
  let start := daysSince first (weekdayOf year 1)
  let ordinal := start + week * 7 + daysSince weekday first
  if 53 < week ∨ ordinal < 7 then none else ofOrdinal? year (ordinal - 6)

/-- How many ISO weeks the year has: 53 when it starts on a Thursday, or on a Wednesday as a leap
year, and 52 otherwise. -/
def isoWeeks (year : Int) : Nat :=
  if weekdayOf year 1 = 3 ∨ (weekdayOf year 1 = 2 ∧ isLeap year) then 53 else 52

def isoWeek (date : Date) : Int × Nat :=
  let week := (date.ordinal + 9 - date.weekday) / 7
  if week = 0 then (date.year - 1, isoWeeks (date.year - 1))
  else if isoWeeks date.year < week then (date.year + 1, 1)
  else (date.year, week)

def ofIsoWeek? (year : Int) (week weekday : Nat) : Option Date :=
  if week = 0 ∨ isoWeeks year < week then none
  else
    -- the fourth of January lies in the first week
    let ordinal : Int := (week * 7 + weekday : Nat) - (weekdayOf year 4 : Int) - 3
    if ordinal < 1 then ofOrdinal? (year - 1) (ordinal + daysInYear (year - 1)).toNat
    else if daysInYear year < ordinal then
      ofOrdinal? (year + 1) (ordinal - daysInYear year).toNat
    else ofOrdinal? year ordinal.toNat

/-! ### Text -/

def padded (width n : Nat) : List Char :=
  let digits := Nat.toDigits 10 n
  List.replicate (width - digits.length) '0' ++ digits

/-- The ISO text of the date. The year has at least four digits, and a sign if it lies outside 0 to
9999. -/
def iso (date : Date) : String :=
  let sign := if date.year < 0 then ['-'] else if 9999 < date.year then ['+'] else []
  String.ofList
    (sign ++ padded 4 date.year.natAbs ++ '-' :: padded 2 date.month ++ '-' :: padded 2 date.day)

end Date

end Crosswalk
