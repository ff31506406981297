import Crosswalk.Date.Reading
import Crosswalk.Proofs.Grammar
import Mathlib.Data.Nat.Digits.Defs

/-!
# ISO dates

The ISO text of a date is read back as that date by the pattern it is written by. A
number is written with digits only and ends before the next separator, so reading
takes exactly its digits; a year beyond the four digits that a plain number may have
carries a sign, after which any count of digits is read.
-/

namespace Crosswalk.Date

/-! ### Digits -/

def EndsNumber (rest : List Char) : Prop := ∀ c, rest.head? = some c → c.isDigit = false

theorem endsNumber_nil : EndsNumber [] := fun _ h => nomatch h

theorem endsNumber_dash (rest : List Char) : EndsNumber ('-' :: rest) := by
  intro c hc
  rw [← Option.some.inj hc]
  rfl

theorem isDigit_padded (width n : Nat) : ∀ c ∈ padded width n, c.isDigit = true := by
  intro c hc
  rcases List.mem_append.1 hc with hzero | hdigit
  · rw [List.eq_of_mem_replicate hzero]
    rfl
  · exact Nat.isDigit_of_mem_toDigits (b := 10) (by decide) (by decide) hdigit

theorem padded_ne_nil (width n : Nat) : padded width n ≠ [] :=
  List.append_ne_nil_of_right_ne_nil _ Nat.toDigits_ne_nil

theorem decimalValue_zeros (count : Nat) :
    Text.decimalValue 0 (List.replicate count '0') = 0 := by
  induction count with
  | zero => rfl
  | succ count ih => exact ih

theorem decimalValue_padded (width n : Nat) : Text.decimalValue 0 (padded width n) = n := by
  have hzeros := decimalValue_zeros (width - (Nat.toDigits 10 n).length)
  rw [Text.decimalValue] at hzeros
  rw [padded, Text.decimalValue, List.foldl_append, hzeros, ← Text.decimalValue,
    Expression.decimalValue_eq_ofDigitChars, Nat.ofDigitChars_ten_toDigits]

theorem length_padded_le (width n : Nat) (hwidth : 0 < width) (h : n < 10 ^ width) :
    (padded width n).length ≤ width := by
  have hdigits := Nat.toDigits_length 10 n width hwidth h
  rw [padded, List.length_append, List.length_replicate]
  omega

theorem isBlank_of_isDigit (c : Char) (h : c.isDigit = true) : Text.isBlank c = false := by
  obtain ⟨hlow, hhigh⟩ := Char.isDigit_iff_toNat.1 h
  change 48 ≤ c.toNat at hlow
  change c.toNat ≤ 57 at hhigh
  simp only [Text.isBlank, Text.blankCodes, List.contains_eq_mem, decide_eq_false_iff_not,
    List.mem_cons, List.not_mem_nil, or_false]
  omega

/-! ### Numbers are read back -/

theorem readNatural?_digits (width : Option Nat) (digits rest : List Char) (hne : digits ≠ [])
    (hdigits : ∀ c ∈ digits, c.isDigit = true) (hrest : EndsNumber rest)
    (hwidth : ∀ w, width = some w → digits.length ≤ w)
    (hvalue : 2 * Text.decimalValue 0 digits < Text.wordLimit) :
    readNatural? width (digits ++ rest) = some (Text.decimalValue 0 digits, rest) := by
  have hrun : (digits ++ rest).takeWhile Char.isDigit = digits := by
    rw [List.takeWhile_append_of_pos hdigits]
    cases rest with
    | nil => exact List.append_nil _
    | cons c rest =>
      rw [List.takeWhile_cons_of_neg (by rw [hrest c rfl]; exact Bool.false_ne_true),
        List.append_nil]
  have hguard : (digits.isEmpty || decide (Text.wordLimit ≤ 2 * Text.decimalValue 0 digits)) =
      false := by
    simp [hne, hvalue]
  cases width with
  | none => simp only [readNatural?, hrun, hguard, Bool.false_eq_true, if_false, List.drop_left]
  | some w =>
    simp only [readNatural?, hrun, List.take_of_length_le (hwidth w rfl), hguard,
      Bool.false_eq_true, if_false, List.drop_left]

theorem readNatural?_padded (width : Option Nat) (least n : Nat) (rest : List Char)
    (hrest : EndsNumber rest) (hwidth : ∀ w, width = some w → (padded least n).length ≤ w)
    (hn : 2 * n < Text.wordLimit) :
    readNatural? width (padded least n ++ rest) = some (n, rest) := by
  have hread := readNatural?_digits width (padded least n) rest (padded_ne_nil least n)
    (isDigit_padded least n) hrest hwidth
  rw [decimalValue_padded] at hread
  exact hread hn

theorem readInteger?_of_isDigit (field : NumberField) (c : Char) (rest : List Char)
    (hc : c.isDigit = true) :
    readInteger? field (c :: rest) =
      (readNatural? field.width.1 (c :: rest)).map fun (n, after) => ((n : Int), after) := by
  have hstart : Text.dropBlank (c :: rest) = c :: rest :=
    List.dropWhile_cons_of_neg (by rw [isBlank_of_isDigit c hc]; exact Bool.false_ne_true)
  rw [readInteger?, hstart]
  dsimp only
  split
  · rename_i heq
    rw [(List.cons.inj heq).1] at hc
    exact absurd hc (by decide)
  · rename_i heq
    rw [(List.cons.inj heq).1] at hc
    exact absurd hc (by decide)
  · rfl

theorem readInteger?_padded (field : NumberField) (width n : Nat) (rest : List Char)
    (hfield : field.width.1 = some width) (hwidth : 0 < width) (hn : n < 10 ^ width)
    (hword : 2 * n < Text.wordLimit) (hrest : EndsNumber rest) :
    readInteger? field (padded width n ++ rest) = some ((n : Int), rest) := by
  have hread : readNatural? field.width.1 (padded width n ++ rest) = some (n, rest) := by
    rw [hfield]
    refine readNatural?_padded _ _ _ _ hrest (fun w hw => ?_) hword
    rw [← Option.some.inj hw]
    exact length_padded_le width n hwidth hn
  obtain ⟨c, digits, hpadded⟩ := List.exists_cons_of_ne_nil (padded_ne_nil width n)
  have hc : c.isDigit = true :=
    isDigit_padded width n c (by rw [hpadded]; exact List.mem_cons_self)
  rw [hpadded, List.cons_append] at hread
  rw [hpadded, List.cons_append, readInteger?_of_isDigit field c _ hc, hread]
  rfl

def isoYear (year : Int) : List Char :=
  (if year < 0 then ['-'] else if 9999 < year then ['+'] else []) ++ padded 4 year.natAbs

theorem readInteger?_isoYear (year : Int) (rest : List Char)
    (hword : 2 * year.natAbs < Text.wordLimit) (hrest : EndsNumber rest) :
    readInteger? .year (isoYear year ++ rest) = some (year, rest) := by
  have hsigned := readNatural?_padded none 4 year.natAbs rest hrest (fun _ h => nomatch h) hword
  by_cases hnegative : year < 0
  · have hyear : -(year.natAbs : Int) = year := by omega
    rw [isoYear, if_pos hnegative]
    change (readNatural? none (padded 4 year.natAbs ++ rest)).map _ = _
    rw [hsigned]
    exact congrArg (fun y => some (y, rest)) hyear
  · have hyear : (year.natAbs : Int) = year := by omega
    by_cases hlong : 9999 < year
    · rw [isoYear, if_neg hnegative, if_pos hlong]
      change (readNatural? none (padded 4 year.natAbs ++ rest)).map _ = _
      rw [hsigned]
      exact congrArg (fun y => some (y, rest)) hyear
    · rw [isoYear, if_neg hnegative, if_neg hlong, List.nil_append,
        readInteger?_padded .year 4 _ rest rfl (by decide) (by omega) hword hrest, hyear]

/-! ### Dates are read back -/

theorem iso_toList (date : Date) :
    date.iso.toList = isoYear date.year ++
      '-' :: (padded 2 date.month ++ '-' :: padded 2 date.day) := by
  rw [iso, String.toList_ofList]
  simp only [isoYear, List.append_assoc, List.cons_append]

theorem monthLengths_le (year : Int) : ∀ days ∈ monthLengths year, days ≤ 31 := by
  have hfebruary : (if isLeap year then 29 else 28) ≤ 31 := by split <;> decide
  simp [monthLengths, hfebruary]

theorem daysInMonth_le (year : Int) (month : Nat) : daysInMonth year month ≤ 31 := by
  cases month with
  | zero => exact Nat.zero_le _
  | succ month =>
    rw [daysInMonth, List.getD_eq_getElem?_getD]
    cases hmonth : (monthLengths year)[month]? with
    | none => exact Nat.zero_le _
    | some days => exact monthLengths_le year days (List.mem_of_getElem? hmonth)

theorem month_bounds (date : Date) : 1 ≤ date.month ∧ date.month ≤ 12 := by
  obtain ⟨-, -, hone, hdays⟩ := date.valid
  cases hmonth : date.month with
  | zero =>
    rw [hmonth, daysInMonth] at hdays
    omega
  | succ month =>
    refine ⟨Nat.le_add_left 1 month, ?_⟩
    by_contra hlate
    have hlength : (monthLengths date.year).length = 12 := rfl
    rw [hmonth, daysInMonth, List.getD_eq_getElem?_getD,
      List.getElem?_eq_none (by omega), Option.getD_none] at hdays
    omega

theorem day_bounds (date : Date) : 1 ≤ date.day ∧ date.day ≤ 31 :=
  ⟨date.valid.2.2.1, date.valid.2.2.2.trans (daysInMonth_le date.year date.month)⟩

theorem ofText?_iso : Pattern.ofText? "%Y-%m-%d" =
    some [.number .year, .literal '-', .number .month, .literal '-', .number .day] := by
  rfl

namespace Parts

theorem stateWithin?_new (low high : Int) (part : Part) (value : Int) (parts : Parts)
    (hvalue : low ≤ value ∧ value ≤ high) (hnew : parts.get? part = none) :
    stateWithin? low high part value parts = some ((part, value) :: parts) := by
  rw [stateWithin?, if_pos hvalue, state?, hnew]

theorem date?_iso (date : Date) :
    date? [(.day, (date.day : Int)), (.month, (date.month : Int)), (.year, date.year)] =
      some date := by
  simp [date?, get?, resolvedYear?, candidate?, ofYearMonthDay?, date.valid, agreesOnDay,
    agreesOnYear, agreesOnIsoWeek, agreesOnOrdinal, agrees]

end Parts

theorem read?_literal (c : Char) (rest : Pattern) (parts : Parts) (cs : List Char) :
    Pattern.read? (.literal c :: rest) parts (c :: cs) = rest.read? parts cs := by
  simp only [Pattern.read?, Element.read?, if_true, Option.bind_some]

theorem read?_number {field : NumberField} {parts next : Parts} {cs after : List Char} {n : Int}
    (rest : Pattern) (hread : readInteger? field cs = some (n, after))
    (hstate : parts.stateNumber? field n = some next) :
    Pattern.read? (.number field :: rest) parts cs = rest.read? next after := by
  simp only [Pattern.read?, Element.read?, hread, hstate, Option.bind_some, Option.map_some]

theorem parse?_iso (date : Date) : parse? "%Y-%m-%d" date.iso = some date := by
  obtain ⟨hlow, hhigh, -, -⟩ := date.valid
  rw [minYear] at hlow
  rw [maxYear] at hhigh
  obtain ⟨hjanuary, hdecember⟩ := month_bounds date
  obtain ⟨hfirst, hlast⟩ := day_bounds date
  have hyear := readInteger?_isoYear date.year
    ('-' :: (padded 2 date.month ++ '-' :: padded 2 date.day))
    (by rw [Text.wordLimit]; omega) (endsNumber_dash _)
  have hmonth := readInteger?_padded .month 2 date.month ('-' :: padded 2 date.day)
    rfl (by decide) (by omega) (by rw [Text.wordLimit]; omega) (endsNumber_dash _)
  have hday := readInteger?_padded .day 2 date.day [] rfl (by decide) (by omega)
    (by rw [Text.wordLimit]; omega) endsNumber_nil
  rw [List.append_nil] at hday
  rw [parse?, ofText?_iso, iso_toList, Option.bind_some,
    read?_number _ hyear (Parts.stateWithin?_new _ _ _ _ _ (by omega) rfl), read?_literal,
    read?_number _ hmonth (Parts.stateWithin?_new _ _ _ _ _ (by omega) rfl), read?_literal,
    read?_number _ hday (Parts.stateWithin?_new _ _ _ _ _ (by omega) rfl)]
  exact Parts.date?_iso date

/-! ### Nothing of an ISO date is trimmed off -/

theorem not_isBlank_of_mem_isoYear (year : Int) : ∀ c ∈ isoYear year, Text.isBlank c = false := by
  intro c hc
  rcases List.mem_append.1 hc with hsign | hdigit
  · split at hsign
    · rw [List.mem_singleton.1 hsign]
      rfl
    · split at hsign
      · rw [List.mem_singleton.1 hsign]
        rfl
      · exact absurd hsign List.not_mem_nil
  · exact isBlank_of_isDigit c (isDigit_padded 4 year.natAbs c hdigit)

theorem trim_iso (date : Date) : Text.trim date.iso = date.iso := by
  refine Text.trim_of_no_blank date.iso fun c hc => ?_
  have hpadded (n : Nat) (h : c ∈ padded 2 n) : Text.isBlank c = false :=
    isBlank_of_isDigit c (isDigit_padded 2 n c h)
  rw [iso_toList, List.mem_append, List.mem_cons, List.mem_append, List.mem_cons] at hc
  rcases hc with hyear | rfl | hmonth | rfl | hday
  · exact not_isBlank_of_mem_isoYear date.year c hyear
  · rfl
  · exact hpadded date.month hmonth
  · rfl
  · exact hpadded date.day hday

end Crosswalk.Date
