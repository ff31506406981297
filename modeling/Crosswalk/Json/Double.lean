/-!
# Doubles in exact arithmetic

A finite double is a sign and a number `significand * 2 ^ exponent` with a
significand below `2 ^ 53` and an exponent between `-1074` and `971`. Ratios of
natural numbers are rounded to the nearest double, a tie going to the even
significand, all in natural-number arithmetic. The text of a double has the
fewest digits that read back as it, and of those texts the nearest one; it is
positional from `0.00001` up to below `10 ^ 16` and scientific outside.
-/

namespace Crosswalk.Json

/-- A finite double: `significand * 2 ^ exponent` under a sign. -/
structure Double where
  negative : Bool
  significand : Nat
  exponent : Int
  deriving DecidableEq, Repr, Inhabited

namespace Double

def minExponent : Int := -1074

def maxExponent : Int := 971

def minNormal : Nat := 1 <<< 52

/-- A ratio with a power of two: numerator and denominator of `num / den * 2 ^ shift`. -/
def shifted (num den : Nat) (shift : Int) : Nat × Nat :=
  (num <<< shift.toNat, den <<< (-shift).toNat)

def roundHalfEven (num den : Nat) : Nat :=
  let q := num / den
  let r := num % den
  if 2 * r < den then q
  else if den < 2 * r then q + 1
  else if q % 2 = 0 then q else q + 1

/-- The nearest double to `num / den`, or nothing when that is beyond the largest double. -/
def ofRatio? (negative : Bool) (num den : Nat) : Option Double :=
  if num = 0 then some ⟨negative, 0, minExponent⟩
  else
    let guess : Int := (num.log2 : Int) - (den.log2 : Int) - 52
    let (n, d) := shifted num den (-guess)
    let exponent := max (if n < d * minNormal then guess - 1 else guess) minExponent
    let (n, d) := shifted num den (-exponent)
    let significand := roundHalfEven n d
    let (significand, exponent) :=
      if significand = 2 * minNormal then (minNormal, exponent + 1) else (significand, exponent)
    if maxExponent < exponent then none else some ⟨negative, significand, exponent⟩

def mul? (a b : Double) : Option Double :=
  let (n, d) := shifted (a.significand * b.significand) 1 (a.exponent + b.exponent)
  ofRatio? a.negative n d

def div? (a b : Double) : Option Double :=
  let (n, d) := shifted a.significand b.significand (a.exponent - b.exponent)
  ofRatio? a.negative n d

def powerOfTen? (n : Nat) : Option Double := ofRatio? false (Nat.pow 10 n) 1

/-- Divides by `10 ^ n`, in steps of at most `10 ^ 308`, rounding after each step. -/
def divPowerOfTen? (a : Double) (n : Nat) : Option Double :=
  if a.significand = 0 then some a
  else if n ≤ 308 then (powerOfTen? n).bind a.div?
  else ((powerOfTen? 308).bind a.div?).bind fun b => b.divPowerOfTen? (n - 308)
termination_by n

/-- The double for `significand * 10 ^ power`: the significand is rounded first, then its product
or quotient with the power of ten. -/
def ofDecimal? (negative : Bool) (significand : Nat) (power : Int) : Option Double :=
  (ofRatio? negative significand 1).bind fun a =>
    if power < 0 then a.divPowerOfTen? (-power).toNat
    else if a.significand = 0 then some a
    else if power ≤ 308 then (powerOfTen? power.toNat).bind a.mul?
    else none

/-! ### Text -/

def digits (n : Nat) : List Char := Nat.toDigits 10 n

/-- The power of ten just below or at `num / den`, for a positive ratio. -/
def magnitude (num den : Nat) : Int :=
  let guess : Int := ((digits num).length : Int) - ((digits den).length : Int)
  if den * Nat.pow 10 guess.toNat ≤ num * Nat.pow 10 (-guess).toNat then guess else guess - 1

/-- The ratios between which a number reads back as the double, and the double itself, over the
common unit `2 ^ (exponent - 2)`. The lower bound is nearer at a power of two. -/
def neighbourhood (a : Double) : Nat × Nat × Nat :=
  let below := if a.significand = minNormal ∧ minExponent < a.exponent then 1 else 2
  (4 * a.significand - below, 4 * a.significand, 4 * a.significand + 2)

/-- The multiple of `10 ^ power` nearest to the double among those that read back as it, given as
its factor. -/
def onGrid? (a : Double) (power : Int) : Option Nat :=
  let (low, mid, high) := a.neighbourhood
  let unit (m : Nat) : Nat × Nat :=
    let (n, d) := shifted m 1 (a.exponent - 2)
    (n * Nat.pow 10 (-power).toNat, d * Nat.pow 10 power.toNat)
  let (num, den) := unit mid
  let floor := num / den
  let inside (c : Nat) : Bool :=
    let (l, _) := unit low
    let (h, _) := unit high
    if a.significand % 2 = 0 then l ≤ c * den && c * den ≤ h else l < c * den && c * den < h
  match inside floor, inside (floor + 1) with
  | true, true => some (roundHalfEven num den)
  | true, false => some floor
  | false, true => some (floor + 1)
  | false, false => none

/-- The fewest digits that read back as the double, with the power of ten of the last one. A grid
just below a power of ten may yield that power itself, which is then a single digit one grid up. -/
def shortest (a : Double) : Nat × Int :=
  let (num, den) := shifted a.significand 1 a.exponent
  let top := magnitude num den
  let hits := (List.range 17).filterMap fun (n : Nat) =>
    (a.onGrid? (top - n)).map fun c =>
      if c % 10 = 0 then (c / 10, top - (n : Int) + 1) else (c, top - (n : Int))
  hits.headD (a.significand, 0)

/-- The digits `ds` times `10 ^ power`, written as a decimal fraction or in scientific form, where
the exponent has a sign in any case. -/
def layout (ds : List Char) (power : Int) : List Char :=
  let point : Int := ds.length + power
  if 0 ≤ power ∧ point ≤ 16 then ds ++ List.replicate power.toNat '0' ++ ['.', '0']
  else if 0 < point ∧ point ≤ 16 then ds.take point.toNat ++ '.' :: ds.drop point.toNat
  else if -5 < point ∧ point ≤ 0 then '0' :: '.' :: List.replicate (-point).toNat '0' ++ ds
  else
    let fraction := if ds.length = 1 then [] else '.' :: ds.drop 1
    let scale := point - 1
    let exponent := if scale < 0 then '-' :: digits (-scale).toNat else '+' :: digits scale.toNat
    ds.take 1 ++ fraction ++ 'e' :: exponent

def text (a : Double) : List Char :=
  let unsigned :=
    if a.significand = 0 then ['0', '.', '0']
    else
      let (c, power) := a.shortest
      layout (digits c) power
  if a.negative then '-' :: unsigned else unsigned

end Double

end Crosswalk.Json
