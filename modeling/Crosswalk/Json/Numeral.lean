import Crosswalk.Json.Basic
import Crosswalk.Text.Digit

/-!
# Numerals of JSON text

A numeral is an optional minus sign, a whole part without needless zeros, an
optional fraction and an optional power of ten. Without fraction and power it
denotes an integer, as long as that fits into 64 bits: below `2 ^ 64` without
the sign, down to `-2 ^ 63` with it. Everything else is a double, and `-0` is
one too. Of a numeral with too many digits for 64 bits, only the leading digits
that fit count; a numeral beyond the doubles denotes nothing.
-/

namespace Crosswalk.Json

structure Numeral where
  negative : Bool
  whole : List Char
  fraction : Option (List Char)
  /-- The sign (true for minus) and the digits of the power of ten. -/
  power : Option (Bool × List Char)
  deriving Repr

namespace Numeral

/-- Continues the number `start` with the digits while it stays below `2 ^ 64`; also tells how many
digits are left over. -/
def leading (start : Nat) : List Char → Nat × Nat
  | [] => (start, 0)
  | c :: rest =>
    let next := Text.decimalValue start [c]
    if next < Text.wordLimit then leading next rest else (start, rest.length + 1)

def powerValue : Option (Bool × List Char) → Int
  | none => 0
  | some (true, digits) => -(Text.decimalValue 0 digits : Int)
  | some (false, digits) => Text.decimalValue 0 digits

def value? (n : Numeral) : Option Number :=
  let (whole, dropped) := leading 0 n.whole
  match n.fraction, n.power, dropped with
  | none, none, 0 =>
    if ¬ n.negative then some (.int whole)
    else if whole = 0 ∨ Text.wordLimit < 2 * whole then (Double.ofDecimal? true whole 0).map .double
    else some (.int (-whole))
  | fraction, power, _ =>
    let digits := fraction.getD []
    let (significand, skipped) := leading whole digits
    let used : Nat := digits.length - skipped
    (Double.ofDecimal? n.negative significand ((dropped : Int) - used + powerValue power)).map
      .double

/-! ### Reading -/

def digitRun (cs : List Char) : List Char × List Char :=
  (cs.takeWhile Char.isDigit, cs.dropWhile Char.isDigit)

theorem digitRun_append (cs : List Char) : (digitRun cs).1 ++ (digitRun cs).2 = cs :=
  List.takeWhile_append_dropWhile

def readWhole? (cs : List Char) : Option (List Char × List Char) :=
  match digitRun cs with
  | ([], _) => none
  | (['0'], rest) => some (['0'], rest)
  | ('0' :: _, _) => none
  | run => some run

def readFraction? : List Char → Option (Option (List Char) × List Char)
  | '.' :: cs =>
    match digitRun cs with
    | ([], _) => none
    | (digits, rest) => some (some digits, rest)
  | cs => some (none, cs)

def readSign : List Char → Bool × List Char
  | '-' :: cs => (true, cs)
  | '+' :: cs => (false, cs)
  | cs => (false, cs)

def readPower? : List Char → Option (Option (Bool × List Char) × List Char)
  | c :: cs =>
    if c = 'e' ∨ c = 'E' then
      match digitRun (readSign cs).2 with
      | ([], _) => none
      | (digits, rest) => some (some ((readSign cs).1, digits), rest)
    else some (none, c :: cs)
  | [] => some (none, [])

def readMinus : List Char → Bool × List Char
  | '-' :: cs => (true, cs)
  | cs => (false, cs)

theorem length_readMinus (cs : List Char) : (readMinus cs).2.length ≤ cs.length := by
  unfold readMinus
  split
  · exact Nat.le_succ _
  · exact Nat.le_refl _

def read? (cs : List Char) : Option (Numeral × List Char) := do
  let (whole, afterWhole) ← readWhole? (readMinus cs).2
  let (fraction, afterFraction) ← readFraction? afterWhole
  let (power, afterPower) ← readPower? afterFraction
  some (⟨(readMinus cs).1, whole, fraction, power⟩, afterPower)

/-! ### Progress -/

theorem length_digitRun (cs : List Char) : (digitRun cs).2.length ≤ cs.length := by
  have h := congrArg List.length (digitRun_append cs)
  simp only [List.length_append] at h
  omega

theorem length_digitRun_lt {cs : List Char} (h : (digitRun cs).1 ≠ []) :
    (digitRun cs).2.length < cs.length := by
  have hlen := congrArg List.length (digitRun_append cs)
  have hpos := List.length_pos_iff.2 h
  simp only [List.length_append] at hlen
  omega

theorem readWhole?_length {cs digits rest : List Char} (h : readWhole? cs = some (digits, rest)) :
    rest.length < cs.length := by
  suffices hrun : (digitRun cs).1 ≠ [] ∧ (digitRun cs).2 = rest by
    obtain ⟨hne, rfl⟩ := hrun
    exact length_digitRun_lt hne
  unfold readWhole? at h
  split at h
  · cases h
  · rename_i run after heq
    simp only [Option.some.injEq, Prod.mk.injEq] at h
    rw [heq]
    exact ⟨List.cons_ne_nil _ _, h.2⟩
  · cases h
  · rename_i run hnil _ _
    simp only [Option.some.injEq] at h
    rw [h] at hnil ⊢
    exact ⟨fun hd => hnil rest (by rw [← hd]), rfl⟩

theorem readFraction?_length {cs rest : List Char} {fraction : Option (List Char)}
    (h : readFraction? cs = some (fraction, rest)) : rest.length ≤ cs.length := by
  unfold readFraction? at h
  split at h
  · rename_i tail
    have hlen := length_digitRun tail
    split at h
    · cases h
    · rename_i digits after _ heq
      simp only [Option.some.injEq, Prod.mk.injEq] at h
      rw [heq, h.2] at hlen
      exact Nat.le_succ_of_le hlen
  · simp only [Option.some.injEq, Prod.mk.injEq] at h
    exact Nat.le_of_eq (congrArg List.length h.2.symm)

theorem length_readSign (cs : List Char) : (readSign cs).2.length ≤ cs.length := by
  unfold readSign
  split <;> simp only [List.length_cons] <;> omega

theorem readPower?_length {cs rest : List Char} {power : Option (Bool × List Char)}
    (h : readPower? cs = some (power, rest)) : rest.length ≤ cs.length := by
  unfold readPower? at h
  split at h
  · rename_i c tail
    have hsign := length_readSign tail
    have hlen := length_digitRun (readSign tail).2
    split at h
    · split at h
      · cases h
      · rename_i digits after _ heq
        simp only [Option.some.injEq, Prod.mk.injEq] at h
        rw [heq, h.2] at hlen
        exact Nat.le_succ_of_le (Nat.le_trans hlen hsign)
    · simp only [Option.some.injEq, Prod.mk.injEq] at h
      exact Nat.le_of_eq (congrArg List.length h.2.symm)
  · simp only [Option.some.injEq, Prod.mk.injEq] at h
    exact Nat.le_of_eq (congrArg List.length h.2.symm)

theorem read?_length {cs rest : List Char} {n : Numeral} (h : read? cs = some (n, rest)) :
    rest.length < cs.length := by
  have hminus : (readMinus cs).2.length ≤ cs.length := length_readMinus cs
  simp only [read?, Option.bind_eq_bind, Option.bind_eq_some_iff, Prod.exists, Option.some.injEq,
    Prod.mk.injEq] at h
  obtain ⟨whole, afterWhole, hw, fraction, afterFraction, hf, power, afterPower, hp, -, rfl⟩ := h
  have h1 := readWhole?_length hw
  have h2 := readFraction?_length hf
  have h3 := readPower?_length hp
  omega

end Numeral

def Number.text : Number → List Char
  | .int n => if n < 0 then '-' :: Nat.toDigits 10 n.natAbs else Nat.toDigits 10 n.natAbs
  | .double d => d.text

end Crosswalk.Json
