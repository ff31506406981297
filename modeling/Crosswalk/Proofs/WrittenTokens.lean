import Crosswalk.Json.Printer
import Crosswalk.Proofs.TokenForms

/-!
# Written tokens are read back

The text of a token is read as that token: a quoted text comes back with every character
that was escaped, and a numeral with its number, as long as the number is an integer of 64
bits and no further digit follows. In the text of a value a numeral stands before a comma,
a closing bracket or the end, so that the tokens of the value can be told apart.
-/

namespace Crosswalk.Json

/-! ### Quoted texts -/

namespace Quoted

theorem hexValue?_hexDigit (n : Nat) (h : n < 16) : hexValue? (hexDigit n) = some n := by
  have hall : ∀ n < 16, hexValue? (hexDigit n) = some n := by decide
  exact hall n h

theorem readCode?_control (c : Char) (rest : List Char) (h : c.toNat < 0x20) :
    readCode? ('0' :: '0' :: hexDigit (c.toNat / 16) :: hexDigit (c.toNat % 16) :: rest)
      = some (c, rest) := by
  have hhigh := hexValue?_hexDigit (c.toNat / 16) (by omega)
  have hlow := hexValue?_hexDigit (c.toNat % 16) (by omega)
  have hzero : hexValue? '0' = some 0 := by decide
  have hquad : hexQuad? ('0' :: '0' :: hexDigit (c.toNat / 16) :: hexDigit (c.toNat % 16) :: rest)
      = some (c.toNat, rest) := by
    have hcode : ((0 * 16 + 0) * 16 + c.toNat / 16) * 16 + c.toNat % 16 = c.toNat := by omega
    simp only [hexQuad?, hzero, hhigh, hlow, Option.bind_eq_bind, Option.bind_some, hcode]
  rw [readCode?, hquad]
  dsimp only
  rw [if_neg (by omega), if_neg (by omega), Char.ofNat_toNat]

theorem readChar?_encodeChar (c : Char) (rest : List Char) :
    readChar? (encodeChar c ++ rest) = some (c, rest) := by
  rw [encodeChar]
  split_ifs with hquote hslash hback htab hline hform hreturn hcontrol
  · rw [hquote]; rfl
  · rw [hslash]; rfl
  · rw [hback]; rfl
  · rw [htab]; rfl
  · rw [hline]; rfl
  · rw [hform]; rfl
  · rw [hreturn]; rfl
  · exact readCode?_control c rest hcontrol
  · rw [List.singleton_append, readChar?]
    · rw [if_neg (by tauto)]
    · exact fun rest hc _ => hslash hc
    · exact fun _ _ hc _ => hslash hc

theorem decode?_of_readChar? (cs rest : List Char) (c : Char) (h : readChar? cs = some (c, rest)) :
    decode? cs = (decode? rest).map fun (text, after) => (c :: text, after) := by
  rw [decode?]
  · split
    · rename_i hnone
      rw [h] at hnone
      cases hnone
    · rename_i hsome
      rw [h] at hsome
      cases hsome
      rfl
  · rintro tail rfl
    simp [readChar?] at h

theorem decode?_encode (cs after : List Char) :
    decode? (encode cs ++ '"' :: after) = some (cs, after) := by
  induction cs with
  | nil => rw [encode, List.flatMap_nil, List.nil_append, decode?]
  | cons c rest ih =>
    have hread := readChar?_encodeChar c (encode rest ++ '"' :: after)
    have hsplit : encode (c :: rest) ++ '"' :: after
        = encodeChar c ++ (encode rest ++ '"' :: after) := by
      rw [encode, List.flatMap_cons, List.append_assoc, encode]
    rw [hsplit, decode?_of_readChar? _ _ c hread, ih]
    rfl

end Quoted

/-! ### Numerals -/

/-- The text is empty or starts with a comma or a closing bracket, so that no token before it goes
on in it. -/
def Delimited (after : List Char) : Prop :=
  ∀ c, after.head? = some c → c = ',' ∨ c = ']' ∨ c = '}'

def IsWord (n : Int) : Prop := -Text.wordLimit ≤ 2 * n ∧ n < Text.wordLimit

namespace Numeral

theorem digitRun_append_delimited (digits after : List Char)
    (hdigits : ∀ c ∈ digits, c.isDigit = true) (hafter : Delimited after) :
    digitRun (digits ++ after) = (digits, after) := by
  rw [digitRun, List.takeWhile_append_of_pos hdigits, List.dropWhile_append_of_pos hdigits]
  cases after with
  | nil => simp
  | cons c rest =>
    have hc : c.isDigit = false := by
      rcases hafter c rfl with rfl | rfl | rfl <;> decide
    simp [hc]

theorem readFraction?_delimited (after : List Char) (h : Delimited after) :
    readFraction? after = some (none, after) := by
  unfold readFraction?
  split
  · rcases h '.' rfl with hc | hc | hc <;> cases hc
  · rfl

theorem readPower?_delimited (after : List Char) (h : Delimited after) :
    readPower? after = some (none, after) := by
  cases after with
  | nil => rfl
  | cons c rest =>
    have hc : ¬ (c = 'e' ∨ c = 'E') := by
      rcases h c rfl with rfl | rfl | rfl <;> decide
    rw [readPower?, if_neg hc]

theorem isDigit_toDigits (n : Nat) : ∀ c ∈ Nat.toDigits 10 n, c.isDigit = true :=
  fun _ hc => Nat.isDigit_of_mem_toDigits (by decide) (by decide) hc

theorem exists_toDigits_eq (n : Nat) :
    ∃ c rest, Nat.toDigits 10 n = c :: rest ∧ c.isDigit = true := by
  obtain ⟨c, rest, hdigits⟩ := List.exists_cons_of_ne_nil (Nat.toDigits_ne_nil (n := n) (b := 10))
  exact ⟨c, rest, hdigits, isDigit_toDigits n c (by rw [hdigits]; exact List.mem_cons_self)⟩

theorem head?_toDigits (n : Nat) (h : n ≠ 0) : (Nat.toDigits 10 n).head? ≠ some '0' := by
  induction n using Nat.strongRecOn with
  | ind n ih =>
    by_cases hlt : n < 10
    · rw [Nat.toDigits_of_lt_base hlt, List.head?_cons, ne_eq, Option.some.injEq,
        Nat.digitChar_eq_zero]
      exact h
    · have hless := ih (n / 10) (by omega) (by omega)
      rw [Nat.toDigits_of_base_le (by decide) (by omega),
        List.head?_append_of_ne_nil _ Nat.toDigits_ne_nil]
      exact hless

theorem readWhole?_toDigits (n : Nat) (after : List Char) (h : Delimited after) :
    readWhole? (Nat.toDigits 10 n ++ after) = some (Nat.toDigits 10 n, after) := by
  have hne : Nat.toDigits 10 n ≠ [] := Nat.toDigits_ne_nil
  rw [readWhole?, digitRun_append_delimited _ _ (isDigit_toDigits n) h]
  by_cases hzero : n = 0
  · rw [hzero]
    rfl
  · have hhead := head?_toDigits n hzero
    split
    · rename_i heq
      exact absurd (congrArg Prod.fst heq) hne
    · rename_i heq
      exact absurd (congrArg (fun run => run.1.head?) heq) hhead
    · rename_i heq
      exact absurd (congrArg (fun run => run.1.head?) heq) hhead
    · rfl

theorem readMinus_toDigits (n : Nat) (after : List Char) :
    readMinus (Nat.toDigits 10 n ++ after) = (false, Nat.toDigits 10 n ++ after) := by
  obtain ⟨c, rest, hdigits, hc⟩ := exists_toDigits_eq n
  rw [hdigits, List.cons_append, readMinus]
  rintro tail he
  rw [(List.cons.inj he).1] at hc
  cases hc

theorem read?_int (n : Int) (after : List Char) (h : Delimited after) :
    read? ((Number.int n).text ++ after)
      = some (⟨decide (n < 0), Nat.toDigits 10 n.natAbs, none, none⟩, after) := by
  have hwhole := readWhole?_toDigits n.natAbs after h
  have hfraction := readFraction?_delimited after h
  have hpower := readPower?_delimited after h
  by_cases hneg : n < 0
  · have hminus : readMinus ((Number.int n).text ++ after)
        = (true, Nat.toDigits 10 n.natAbs ++ after) := by
      rw [Number.text, if_pos hneg]
      rfl
    simp [read?, hminus, hwhole, hfraction, hpower, hneg]
  · have hminus : readMinus ((Number.int n).text ++ after)
        = (false, Nat.toDigits 10 n.natAbs ++ after) := by
      rw [Number.text, if_neg hneg]
      exact readMinus_toDigits n.natAbs after
    simp [read?, hminus, hwhole, hfraction, hpower, hneg]

theorem leading_of_lt (digits : List Char) (start : Nat)
    (h : Text.decimalValue start digits < Text.wordLimit) :
    leading start digits = (Text.decimalValue start digits, 0) := by
  induction digits generalizing start with
  | nil => rfl
  | cons c rest ih =>
    have hsplit : Text.decimalValue start (c :: rest)
        = Text.decimalValue (Text.decimalValue start [c]) rest := rfl
    rw [hsplit] at h ⊢
    have hle := Expression.le_decimalValue (Text.decimalValue start [c]) rest
    rw [leading, if_pos (by omega), ih _ h]

theorem value?_int (n : Int) (h : IsWord n) :
    value? ⟨decide (n < 0), Nat.toDigits 10 n.natAbs, none, none⟩ = some (.int n) := by
  obtain ⟨hlow, hhigh⟩ := h
  have habs : n.natAbs < Text.wordLimit := by
    rw [Text.wordLimit] at hlow hhigh ⊢
    omega
  obtain ⟨-, -, hvalue, -⟩ := Expression.isNumeral_toDigits n.natAbs habs
  have hleading : leading 0 (Nat.toDigits 10 n.natAbs) = (n.natAbs, 0) := by
    rw [leading_of_lt _ _ (by rw [hvalue]; exact habs), hvalue]
  by_cases hneg : n < 0
  · have hsmall : ¬ (n.natAbs = 0 ∨ Text.wordLimit < 2 * n.natAbs) := by omega
    have hback : -(n.natAbs : Int) = n := by omega
    simp only [value?, hleading, hneg, decide_true, not_true_eq_false, if_false, if_neg hsmall,
      hback]
  · have hback : (n.natAbs : Int) = n := by omega
    simp only [value?, hleading, hneg, decide_false, Bool.false_eq_true, not_false_eq_true,
      if_true, hback]

end Numeral

/-! ### Tokens -/

namespace Token

def Legible : Token → Prop
  | num (.int n) => IsWord n
  | num (.double _) => False
  | unpaired => False
  | _ => True

theorem read?_str (s : String) (after : List Char) :
    read? true '"' (Quoted.encode s.toList ++ '"' :: after) = some (str s, after) := by
  simp only [read?, Quoted.decode?_encode, String.ofList_toList]

theorem exists_text_int (n : Int) :
    ∃ c rest, (Number.int n).text = c :: rest ∧ (c = '-' ∨ c.isDigit = true) := by
  by_cases hneg : n < 0
  · exact ⟨'-', Nat.toDigits 10 n.natAbs, by rw [Number.text, if_pos hneg], Or.inl rfl⟩
  · obtain ⟨c, rest, hdigits, hc⟩ := Numeral.exists_toDigits_eq n.natAbs
    exact ⟨c, rest, by rw [Number.text, if_neg hneg, hdigits], Or.inr hc⟩

theorem read?_int (n : Int) (c : Char) (rest after : List Char) (hn : IsWord n)
    (hafter : Delimited after) (htext : (Number.int n).text = c :: rest)
    (hc : c = '-' ∨ c.isDigit = true) :
    read? true c (rest ++ after) = some (num (.int n), after) := by
  have hread := Numeral.read?_int n after hafter
  rw [htext, List.cons_append] at hread
  unfold read?
  split
  case h_11 => simp only [hread, Option.bind_some, Numeral.value?_int n hn]
  -- Every other token starts with a character of its own.
  all_goals exact absurd hc (by decide)

theorem ofText?_cons (c : Char) (rest after : List Char) (t : Token) (hgap : isGap c = false)
    (hread : read? true c rest = some (t, after)) :
    ofText? true (c :: rest) = (ofText? true after).map (t :: ·) := by
  rw [ofText?, if_neg (by simp [hgap])]
  split
  · rename_i hnone
    rw [hread] at hnone
    cases hnone
  · rename_i hsome
    rw [hread] at hsome
    cases hsome
    rfl

/-- A token is read back from its text, and reading goes on behind it. Only a numeral would go on in
the text that follows. -/
theorem ofText?_text_append (t : Token) (after : List Char) (ht : t.Legible)
    (hafter : (∃ n, t = num n) → Delimited after) :
    ofText? true (t.text ++ after) = (ofText? true after).map (t :: ·) := by
  cases t with
  | num n =>
    cases n with
    | double d => exact ht.elim
    | int n =>
      obtain ⟨c, rest, htext, hc⟩ := exists_text_int n
      have hgap : isGap c = false := by
        by_contra hgap
        simp only [isGap, Bool.or_eq_true, decide_eq_true_eq, Bool.not_eq_false] at hgap
        rcases hgap with ((rfl | rfl) | rfl) | rfl <;> exact absurd hc (by decide)
      rw [text, htext]
      exact ofText?_cons _ _ _ _ hgap
        (read?_int n c rest after ht (hafter ⟨_, rfl⟩) htext hc)
  | str s =>
    have hsplit : (str s).text ++ after = '"' :: (Quoted.encode s.toList ++ '"' :: after) := by
      simp [text]
    rw [hsplit]
    exact ofText?_cons _ _ _ _ (by decide) (read?_str s after)
  | bool b => cases b <;> exact ofText?_cons _ _ _ _ (by decide) rfl
  | unpaired => exact ht.elim
  | _ => exact ofText?_cons _ _ _ _ (by decide) rfl

end Token

end Crosswalk.Json
