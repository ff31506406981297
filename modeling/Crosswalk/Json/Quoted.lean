/-!
# Quoted text

The text of a string between its quotes. A quote, a backslash and the control
characters below U+0020 are written with a backslash, the common ones under
their letter and the others as `\u` with four small hexadecimal digits; all else
stands for itself. Reading accepts more than is written: any character as `\u`
with digits of either case, characters beyond U+FFFF as two such halves, and an
escaped slash. A half that stands alone, and a bare control character, are
refused. A text can also be passed over without being read; then halves may
stand alone (`skip?_of_decode?`: whatever can be read can be passed over).
-/

namespace Crosswalk.Json.Quoted

def hexDigit (n : Nat) : Char :=
  if n < 10 then Char.ofNat ('0'.toNat + n) else Char.ofNat ('a'.toNat + (n - 10))

def hexValue? (c : Char) : Option Nat :=
  if c.isDigit then some (c.toNat - '0'.toNat)
  else if 'a' ≤ c ∧ c ≤ 'f' then some (c.toNat - 'a'.toNat + 10)
  else if 'A' ≤ c ∧ c ≤ 'F' then some (c.toNat - 'A'.toNat + 10)
  else none

/-! ### Writing -/

def encodeChar (c : Char) : List Char :=
  if c = '"' then ['\\', '"']
  else if c = '\\' then ['\\', '\\']
  else if c = '\x08' then ['\\', 'b']
  else if c = '\t' then ['\\', 't']
  else if c = '\n' then ['\\', 'n']
  else if c = '\x0c' then ['\\', 'f']
  else if c = '\r' then ['\\', 'r']
  else if c.toNat < 0x20 then
    ['\\', 'u', '0', '0', hexDigit (c.toNat / 16), hexDigit (c.toNat % 16)]
  else [c]

def encode (cs : List Char) : List Char := cs.flatMap encodeChar

/-! ### Reading -/

def hexQuad? : List Char → Option (Nat × List Char)
  | a :: b :: c :: d :: rest => do
    let a ← hexValue? a
    let b ← hexValue? b
    let c ← hexValue? c
    let d ← hexValue? d
    some (((a * 16 + b) * 16 + c) * 16 + d, rest)
  | _ => none

theorem hexQuad?_length {cs rest : List Char} {n : Nat} (h : hexQuad? cs = some (n, rest)) :
    cs.length = rest.length + 4 := by
  match cs, h with
  | a :: b :: c :: d :: tail, h =>
    simp only [hexQuad?, Option.bind_eq_bind, Option.bind_eq_some_iff, Option.some.injEq,
      Prod.mk.injEq] at h
    obtain ⟨_, _, _, _, _, _, _, _, _, rfl⟩ := h
    simp only [List.length_cons]

/-- The character whose code follows `\u`: one code, or the two halves of a pair. -/
def readCode? (cs : List Char) : Option (Char × List Char) :=
  match hexQuad? cs with
  | none => none
  | some (n, rest) =>
    if 0xDC00 ≤ n ∧ n < 0xE000 then none
    else if 0xD800 ≤ n ∧ n < 0xDC00 then
      match rest with
      | '\\' :: 'u' :: tail =>
        match hexQuad? tail with
        | none => none
        | some (low, rest) =>
          if 0xDC00 ≤ low ∧ low < 0xE000 then
            some (Char.ofNat (0x10000 + (n - 0xD800) * 0x400 + (low - 0xDC00)), rest)
          else none
      | _ => none
    else some (Char.ofNat n, rest)

def shortEscape? : Char → Option Char
  | '"' => some '"'
  | '\\' => some '\\'
  | '/' => some '/'
  | 'b' => some '\x08'
  | 'f' => some '\x0c'
  | 'n' => some '\n'
  | 'r' => some '\r'
  | 't' => some '\t'
  | _ => none

def readChar? : List Char → Option (Char × List Char)
  | [] => none
  | '\\' :: 'u' :: rest => readCode? rest
  | '\\' :: c :: rest => (shortEscape? c).map fun x => (x, rest)
  | c :: rest => if c = '"' ∨ c = '\\' ∨ c.toNat < 0x20 then none else some (c, rest)

theorem readCode?_length {cs rest : List Char} {c : Char} (h : readCode? cs = some (c, rest)) :
    rest.length < cs.length := by
  unfold readCode? at h
  split at h
  · cases h
  · rename_i n tail hq
    have hlen := hexQuad?_length hq
    split at h
    · cases h
    · split at h
      · split at h
        · rename_i inner
          split at h
          · cases h
          · rename_i low last hq'
            have hlen' := hexQuad?_length hq'
            split at h
            · simp only [Option.some.injEq, Prod.mk.injEq] at h
              obtain ⟨-, rfl⟩ := h
              simp only [List.length_cons] at hlen
              omega
            · cases h
        · cases h
      · simp only [Option.some.injEq, Prod.mk.injEq] at h
        obtain ⟨-, rfl⟩ := h
        omega

theorem readChar?_length {cs rest : List Char} {c : Char} (h : readChar? cs = some (c, rest)) :
    rest.length < cs.length := by
  unfold readChar? at h
  split at h
  · cases h
  · have hlen := readCode?_length h
    simp only [List.length_cons]
    omega
  · simp only [Option.map_eq_some_iff, Prod.mk.injEq] at h
    obtain ⟨_, _, _, rfl⟩ := h
    simp only [List.length_cons]
    omega
  · split at h
    · cases h
    · simp only [Option.some.injEq, Prod.mk.injEq] at h
      obtain ⟨-, rfl⟩ := h
      simp only [List.length_cons]
      omega

def decode? (cs : List Char) : Option (List Char × List Char) :=
  match cs with
  | '"' :: rest => some ([], rest)
  | cs =>
    match _h : readChar? cs with
    | none => none
    | some (c, rest) => (decode? rest).map fun (text, after) => (c :: text, after)
termination_by cs.length
decreasing_by exact readChar?_length _h

theorem decode?_length {cs text after : List Char} (h : decode? cs = some (text, after)) :
    after.length < cs.length := by
  fun_induction decode? cs generalizing text after with
  | case1 rest =>
    simp only [Option.some.injEq, Prod.mk.injEq] at h
    obtain ⟨-, rfl⟩ := h
    simp only [List.length_cons]
    omega
  | case2 => cases h
  | case3 cs _ c rest hread ih =>
    simp only [Option.map_eq_some_iff, Prod.mk.injEq] at h
    obtain ⟨⟨text', after'⟩, hrest, -, rfl⟩ := h
    have hstep := readChar?_length hread
    exact Nat.lt_trans (ih hrest) hstep

/-! ### Passing over -/

/-- Passes over one character or escape of a quoted text, whatever its code stands for. -/
def skipChar? : List Char → Option (List Char)
  | [] => none
  | '\\' :: 'u' :: rest => (hexQuad? rest).map Prod.snd
  | '\\' :: c :: rest => (shortEscape? c).map fun _ => rest
  | c :: rest => if c = '"' ∨ c = '\\' ∨ c.toNat < 0x20 then none else some rest

theorem skipChar?_length {cs rest : List Char} (h : skipChar? cs = some rest) :
    rest.length < cs.length := by
  unfold skipChar? at h
  split at h
  · cases h
  · simp only [Option.map_eq_some_iff, Prod.exists] at h
    obtain ⟨n, after, hq, rfl⟩ := h
    have hlen := hexQuad?_length hq
    simp only [List.length_cons]
    omega
  · simp only [Option.map_eq_some_iff] at h
    obtain ⟨_, _, rfl⟩ := h
    simp only [List.length_cons]
    omega
  · split at h
    · cases h
    · simp only [Option.some.injEq] at h
      rw [← h, List.length_cons]
      exact Nat.lt_succ_self _

def skip? (cs : List Char) : Option (List Char) :=
  match cs with
  | '"' :: rest => some rest
  | cs =>
    match _h : skipChar? cs with
    | none => none
    | some rest => skip? rest
termination_by cs.length
decreasing_by exact skipChar?_length _h

theorem skip?_length {cs after : List Char} (h : skip? cs = some after) :
    after.length < cs.length := by
  fun_induction skip? cs with
  | case1 rest =>
    simp only [Option.some.injEq] at h
    rw [← h, List.length_cons]
    exact Nat.lt_succ_self _
  | case2 => cases h
  | case3 cs _ rest hskip ih => exact Nat.lt_trans (ih h) (skipChar?_length hskip)

theorem skip?_of_skipChar? {cs rest : List Char} (h : skipChar? cs = some rest) :
    skip? cs = skip? rest := by
  rw [skip?]
  · split
    · rename_i h'
      rw [h] at h'
      cases h'
    · rename_i h'
      rw [h] at h'
      cases h'
      rfl
  · rintro tail rfl
    simp [skipChar?] at h

theorem skip?_of_hexQuad? {cs rest : List Char} {n : Nat} (h : hexQuad? cs = some (n, rest)) :
    skip? ('\\' :: 'u' :: cs) = skip? rest :=
  skip?_of_skipChar? (by rw [skipChar?, h]; rfl)

theorem skip?_of_readCode? {cs rest : List Char} {c : Char} (h : readCode? cs = some (c, rest)) :
    skip? ('\\' :: 'u' :: cs) = skip? rest := by
  unfold readCode? at h
  split at h
  · cases h
  · rename_i n tail hq
    rw [skip?_of_hexQuad? hq]
    split at h
    · cases h
    · split at h
      · split at h
        · split at h
          · cases h
          · rename_i low last hq'
            split at h
            · simp only [Option.some.injEq, Prod.mk.injEq] at h
              rw [skip?_of_hexQuad? hq', h.2]
            · cases h
        · cases h
      · simp only [Option.some.injEq, Prod.mk.injEq] at h
        rw [h.2]

theorem skip?_of_readChar? {cs rest : List Char} {c : Char} (h : readChar? cs = some (c, rest)) :
    skip? cs = skip? rest := by
  unfold readChar? at h
  split at h
  · cases h
  · exact skip?_of_readCode? h
  · rename_i d tail hd
    simp only [Option.map_eq_some_iff, Prod.mk.injEq] at h
    obtain ⟨x, hx, -, rfl⟩ := h
    exact skip?_of_skipChar? (by simp [skipChar?, hx])
  · rename_i d tail _ hescape
    split at h
    · cases h
    · rename_i hplain
      simp only [Option.some.injEq, Prod.mk.injEq] at h
      apply skip?_of_skipChar?
      rw [skipChar?, if_neg hplain, h.2]
      · exact fun rest hd ht => hescape 'u' rest hd ht
      · exact hescape

theorem skip?_of_decode? {cs text after : List Char} (h : decode? cs = some (text, after)) :
    skip? cs = some after := by
  fun_induction decode? cs generalizing text after with
  | case1 rest =>
    simp only [Option.some.injEq, Prod.mk.injEq] at h
    rw [skip?, h.2]
  | case2 => cases h
  | case3 cs _ c rest hread ih =>
    simp only [Option.map_eq_some_iff, Prod.mk.injEq] at h
    obtain ⟨⟨text', after'⟩, hrest, -, rfl⟩ := h
    rw [skip?_of_readChar? hread, ih hrest]

end Crosswalk.Json.Quoted
