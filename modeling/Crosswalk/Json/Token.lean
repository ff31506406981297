import Crosswalk.Json.Numeral
import Crosswalk.Json.Quoted

/-!
# Tokens of JSON text

A text is a row of tokens with any amount of space, tab, line feed and carriage
return around them. Tokens are read greedily, so a numeral takes all the digits
that follow it. Some literals are well formed and have no value: numerals beyond
the doubles, and texts with half a character. Strict reading refuses them.
Lenient reading takes such a numeral for zero, which serves where numbers make
no difference, and has a token of its own for such texts.
-/

namespace Crosswalk.Json

inductive Token where
  | beginArray
  | endArray
  | beginObject
  | endObject
  | comma
  | colon
  | null
  | bool (value : Bool)
  | num (value : Number)
  | str (value : String)
  /-- A text with half a character in it, as lenient reading finds it. -/
  | unpaired
  deriving DecidableEq, Repr, Inhabited

namespace Token

def text : Token → List Char
  | beginArray => ['[']
  | endArray => [']']
  | beginObject => ['{']
  | endObject => ['}']
  | comma => [',']
  | colon => [':']
  | null => ['n', 'u', 'l', 'l']
  | bool true => ['t', 'r', 'u', 'e']
  | bool false => ['f', 'a', 'l', 's', 'e']
  | num n => n.text
  | str s => '"' :: (Quoted.encode s.toList ++ ['"'])
  | unpaired => ['"', '\\', 'u', 'd', '8', '0', '0', '"']

def isGap (c : Char) : Bool := c = ' ' || c = '\t' || c = '\n' || c = '\r'

/-- Takes the token for a literal without a value, given the text after the literal. -/
def standIn? (strict : Bool) (t : Token) (after : List Char) : Option (Token × List Char) :=
  if strict then none else some (t, after)

def read? (strict : Bool) (c : Char) (rest : List Char) : Option (Token × List Char) :=
  match c, rest with
  | '[', rest => some (beginArray, rest)
  | ']', rest => some (endArray, rest)
  | '{', rest => some (beginObject, rest)
  | '}', rest => some (endObject, rest)
  | ',', rest => some (comma, rest)
  | ':', rest => some (colon, rest)
  | 'n', 'u' :: 'l' :: 'l' :: rest => some (null, rest)
  | 't', 'r' :: 'u' :: 'e' :: rest => some (bool true, rest)
  | 'f', 'a' :: 'l' :: 's' :: 'e' :: rest => some (bool false, rest)
  | '"', rest =>
    match Quoted.decode? rest with
    | some (cs, after) => some (str (String.ofList cs), after)
    | none => (Quoted.skip? rest).bind (standIn? strict unpaired)
  | c, rest =>
    (Numeral.read? (c :: rest)).bind fun (n, after) =>
      match n.value? with
      | some v => some (num v, after)
      | none => standIn? strict (num (.int 0)) after

theorem standIn?_length {strict : Bool} {after tail : List Char} {t found : Token}
    (h : standIn? strict t after = some (found, tail)) : tail.length = after.length := by
  unfold standIn? at h
  split at h
  · cases h
  · simp only [Option.some.injEq, Prod.mk.injEq] at h
    rw [h.2]

theorem read?_length {strict : Bool} {c : Char} {rest after : List Char} {t : Token}
    (h : read? strict c rest = some (t, after)) : after.length ≤ rest.length := by
  unfold read? at h
  split at h
  case h_10 =>
    split at h
    · rename_i cs tail hd
      simp only [Option.some.injEq, Prod.mk.injEq] at h
      rw [← h.2]
      exact Nat.le_of_lt (Quoted.decode?_length hd)
    · simp only [Option.bind_eq_some_iff] at h
      obtain ⟨tail, hs, hv⟩ := h
      rw [standIn?_length hv]
      exact Nat.le_of_lt (Quoted.skip?_length hs)
  case h_11 c rest _ _ _ _ _ _ _ _ _ _ =>
    simp only [Option.bind_eq_some_iff, Prod.exists] at h
    obtain ⟨n, tail, hn, h⟩ := h
    have hlen := Nat.le_of_lt_succ (Numeral.read?_length hn)
    split at h
    · simp only [Option.some.injEq, Prod.mk.injEq] at h
      rw [← h.2]
      exact hlen
    · rw [standIn?_length h]
      exact hlen
  all_goals
    simp only [Option.some.injEq, Prod.mk.injEq] at h
    grind

def ofText? (strict : Bool) (cs : List Char) : Option (List Token) :=
  match cs with
  | [] => some []
  | c :: rest =>
    if isGap c then ofText? strict rest
    else
      match _h : read? strict c rest with
      | none => none
      | some (t, after) => (ofText? strict after).map (t :: ·)
termination_by cs.length
decreasing_by
  · simp only [List.length_cons]
    omega
  · exact Nat.lt_succ_of_le (read?_length _h)

/-! ### Strict and lenient reading -/

theorem standIn?_strict (t : Token) (after : List Char) : standIn? true t after = none := rfl

theorem read?_lenient {c : Char} {rest : List Char} {found : Token × List Char}
    (h : read? true c rest = some found) : read? false c rest = some found := by
  unfold read? at h ⊢
  split at h
  case h_10 =>
    split at h
    · exact h
    · simp only [Option.bind_eq_some_iff, standIn?_strict, reduceCtorEq, and_false,
        exists_false] at h
  case h_11 =>
    dsimp only
    simp only [Option.bind_eq_some_iff] at h ⊢
    obtain ⟨n, hn, h⟩ := h
    refine ⟨n, hn, ?_⟩
    split at h
    · exact h
    · cases h
  all_goals exact h

theorem ofText?_lenient {cs : List Char} {tokens : List Token} (h : ofText? true cs = some tokens) :
    ofText? false cs = some tokens := by
  fun_induction ofText? true cs generalizing tokens with
  | case1 => rw [ofText?]; exact h
  | case2 c rest hgap ih => rw [ofText?, if_pos hgap]; exact ih h
  | case3 => cases h
  | case4 c rest hgap t after hread ih =>
    simp only [Option.map_eq_some_iff] at h
    obtain ⟨others, hrest, rfl⟩ := h
    rw [ofText?, if_neg hgap]
    split
    · rename_i hnone
      rw [read?_lenient hread] at hnone
      cases hnone
    · rename_i t' after' hsome
      rw [read?_lenient hread] at hsome
      cases hsome
      rw [ih hrest]
      rfl

end Token

end Crosswalk.Json
