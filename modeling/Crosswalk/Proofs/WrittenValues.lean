import Crosswalk.Json.Form
import Crosswalk.Json.Parser
import Crosswalk.Json.Printer
import Crosswalk.Proofs.WrittenTokens

/-!
# Written values are read back

The text of a value holds the tokens of the value, and the machine builds the value from
its tokens, below any stack that leaves room for it. Both are said of a value with any
text or tokens behind it, and then follow along the structure of the value. So a value
whose numbers are integers of 64 bits is read back from its text, as long as it nests no
deeper than the limit.
-/

namespace Crosswalk.Json

/-! ### Legible values -/

mutual

/-- Every number in the value is an integer of 64 bits. -/
def Legible : Json → Prop
  | .num n => (Token.num n).Legible
  | .arr items => LegibleItems items
  | .obj members => LegibleMembers members
  | _ => True

def LegibleItems : List Json → Prop
  | [] => True
  | item :: rest => Legible item ∧ LegibleItems rest

def LegibleMembers : List (String × Json) → Prop
  | [] => True
  | (_, value) :: rest => Legible value ∧ LegibleMembers rest

end

/-! ### The tokens in the text -/

theorem delimited_cons (c : Char) (rest : List Char) (h : c = ',' ∨ c = ']' ∨ c = '}') :
    Delimited (c :: rest) := by
  intro first hfirst
  cases hfirst
  exact h

namespace Token

theorem ofText?_append_of_not_num (t : Token) (after : List Char) (ht : t.Legible)
    (hnum : ∀ n, t ≠ num n) : ofText? true (t.text ++ after) = (ofText? true after).map (t :: ·) :=
  ofText?_text_append t after ht fun ⟨n, hn⟩ => absurd hn (hnum n)

theorem ofText?_key (key : String) (after : List Char) :
    ofText? true ((str key).text ++ (colon.text ++ after))
      = (ofText? true after).map (str key :: colon :: ·) := by
  rw [ofText?_append_of_not_num (str key) _ trivial (by simp),
    ofText?_append_of_not_num colon after trivial (by simp), Option.map_map]
  rfl

end Token

mutual

theorem ofText?_tokens (v : Json) (after : List Char) (hv : v.Legible) (hafter : Delimited after) :
    Token.ofText? true (v.tokens.flatMap Token.text ++ after)
      = (Token.ofText? true after).map (v.tokens ++ ·) := by
  match v with
  | .null =>
    have hread := Token.ofText?_append_of_not_num .null after trivial (by simp)
    simpa [tokens] using hread
  | .bool b =>
    have hread := Token.ofText?_append_of_not_num (.bool b) after trivial (by simp)
    simpa [tokens] using hread
  | .str s =>
    have hread := Token.ofText?_append_of_not_num (.str s) after trivial (by simp)
    simpa [tokens] using hread
  | .num n =>
    have hread := Token.ofText?_text_append (.num n) after hv fun _ => hafter
    simpa [tokens] using hread
  | .arr items =>
    have hclose := Token.ofText?_append_of_not_num .endArray after trivial (by simp)
    have hitems := ofText?_tokensOfItems items (Token.endArray.text ++ after) hv
      (delimited_cons _ _ (by decide))
    have hopen := Token.ofText?_append_of_not_num .beginArray
      ((tokensOfItems items).flatMap Token.text ++ (Token.endArray.text ++ after)) trivial
      (by simp)
    rw [hitems, hclose] at hopen
    simpa [tokens, Function.comp_def] using hopen
  | .obj members =>
    have hclose := Token.ofText?_append_of_not_num .endObject after trivial (by simp)
    have hmembers := ofText?_tokensOfMembers members (Token.endObject.text ++ after) hv
      (delimited_cons _ _ (by decide))
    have hopen := Token.ofText?_append_of_not_num .beginObject
      ((tokensOfMembers members).flatMap Token.text ++ (Token.endObject.text ++ after)) trivial
      (by simp)
    rw [hmembers, hclose] at hopen
    simpa [tokens, Function.comp_def] using hopen

theorem ofText?_tokensOfItems (items : List Json) (after : List Char) (hitems : LegibleItems items)
    (hafter : Delimited after) :
    Token.ofText? true ((tokensOfItems items).flatMap Token.text ++ after)
      = (Token.ofText? true after).map (tokensOfItems items ++ ·) := by
  match items with
  | [] => simp [tokensOfItems]
  | [item] => exact ofText?_tokens item after hitems.1 hafter
  | item :: next :: rest =>
    have hrest := ofText?_tokensOfItems (next :: rest) after hitems.2 hafter
    have hcomma := Token.ofText?_append_of_not_num .comma
      ((tokensOfItems (next :: rest)).flatMap Token.text ++ after) trivial (by simp)
    have hitem := ofText?_tokens item
      (Token.comma.text ++ ((tokensOfItems (next :: rest)).flatMap Token.text ++ after)) hitems.1
      (delimited_cons _ _ (by decide))
    rw [hcomma, hrest] at hitem
    simpa [tokensOfItems, Function.comp_def] using hitem

theorem ofText?_tokensOfMembers (members : List (String × Json)) (after : List Char)
    (hmembers : LegibleMembers members) (hafter : Delimited after) :
    Token.ofText? true ((tokensOfMembers members).flatMap Token.text ++ after)
      = (Token.ofText? true after).map (tokensOfMembers members ++ ·) := by
  match members with
  | [] => simp [tokensOfMembers]
  | [(key, value)] =>
    have hvalue := ofText?_tokens value after hmembers.1 hafter
    have hkey := Token.ofText?_key key (value.tokens.flatMap Token.text ++ after)
    rw [hvalue] at hkey
    simpa [tokensOfMembers, Function.comp_def] using hkey
  | (key, value) :: next :: rest =>
    have hrest := ofText?_tokensOfMembers (next :: rest) after hmembers.2 hafter
    have hcomma := Token.ofText?_append_of_not_num .comma
      ((tokensOfMembers (next :: rest)).flatMap Token.text ++ after) trivial (by simp)
    have hvalue := ofText?_tokens value
      (Token.comma.text ++ ((tokensOfMembers (next :: rest)).flatMap Token.text ++ after))
      hmembers.1 (delimited_cons _ _ (by decide))
    have hkey := Token.ofText?_key key (value.tokens.flatMap Token.text ++
      (Token.comma.text ++ ((tokensOfMembers (next :: rest)).flatMap Token.text ++ after)))
    rw [hvalue, hcomma, hrest] at hkey
    simpa [tokensOfMembers, Function.comp_def] using hkey

end

/-! ### The machine on the tokens -/

namespace Reading

theorem opened_of_lt (stack : List Frame) (state : Reading) (h : stack.length < depthLimit) :
    opened true stack state = some state := by
  rw [opened, if_neg]
  simpa using h

theorem run_firstItem (item : Json) (items : List Json) (stack : List Frame) (rest : List Token) :
    run true (.firstItem stack) (tokensOfItems (item :: items) ++ rest)
      = run true (.value (.array [] :: stack)) (tokensOfItems (item :: items) ++ rest) := by
  cases item <;> cases items <;> rfl

theorem run_firstKey (member : String × Json) (members : List (String × Json))
    (stack : List Frame) (rest : List Token) :
    run true (.firstKey stack) (tokensOfMembers (member :: members) ++ rest)
      = run true (.key stack (some [])) (tokensOfMembers (member :: members) ++ rest) := by
  cases members <;> rfl

-- The induction is along the value. Each container on the way down stands on the stack, so what is
-- left of the limit always suffices for the depth that is left.
mutual

/-- The machine builds a value from its tokens, if there is room for it below the stack. -/
theorem run_tokens (v : Json) (stack : List Frame) (rest : List Token)
    (h : stack.length + v.depth ≤ depthLimit) :
    run true (.value stack) (v.tokens ++ rest) = run true (.after stack v) rest := by
  match v with
  | .null | .bool _ | .num _ | .str _ => rfl
  | .arr [] =>
    rw [depth] at h
    simp only [tokens, tokensOfItems, List.nil_append, List.cons_append, run, step, start,
      opened_of_lt stack _ (by omega), Option.bind_some]
  | .arr (item :: items) =>
    rw [depth] at h
    have hopen : step true (.value stack) .beginArray = some (.firstItem stack) :=
      opened_of_lt stack _ (by omega)
    have hitems := run_tokensOfItems (item :: items) [] stack rest (by simp) (by omega)
    simpa only [tokens, List.cons_append, List.append_assoc, List.nil_append, List.reverse_nil, run,
      hopen, Option.bind_some, run_firstItem] using hitems
  | .obj [] =>
    rw [depth] at h
    simp only [tokens, tokensOfMembers, List.nil_append, List.cons_append, run, step, start,
      opened_of_lt stack _ (by omega), Option.bind_some]
  | .obj (member :: members) =>
    rw [depth] at h
    have hopen : step true (.value stack) .beginObject = some (.firstKey stack) :=
      opened_of_lt stack _ (by omega)
    have hmembers := run_tokensOfMembers (member :: members) [] stack rest (by simp) (by omega)
    simpa only [tokens, List.cons_append, List.append_assoc, List.nil_append, List.reverse_nil, run,
      hopen, Option.bind_some, run_firstKey] using hmembers

theorem run_tokensOfItems (items before : List Json) (stack : List Frame) (rest : List Token)
    (hne : items ≠ []) (h : stack.length + 1 + depthOfItems items ≤ depthLimit) :
    run true (.value (.array before :: stack)) (tokensOfItems items ++ .endArray :: rest)
      = run true (.after stack (.arr (before.reverse ++ items))) rest := by
  match items with
  | [] => exact absurd rfl hne
  | [item] =>
    rw [depthOfItems] at h
    have hitem := run_tokens item (.array before :: stack) (.endArray :: rest)
      (by rw [List.length_cons]; omega)
    rw [tokensOfItems, hitem, run, step, Option.bind_some, List.reverse_cons]
  | item :: next :: items =>
    rw [depthOfItems] at h
    have hitem := run_tokens item (.array before :: stack)
      (.comma :: (tokensOfItems (next :: items) ++ .endArray :: rest))
      (by rw [List.length_cons]; omega)
    have hnext := run_tokensOfItems (next :: items) (item :: before) stack rest (by simp) (by omega)
    rw [List.reverse_cons, List.append_assoc, List.singleton_append] at hnext
    simp only [tokensOfItems, List.append_assoc, List.cons_append, run, step, Option.bind_some,
      hitem, hnext]

theorem run_tokensOfMembers (members before : List (String × Json)) (stack : List Frame)
    (rest : List Token) (hne : members ≠ [])
    (h : stack.length + 1 + depthOfMembers members ≤ depthLimit) :
    run true (.key stack (some before)) (tokensOfMembers members ++ .endObject :: rest)
      = run true (.after stack (.obj (before.reverse ++ members))) rest := by
  match members with
  | [] => exact absurd rfl hne
  | [(name, v)] =>
    rw [depthOfMembers] at h
    have hvalue := run_tokens v (.object (some before) name :: stack) (.endObject :: rest)
      (by rw [List.length_cons]; omega)
    simp only [tokensOfMembers, List.cons_append, run, step, Option.bind_some, hvalue, object,
      List.reverse_cons]
  | (name, v) :: next :: members =>
    rw [depthOfMembers] at h
    have hvalue := run_tokens v (.object (some before) name :: stack)
      (.comma :: (tokensOfMembers (next :: members) ++ .endObject :: rest))
      (by rw [List.length_cons]; omega)
    have hnext := run_tokensOfMembers (next :: members) ((name, v) :: before) stack rest
      (by simp) (by omega)
    rw [List.reverse_cons, List.append_assoc, List.singleton_append] at hnext
    simp only [tokensOfMembers, List.cons_append, List.append_assoc, run, step, Option.bind_some,
      Option.map_some, hvalue, hnext]

end

end Reading

/-! ### Reading the text of a value -/

theorem ofText?_text (v : Json) (hv : v.Legible) (hdepth : v.depth ≤ depthLimit) :
    ofText? v.text = some v := by
  have htokens := ofText?_tokens v [] hv fun c hc => by cases hc
  have hrun := Reading.run_tokens v [] [] (by simpa using hdepth)
  rw [List.append_nil] at htokens hrun
  have hread : ofTokens? true v.tokens = some v := by
    rw [ofTokens?, hrun, Reading.run]
  rw [ofText?, text, String.toList_ofList, htokens, Token.ofText?, Option.map_some,
    Option.bind_some, List.append_nil, hread]

theorem skim?_text (v : Json) (hv : v.Legible) (hdepth : v.depth ≤ depthLimit) :
    skim? v.text = some v :=
  skim?_of_ofText? (ofText?_text v hv hdepth)

end Crosswalk.Json
