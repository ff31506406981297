import Crosswalk.Expression.Printer
import Crosswalk.Proofs.Success
import Crosswalk.Proofs.Trimming

/-!
# The language of expressions

Which texts are expressions, and of what: a grammar that says nothing about how a
text is read. A token has its forms; in a clause tokens stand between white space,
of which there has to be some between two of them; in an expression clauses stand
between separators, which are part of no clause. The expressions that have a text
are those with a clause whose tokens are well formed.
-/

namespace Crosswalk.Expression

/-! ### Tokens -/

/-- Three decimal digits of any script. -/
def IsNumericTag (tag : List Char) : Prop :=
  tag.length = 3 ∧ ∀ c ∈ tag, Text.isDecimalDigit c = true

/-- The tag of a byte range: three decimal digits, or the tag of the leader. -/
def IsRangeTag (tag : List Char) : Prop := IsNumericTag tag ∨ tag = leaderTag.toList

def AreCodes (codes : List Char) : Prop := codes.length ≤ 2 ∧ ∀ c ∈ codes, c.isAlphanum = true

/-- The characters are ASCII digits that denote the number, which has at most 64 bits. -/
def IsNumeral (digits : List Char) (n : Nat) : Prop :=
  digits ≠ [] ∧ (∀ c ∈ digits, c.isDigit = true) ∧ Text.decimalValue 0 digits = n ∧
    n < Text.wordLimit

def codesText (codes : List Char) : List Char := codes.flatMap fun c => ['$', c]

/-- What a token looks like. Positions are counted from one, and a byte range without a last
position ends with its first one. -/
inductive Token.Spelled : List Char → Token → Prop where
  | field (tag codes : List Char) (htag : IsNumericTag tag) (hcodes : AreCodes codes) :
    Spelled (tag ++ codesText codes) (.field (String.ofList tag) codes)
  | position (tag digits : List Char) (n : Nat) (htag : IsRangeTag tag)
    (hdigits : IsNumeral digits n) (hn : 1 ≤ n) :
    Spelled (tag ++ '/' :: digits) (.range (String.ofList tag) (n - 1) n)
  | range (tag first last : List Char) (m n : Nat) (htag : IsRangeTag tag)
    (hfirst : IsNumeral first m) (hlast : IsNumeral last n) (hm : 1 ≤ m) (hn : m ≤ n) :
    Spelled (tag ++ '/' :: (first ++ '-' :: last)) (.range (String.ofList tag) (m - 1) n)
  | literal (quote : Char) (content : List Char) (hquote : isQuote quote = true)
    (hcontent : quote ∉ content) :
    Spelled (quote :: (content ++ [quote])) (.literal (String.ofList content))
  | today : Spelled "###TODAY###".toList .today
  | remove : Spelled "###REMOVE###".toList .remove

def Token.WellFormed : Token → Prop
  | .field tag codes => IsNumericTag tag.toList ∧ AreCodes codes
  | .range tag start stop => IsRangeTag tag.toList ∧ start < stop ∧ stop < Text.wordLimit
  | .literal text => '"' ∉ text.toList ∨ '\x60' ∉ text.toList
  | .today | .remove => True

/-! ### Clauses and expressions -/

def StartsApart (cs : List Char) : Prop := ∀ c, cs.head? = some c → Text.isBlank c = true

/-- What a clause looks like: white space, and each token with white space before it, except
perhaps the first one. -/
inductive ClauseSpelled : List Char → Clause → Prop where
  | done (blanks : List Char) (hblanks : Text.Blanks blanks) : ClauseSpelled blanks []
  | token (lead word rest : List Char) (token : Token) (tokens : Clause)
    (hlead : Text.Blanks lead) (hword : Token.Spelled word token) (hrest : StartsApart rest)
    (htokens : ClauseSpelled rest tokens) :
    ClauseSpelled (lead ++ word ++ rest) (token :: tokens)

/-- What an expression looks like: one clause or more, with the separator between them. -/
def Spelled (cs : List Char) (e : Expression) : Prop :=
  ∃ texts, texts ≠ [] ∧ List.Forall₂ ClauseSpelled texts e.clauses ∧
    cs = List.intercalate "; else ".toList texts

/-- The expressions that can be written. -/
def WellFormed (e : Expression) : Prop :=
  e.clauses ≠ [] ∧ ∀ clause ∈ e.clauses, ∀ token ∈ clause, token.WellFormed

/-! ### Whatever is written is well formed -/

theorem quote_cases (quote : Char) (h : isQuote quote = true) : quote = '"' ∨ quote = '\x60' := by
  rw [isQuote, Bool.or_eq_true, decide_eq_true_eq, decide_eq_true_eq] at h
  exact h

theorem Token.Spelled.wellFormed {word : List Char} {token : Token} (h : Token.Spelled word token) :
    token.WellFormed := by
  cases h with
  | field tag codes htag hcodes =>
    refine ⟨?_, hcodes⟩
    rwa [String.toList_ofList]
  | position tag digits n htag hdigits hn =>
    refine ⟨?_, Nat.sub_one_lt_of_lt hn, hdigits.2.2.2⟩
    rwa [String.toList_ofList]
  | range tag first last m n htag hfirst hlast hm hn =>
    refine ⟨?_, Nat.lt_of_lt_of_le (Nat.sub_one_lt_of_lt hm) hn, hlast.2.2.2⟩
    rwa [String.toList_ofList]
  | literal quote content hquote hcontent =>
    rw [Token.WellFormed, String.toList_ofList]
    rcases quote_cases quote hquote with rfl | rfl
    · exact Or.inl hcontent
    · exact Or.inr hcontent
  | today => trivial
  | remove => trivial

theorem ClauseSpelled.wellFormed {cs : List Char} {clause : Clause}
    (h : ClauseSpelled cs clause) : ∀ token ∈ clause, token.WellFormed := by
  induction h with
  | done => exact List.forall_mem_nil _
  | token lead word rest token tokens hlead hword hrest htokens ih =>
    intro t ht
    rcases List.mem_cons.1 ht with rfl | hmem
    · exact hword.wellFormed
    · exact ih t hmem

theorem Spelled.wellFormed {cs : List Char} {e : Expression} (h : Spelled cs e) :
    e.WellFormed := by
  obtain ⟨texts, hne, htexts, -⟩ := h
  constructor
  · intro hnil
    rw [hnil] at htexts
    cases htexts
    exact hne rfl
  · intro clause hclause
    obtain ⟨cs, -, hcs⟩ := exists_of_mem_forall₂ htexts clause hclause
    exact hcs.wellFormed

/-! ### Whatever is well formed can be written -/

theorem decimalValue_eq_ofDigitChars (digits : List Char) (n : Nat) :
    Text.decimalValue n digits = Nat.ofDigitChars 10 digits n := by
  induction digits generalizing n with
  | nil => rfl
  | cons c rest ih =>
    rw [Nat.ofDigitChars_cons, ← ih, Nat.mul_comm]
    rfl

theorem isNumeral_toDigits (n : Nat) (h : n < Text.wordLimit) :
    IsNumeral (Nat.toDigits 10 n) n := by
  refine ⟨Nat.toDigits_ne_nil, fun c hc => ?_, ?_, h⟩
  · exact Nat.isDigit_of_mem_toDigits (b := 10) (by decide) (by decide) hc
  · rw [decimalValue_eq_ofDigitChars, Nat.ofDigitChars_ten_toDigits]

theorem Token.WellFormed.spelled {token : Token} (h : token.WellFormed) :
    Token.Spelled token.text token := by
  cases token with
  | field tag codes =>
    have hspelled := Token.Spelled.field tag.toList codes h.1 h.2
    rwa [String.ofList_toList] at hspelled
  | range tag start stop =>
    obtain ⟨htag, hlt, hlimit⟩ := h
    have hspelled := Token.Spelled.range tag.toList _ _ (start + 1) stop htag
      (isNumeral_toDigits (start + 1) (Nat.lt_of_le_of_lt hlt hlimit))
      (isNumeral_toDigits stop hlimit) (Nat.le_add_left 1 start) hlt
    rwa [String.ofList_toList, Nat.add_sub_cancel] at hspelled
  | literal text =>
    by_cases hquote : '"' ∈ text.toList
    · have hspelled := Token.Spelled.literal '\x60' text.toList rfl
        (h.resolve_left (not_not.2 hquote))
      rw [String.ofList_toList] at hspelled
      simp only [Token.text, quoted, if_pos hquote]
      exact hspelled
    · have hspelled := Token.Spelled.literal '"' text.toList rfl hquote
      rw [String.ofList_toList] at hspelled
      simp only [Token.text, quoted, if_neg hquote]
      exact hspelled
  | today => exact Token.Spelled.today
  | remove => exact Token.Spelled.remove

theorem ClauseSpelled.cons_blank {cs : List Char} {clause : Clause} (h : ClauseSpelled cs clause)
    (c : Char) (hc : Text.isBlank c = true) : ClauseSpelled (c :: cs) clause := by
  cases h with
  | done blanks hblanks =>
    exact ClauseSpelled.done (c :: cs) (List.forall_mem_cons.2 ⟨hc, hblanks⟩)
  | token lead word rest token tokens hlead hword hrest htokens =>
    exact ClauseSpelled.token (c :: lead) word rest token tokens
      (List.forall_mem_cons.2 ⟨hc, hlead⟩) hword hrest htokens

theorem clauseSpelled_text (clause : Clause) (h : ∀ token ∈ clause, token.WellFormed) :
    ClauseSpelled (clauseText clause) clause := by
  induction clause with
  | nil => exact ClauseSpelled.done [] (List.forall_mem_nil _)
  | cons token rest ih =>
    have htoken := (h token List.mem_cons_self).spelled
    have hrest := ih fun t ht => h t (List.mem_cons_of_mem token ht)
    have hnil : Text.Blanks [] := List.forall_mem_nil _
    cases rest with
    | nil =>
      have hspelled := ClauseSpelled.token [] token.text [] token [] hnil htoken
        (fun c hc => by cases hc) hrest
      rw [List.nil_append, List.append_nil] at hspelled
      rwa [clauseText, List.map_cons, List.map_nil, List.intercalate_singleton]
    | cons next rest =>
      have hapart : StartsApart (' ' :: clauseText (next :: rest)) := by
        intro c hc
        cases hc
        decide
      have hspelled := ClauseSpelled.token [] token.text _ token _ hnil htoken hapart
        (hrest.cons_blank ' ' (by decide))
      rw [List.nil_append] at hspelled
      rw [clauseText, List.map_cons, List.map_cons, List.intercalate_cons_cons, List.append_assoc]
      exact hspelled

theorem spelled_text (e : Expression) (h : e.WellFormed) : Spelled e.text.toList e := by
  refine ⟨e.clauses.map clauseText, ?_, ?_, ?_⟩
  · intro hnil
    exact h.1 (List.map_eq_nil_iff.1 hnil)
  · refine List.forall₂_map_left_iff.2 (List.forall₂_same.2 ?_)
    exact fun clause hclause => clauseSpelled_text clause (h.2 clause hclause)
  · rw [text, String.toList_ofList]
    rfl

end Crosswalk.Expression
