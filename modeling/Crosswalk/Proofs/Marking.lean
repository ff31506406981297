import Crosswalk.Proofs.TokenForms

/-!
# Marks of tokens

Marking goes along a text from the left, and where a stretch of text closes all its
literals what follows is marked as if it stood alone. A token is marked as a whole
when it is a literal; any other token has no mark, and neither white space nor a
semicolon in it.
-/

namespace Crosswalk.Expression

/-! ### Plain characters -/

def isPlain (c : Char) : Bool :=
  Text.isDecimalDigit c || c.isAlphanum || ['#', '$', '/', '-'].contains c

theorem isPlain_of_isDecimalDigit (c : Char) (h : Text.isDecimalDigit c = true) :
    isPlain c = true := by
  rw [isPlain, h, Bool.true_or, Bool.true_or]

theorem isPlain_of_isAlphanum (c : Char) (h : c.isAlphanum = true) : isPlain c = true := by
  rw [isPlain, h, Bool.or_true, Bool.true_or]

theorem separates_nothing_of_isPlain (c : Char) (h : isPlain c = true) :
    Text.isBlank c = false ∧ isQuote c = false ∧ c ≠ ';' := by
  have hcodes : ∀ code ∈ [0x22, 0x60, 0x3B] ++ Text.blankCodes,
      isPlain (Char.ofNat code) = false := by
    decide +kernel
  have hout : c.toNat ∉ [0x22, 0x60, 0x3B] ++ Text.blankCodes := by
    intro hmem
    have hplain := hcodes c.toNat hmem
    rw [Char.ofNat_toNat, h] at hplain
    cases hplain
  refine ⟨Bool.eq_false_iff.2 fun hblank => ?_, Bool.eq_false_iff.2 fun hquote => ?_, ?_⟩
  · exact hout (List.mem_append_right _ (List.elem_iff.1 hblank))
  · rcases quote_cases c hquote with rfl | rfl <;> exact hout (by decide)
  · rintro rfl
    exact hout (by decide)

theorem isPlain_of_codesText (codes : List Char) (h : AreCodes codes) :
    ∀ c ∈ codesText codes, isPlain c = true := by
  intro c hc
  obtain ⟨code, hcode, hmem⟩ := List.mem_flatMap.1 hc
  rcases List.mem_cons.1 hmem with rfl | hlast
  · decide +kernel
  · rw [List.mem_singleton.1 hlast]
    exact isPlain_of_isAlphanum code (h.2 code hcode)

theorem isPlain_of_isNumeral (digits : List Char) (n : Nat) (h : IsNumeral digits n) :
    ∀ c ∈ digits, isPlain c = true :=
  fun c hc => isPlain_of_isDecimalDigit c (h.areDigits.2 c hc)

theorem isPlain_of_isRangeTag (tag : List Char) (h : IsRangeTag tag) :
    ∀ c ∈ tag, isPlain c = true := by
  rcases h with hnumeric | rfl
  · exact fun c hc => isPlain_of_isDecimalDigit c (hnumeric.2 c hc)
  · exact List.all_eq_true.1 (by decide +kernel)

/-! ### Marks -/

def withMark (inside : Bool) (cs : List Char) : List Marked := cs.map fun c => (c, inside)

theorem map_fst_withMark (inside : Bool) (cs : List Char) :
    (withMark inside cs).map Prod.fst = cs := by
  rw [withMark, List.map_map]
  exact List.map_id cs

theorem marked?_append (quote : Option Char) (front rest : List Char) (ms : List Marked)
    (h : marked? quote front = some ms) :
    marked? quote (front ++ rest) = (marked? none rest).map (ms ++ ·) := by
  induction front generalizing quote ms with
  | nil =>
    cases quote with
    | some q => cases h
    | none =>
      cases h
      exact Option.map_id'.symm
  | cons c front ih =>
    cases quote <;>
    · simp only [marked?, Option.map_eq_some_iff] at h
      obtain ⟨tail, htail, rfl⟩ := h
      rw [List.cons_append, marked?, ih _ tail htail, Option.map_map]
      rfl

theorem marked?_of_no_quote (cs : List Char) (h : ∀ c ∈ cs, isQuote c = false) :
    marked? none cs = some (withMark false cs) := by
  induction cs with
  | nil => rfl
  | cons c rest ih =>
    obtain ⟨hc, hrest⟩ := List.forall_mem_cons.1 h
    rw [marked?, hc, if_neg Bool.false_ne_true, ih hrest]
    rfl

theorem marked?_open (quote : Char) (content : List Char) (h : quote ∉ content) :
    marked? (some quote) (content ++ [quote]) = some (withMark true (content ++ [quote])) := by
  induction content with
  | nil =>
    rw [List.nil_append, marked?, if_pos rfl]
    rfl
  | cons c rest ih =>
    obtain ⟨hc, hrest⟩ := not_or.1 fun hmem => h (List.mem_cons.2 hmem)
    rw [List.cons_append, marked?, if_neg fun he => hc he.symm, ih hrest]
    rfl

theorem marked?_literal (quote : Char) (content : List Char) (hquote : isQuote quote = true)
    (hcontent : quote ∉ content) :
    marked? none (quote :: (content ++ [quote]))
      = some (withMark true (quote :: (content ++ [quote]))) := by
  rw [marked?, hquote, if_pos rfl, marked?_open quote content hcontent]
  rfl

theorem marked?_of_plain (cs : List Char) (h : ∀ c ∈ cs, isPlain c = true) :
    marked? none cs = some (withMark false cs) :=
  marked?_of_no_quote cs fun c hc => (separates_nothing_of_isPlain c (h c hc)).2.1

theorem isQuote_of_isBlank (c : Char) (h : Text.isBlank c = true) : isQuote c = false := by
  refine Bool.eq_false_iff.2 fun hquote => ?_
  rcases quote_cases c hquote with rfl | rfl <;> exact absurd h (by decide)

theorem marked?_of_blanks (cs : List Char) (h : Text.Blanks cs) :
    marked? none cs = some (withMark false cs) :=
  marked?_of_no_quote cs fun c hc => isQuote_of_isBlank c (h c hc)

theorem Token.Spelled.plain_or_literal {word : List Char} {token : Token}
    (h : Token.Spelled word token) :
    (∀ c ∈ word, isPlain c = true) ∨
      ∃ quote content, isQuote quote = true ∧ quote ∉ content ∧
        word = quote :: (content ++ [quote]) := by
  cases h with
  | field tag codes htag hcodes =>
    left
    exact List.forall_mem_append.2
      ⟨isPlain_of_isRangeTag tag (Or.inl htag), isPlain_of_codesText codes hcodes⟩
  | position tag digits n htag hdigits hn =>
    left
    exact List.forall_mem_append.2 ⟨isPlain_of_isRangeTag tag htag,
      List.forall_mem_cons.2 ⟨by decide +kernel, isPlain_of_isNumeral digits n hdigits⟩⟩
  | range tag first last m n htag hfirst hlast hm hn =>
    left
    exact List.forall_mem_append.2 ⟨isPlain_of_isRangeTag tag htag,
      List.forall_mem_cons.2 ⟨by decide +kernel,
        List.forall_mem_append.2 ⟨isPlain_of_isNumeral first m hfirst,
          List.forall_mem_cons.2 ⟨by decide +kernel, isPlain_of_isNumeral last n hlast⟩⟩⟩⟩
  | literal quote content hquote hcontent =>
    right
    exact ⟨quote, content, hquote, hcontent, rfl⟩
  | today =>
    left
    exact List.all_eq_true.1 (by decide +kernel)
  | remove =>
    left
    exact List.all_eq_true.1 (by decide +kernel)

def Uncut (ms : List Marked) : Prop :=
  ∀ m ∈ ms, m.2 = false → Text.isBlank m.1 = false ∧ m.1 ≠ ';'

theorem Token.Spelled.marks {word : List Char} {token : Token} (h : Token.Spelled word token) :
    ∃ inside, marked? none word = some (withMark inside word) ∧ Uncut (withMark inside word) := by
  rcases h.plain_or_literal with hplain | ⟨quote, content, hquote, hcontent, rfl⟩
  · refine ⟨false, marked?_of_plain word hplain, fun m hm _ => ?_⟩
    obtain ⟨c, hc, rfl⟩ := List.mem_map.1 hm
    obtain ⟨hblank, -, hsemicolon⟩ := separates_nothing_of_isPlain c (hplain c hc)
    exact ⟨hblank, hsemicolon⟩
  · refine ⟨true, marked?_literal quote content hquote hcontent, fun m hm hmark => ?_⟩
    obtain ⟨c, -, rfl⟩ := List.mem_map.1 hm
    cases hmark

theorem Token.Spelled.ne_nil {word : List Char} {token : Token} (h : Token.Spelled word token) :
    word ≠ [] := by
  cases h with
  | field tag codes htag =>
    obtain ⟨a, b, c, rfl⟩ := List.length_eq_three.1 htag.1
    exact List.cons_ne_nil _ _
  | position => exact List.append_ne_nil_of_right_ne_nil _ (List.cons_ne_nil _ _)
  | range => exact List.append_ne_nil_of_right_ne_nil _ (List.cons_ne_nil _ _)
  | literal => exact List.cons_ne_nil _ _
  | today => decide
  | remove => decide

end Crosswalk.Expression
