import Crosswalk.Proofs.Grammar

/-!
# The forms of tokens

Classification accepts the texts that are forms of tokens, and no others. One
lemma says so for each sort of token; the sorts do not overlap, because a token is
told by its first character or by the one behind its tag.
-/

namespace Crosswalk.Expression

/-! ### Characters -/

theorem isDecimalDigit_of_isDigit (c : Char) (h : c.isDigit = true) :
    Text.isDecimalDigit c = true := by
  rw [Char.isDigit, Bool.and_eq_true, decide_eq_true_eq, decide_eq_true_eq] at h
  refine List.any_eq_true.2 ⟨0x30, by decide, ?_⟩
  rw [Bool.and_eq_true, decide_eq_true_eq, decide_eq_true_eq]
  exact ⟨h.1, Nat.lt_succ_of_le h.2⟩

theorem isDecimalDigit_eq_false (c : Char) (hc : c ∈ ['#', '$', '/', '-', 'L', '"', '\x60']) :
    Text.isDecimalDigit c = false := by
  have hall : ['#', '$', '/', '-', 'L', '"', '\x60'].any Text.isDecimalDigit = false := by
    decide +kernel
  exact Bool.eq_false_iff.2 (List.any_eq_false.1 hall c hc)

theorem ne_of_isDecimalDigit (c other : Char) (h : Text.isDecimalDigit c = true)
    (hother : other ∈ ['#', '$', '/', '-', 'L', '"', '\x60']) : c ≠ other := by
  rintro rfl
  rw [isDecimalDigit_eq_false c hother] at h
  cases h

/-! ### Fields -/

theorem codes?_eq_some_iff (cs codes : List Char) :
    codes? cs = some codes ↔ AreCodes codes ∧ cs = codesText codes := by
  constructor
  · intro h
    rw [codes?.eq_def] at h
    split at h
    · cases h
      exact ⟨⟨Nat.zero_le 2, List.forall_mem_nil _⟩, rfl⟩
    · split at h
      · rename_i ha
        cases h
        exact ⟨⟨Nat.le_succ 1, fun c hc => by rwa [List.mem_singleton.1 hc]⟩, rfl⟩
      · cases h
    · split at h
      · rename_i hab
        rw [Bool.and_eq_true] at hab
        cases h
        refine ⟨⟨Nat.le_refl 2, fun c hc => ?_⟩, rfl⟩
        rcases List.mem_cons.1 hc with rfl | hb
        · exact hab.1
        · rw [List.mem_singleton.1 hb]
          exact hab.2
      · cases h
    · cases h
  · rintro ⟨⟨hlength, hcodes⟩, rfl⟩
    match codes, hlength with
    | [], _ => rfl
    | [a], _ =>
      have ha := hcodes a List.mem_cons_self
      simp only [codesText, List.flatMap_cons, List.flatMap_nil, List.append_nil, codes?, ha,
        if_true]
    | [a, b], _ =>
      have ha := hcodes a List.mem_cons_self
      have hb := hcodes b (List.mem_cons_of_mem a List.mem_cons_self)
      simp only [codesText, List.flatMap_cons, List.flatMap_nil, List.append_nil, List.cons_append,
        List.nil_append, codes?, ha, hb, Bool.and_true, if_true]

theorem isNumericTag_iff (a b c : Char) :
    IsNumericTag [a, b, c] ↔ [a, b, c].all Text.isDecimalDigit = true := by
  rw [IsNumericTag, List.all_eq_true]
  exact and_iff_right rfl

theorem field?_eq_some_iff (cs : List Char) (token : Token) :
    field? cs = some token ↔ ∃ tag codes, IsNumericTag tag ∧ AreCodes codes ∧
      cs = tag ++ codesText codes ∧ token = .field (String.ofList tag) codes := by
  constructor
  · intro h
    rw [field?.eq_def] at h
    split at h
    · rename_i a b c rest
      split at h
      · rename_i hdigits
        obtain ⟨codes, hcodes, rfl⟩ := Option.map_eq_some_iff.1 h
        obtain ⟨hare, rfl⟩ := (codes?_eq_some_iff _ _).1 hcodes
        exact ⟨[a, b, c], codes, (isNumericTag_iff a b c).2 hdigits, hare, rfl, rfl⟩
      · cases h
    · cases h
  · rintro ⟨tag, codes, htag, hcodes, rfl, rfl⟩
    obtain ⟨a, b, c, rfl⟩ := List.length_eq_three.1 htag.1
    rw [isNumericTag_iff] at htag
    simp only [List.cons_append, List.nil_append, field?, htag, if_true,
      (codes?_eq_some_iff _ _).2 ⟨hcodes, rfl⟩, Option.map_some]

/-! ### Numerals -/

theorem le_decimalValue (n : Nat) (digits : List Char) : n ≤ Text.decimalValue n digits := by
  induction digits generalizing n with
  | nil => exact Nat.le_refl n
  | cons c rest ih =>
    refine Nat.le_trans ?_ (ih (n * 10 + (c.toNat - '0'.toNat)))
    omega

theorem position_eq_ok_iff (token : String) (n m : Nat) (digits : List Char)
    (hn : n < Text.wordLimit) :
    position token n digits = .ok m ↔
      (∀ c ∈ digits, c.isDigit = true) ∧ Text.decimalValue n digits = m ∧ m < Text.wordLimit := by
  induction digits generalizing n with
  | nil =>
    rw [position, Except.ok.injEq, Text.decimalValue_nil]
    constructor
    · rintro rfl
      exact ⟨List.forall_mem_nil _, rfl, hn⟩
    · exact fun h => h.2.1
  | cons c rest ih =>
    have hvalue : Text.decimalValue n (c :: rest)
        = Text.decimalValue (n * 10 + (c.toNat - '0'.toNat)) rest := rfl
    rw [hvalue, List.forall_mem_cons]
    cases hdigit : c.isDigit with
    | false =>
      simp only [position, Text.digitValue?, hdigit, Bool.false_eq_true, if_false, false_and,
        reduceCtorEq]
    | true =>
      simp only [position, Text.digitValue?, hdigit, if_true, true_and]
      by_cases hlt : n * 10 + (c.toNat - '0'.toNat) < Text.wordLimit
      · rw [if_pos hlt, ih _ hlt]
      · -- More digits never make a number smaller, so one that is too large stays so.
        rw [if_neg hlt]
        refine iff_of_false (fun h => by cases h) ?_
        rintro ⟨-, rfl, hlimit⟩
        exact hlt (Nat.lt_of_le_of_lt (le_decimalValue _ rest) hlimit)

theorem position_zero_eq_ok_iff (token : String) (m : Nat) (digits : List Char)
    (hne : digits ≠ []) : position token 0 digits = .ok m ↔ IsNumeral digits m := by
  rw [position_eq_ok_iff token 0 m digits (by decide), IsNumeral]
  exact (and_iff_right hne).symm

/-! ### Byte ranges -/

/-- One decimal digit or more, of any script. -/
def AreDigits (digits : List Char) : Prop :=
  digits ≠ [] ∧ ∀ c ∈ digits, Text.isDecimalDigit c = true

theorem IsNumeral.areDigits {digits : List Char} {n : Nat} (h : IsNumeral digits n) :
    AreDigits digits :=
  ⟨h.1, fun c hc => isDecimalDigit_of_isDigit c (h.2.1 c hc)⟩

def lastText : Option (List Char) → List Char
  | none => []
  | some last => '-' :: last

theorem isRangeTag_iff (a b c : Char) :
    IsRangeTag [a, b, c] ↔ ([a, b, c].all Text.isDecimalDigit
      || decide (String.ofList [a, b, c] = leaderTag)) = true := by
  rw [IsRangeTag, isNumericTag_iff, Bool.or_eq_true, decide_eq_true_eq, ← String.toList_inj,
    String.toList_ofList]

theorem areDigits_iff (digits : List Char) :
    AreDigits digits ↔ (!digits.isEmpty && digits.all Text.isDecimalDigit) = true := by
  rw [AreDigits, Bool.and_eq_true, Bool.not_eq_true', List.isEmpty_eq_false_iff, List.all_eq_true]

theorem digits_lastText_iff (rest first : List Char) (last : Option (List Char)) :
    rest.takeWhile Text.isDecimalDigit = first ∧
        rest.dropWhile Text.isDecimalDigit = lastText last ↔
      (∀ c ∈ first, Text.isDecimalDigit c = true) ∧ rest = first ++ lastText last := by
  have hhyphen : ¬ Text.isDecimalDigit '-' = true := by decide +kernel
  constructor
  · rintro ⟨rfl, hdrop⟩
    refine ⟨fun c hc => List.mem_takeWhile_imp hc, ?_⟩
    rw [← hdrop, List.takeWhile_append_dropWhile]
  · rintro ⟨hfirst, rfl⟩
    rw [List.takeWhile_append_of_pos hfirst, List.dropWhile_append_of_pos hfirst]
    cases last with
    | none => simp [lastText]
    | some last => simp [lastText, List.takeWhile_cons_of_neg hhyphen,
        List.dropWhile_cons_of_neg hhyphen]

theorem parts_of_rangeParts? (cs tag first : List Char) (last : Option (List Char))
    (h : rangeParts? cs = some (tag, first, last)) :
    IsRangeTag tag ∧ AreDigits first ∧ (∀ digits, last = some digits → AreDigits digits) ∧
      cs = tag ++ '/' :: (first ++ lastText last) := by
  rw [rangeParts?.eq_def] at h
  split at h
  · rename_i a b c rest
    simp only at h
    split at h
    · rename_i hguard
      rw [Bool.and_eq_true, ← isRangeTag_iff, Bool.not_eq_true', List.isEmpty_eq_false_iff]
        at hguard
      obtain ⟨htag, hne⟩ := hguard
      split at h
      · rename_i hend
        cases h
        obtain ⟨hfirst, hrest⟩ := (digits_lastText_iff rest _ none).1 ⟨rfl, hend⟩
        exact ⟨htag, ⟨hne, hfirst⟩, fun digits hdigits => (by cases hdigits),
          congrArg (a :: b :: c :: '/' :: ·) hrest⟩
      · rename_i digits hend
        split at h
        · rename_i hdigits
          cases h
          obtain ⟨hfirst, hrest⟩ := (digits_lastText_iff rest _ (some digits)).1 ⟨rfl, hend⟩
          refine ⟨htag, ⟨hne, hfirst⟩, fun _ hsome => ?_,
            congrArg (a :: b :: c :: '/' :: ·) hrest⟩
          cases hsome
          exact (areDigits_iff digits).2 hdigits
        · cases h
      · cases h
    · cases h
  · cases h

theorem rangeParts?_of_parts (tag first : List Char) (last : Option (List Char))
    (htag : IsRangeTag tag) (hfirst : AreDigits first)
    (hlast : ∀ digits, last = some digits → AreDigits digits) :
    rangeParts? (tag ++ '/' :: (first ++ lastText last)) = some (tag, first, last) := by
  have hlength : tag.length = 3 := by
    rcases htag with hnumeric | rfl
    · exact hnumeric.1
    · rfl
  obtain ⟨a, b, c, rfl⟩ := List.length_eq_three.1 hlength
  obtain ⟨htake, hdrop⟩ := (digits_lastText_iff _ first last).2 ⟨hfirst.2, rfl⟩
  have hne : first.isEmpty = false := List.isEmpty_eq_false_iff.2 hfirst.1
  simp only [List.cons_append, List.nil_append, rangeParts?, htake, hdrop,
    (isRangeTag_iff a b c).1 htag, hne, Bool.not_false, Bool.and_true, if_true]
  cases last with
  | none => rfl
  | some digits =>
    have hdigits := (areDigits_iff digits).1 (hlast digits rfl)
    simp only [lastText, hdigits, if_true]

theorem rangeParts?_eq_some_iff (cs tag first : List Char) (last : Option (List Char)) :
    rangeParts? cs = some (tag, first, last) ↔
      IsRangeTag tag ∧ AreDigits first ∧ (∀ digits, last = some digits → AreDigits digits) ∧
        cs = tag ++ '/' :: (first ++ lastText last) := by
  refine ⟨parts_of_rangeParts? cs tag first last, ?_⟩
  rintro ⟨htag, hfirst, hlast, rfl⟩
  exact rangeParts?_of_parts tag first last htag hfirst hlast

theorem rangeToken_eq_ok_iff (shown tag : String) (first last : Nat) (token : Token) :
    rangeToken shown tag first last = .ok token ↔
      1 ≤ first ∧ first ≤ last ∧ token = .range tag (first - 1) last := by
  rw [rangeToken]
  split
  · rename_i hempty
    refine iff_of_false (fun h => by cases h) ?_
    rintro ⟨hfirst, hlast, -⟩
    omega
  · rename_i hrange
    rw [Except.ok.injEq]
    constructor
    · rintro rfl
      exact ⟨by omega, by omega, rfl⟩
    · exact fun h => h.2.2.symm

/-- The digits of a range make a token exactly if they denote positions, of which the last one does
not come before the first one; without a last position the first one stands for it. -/
theorem positions_eq_ok_iff (shown tag : String) (first : List Char) (last : Option (List Char))
    (hfirst : AreDigits first) (hlast : ∀ digits, last = some digits → AreDigits digits)
    (token : Token) :
    (do
      let m ← position shown 0 first
      let n ← match last with
        | none => .ok m
        | some digits => position shown 0 digits
      rangeToken shown tag m n) = .ok token ↔
      ∃ m n, IsNumeral first m ∧ IsNumeral (last.getD first) n ∧ 1 ≤ m ∧ m ≤ n ∧
        token = .range tag (m - 1) n := by
  constructor
  · intro h
    obtain ⟨m, hm, hrest⟩ := (bind_eq_ok_iff _ _ _).1 h
    have hnumeral := (position_zero_eq_ok_iff shown m first hfirst.1).1 hm
    cases last with
    | none =>
      obtain ⟨hpos, hle, htoken⟩ := (rangeToken_eq_ok_iff _ _ _ _ _).1 hrest
      exact ⟨m, m, hnumeral, hnumeral, hpos, hle, htoken⟩
    | some digits =>
      obtain ⟨n, hn, hrange⟩ := (bind_eq_ok_iff _ _ _).1 hrest
      obtain ⟨hpos, hle, htoken⟩ := (rangeToken_eq_ok_iff _ _ _ _ _).1 hrange
      have hlastNumeral := (position_zero_eq_ok_iff shown n digits (hlast digits rfl).1).1 hn
      exact ⟨m, n, hnumeral, hlastNumeral, hpos, hle, htoken⟩
  · rintro ⟨m, n, hm, hn, hpos, hle, htoken⟩
    have hfound := (position_zero_eq_ok_iff shown m first hfirst.1).2 hm
    have htaken := (rangeToken_eq_ok_iff shown tag m n token).2 ⟨hpos, hle, htoken⟩
    refine (bind_eq_ok_iff _ _ _).2 ⟨m, hfound, ?_⟩
    cases last with
    | none =>
      have hsame : n = m := hn.2.2.1.symm.trans hm.2.2.1
      rwa [hsame] at htaken
    | some digits =>
      have hlastFound := (position_zero_eq_ok_iff shown n digits hn.1).2 hn
      exact (bind_eq_ok_iff _ _ _).2 ⟨n, hlastFound, htaken⟩

/-! ### Literals -/

theorem literal?_eq_some_iff (quote : Char) (rest : List Char) (token : Token) :
    literal? quote rest = some token ↔ ∃ content, quote ∉ content ∧ rest = content ++ [quote] ∧
      token = .literal (String.ofList content) := by
  rw [literal?]
  constructor
  · intro h
    split at h
    · rename_i hquoted
      cases h
      obtain ⟨front, hfront⟩ := List.getLast?_eq_some_iff.1 hquoted.1
      rw [hfront, List.dropLast_concat] at hquoted ⊢
      exact ⟨front, hquoted.2, rfl, rfl⟩
    · cases h
  · rintro ⟨content, hcontent, rfl, rfl⟩
    rw [List.dropLast_concat, List.getLast?_concat, if_pos ⟨rfl, hcontent⟩]

/-! ### Classification -/

theorem spelled_of_classify (cs : List Char) (token : Token) (h : classify cs = .ok token) :
    Token.Spelled cs token := by
  simp only [classify] at h
  split at h
  · rename_i htoday
    cases h
    rw [htoday]
    exact Token.Spelled.today
  · split at h
    · rename_i hremove
      cases h
      rw [hremove]
      exact Token.Spelled.remove
    · split at h
      · cases h
      · rename_i c rest _ _
        split at h
        · rename_i hquote
          split at h
          · rename_i found hliteral
            cases h
            obtain ⟨content, hcontent, rfl, rfl⟩ := (literal?_eq_some_iff c rest token).1 hliteral
            exact Token.Spelled.literal c content hquote hcontent
          · cases h
        · split at h
          · rename_i found hfield
            cases h
            obtain ⟨tag, codes, htag, hcodes, hcs, rfl⟩ := (field?_eq_some_iff _ token).1 hfield
            rw [hcs]
            exact Token.Spelled.field tag codes htag hcodes
          · rename_i tag first last hnone hrange
            obtain ⟨htag, hfirst, hlast, hcs⟩ := (rangeParts?_eq_some_iff _ _ _ _).1 hrange
            obtain ⟨m, n, hm, hn, hpos, hle, rfl⟩ :=
              (positions_eq_ok_iff _ _ first last hfirst hlast token).1 h
            rw [hcs]
            cases last with
            | none =>
              have hsame : n = m := hn.2.2.1.symm.trans hm.2.2.1
              rw [hsame, lastText, List.append_nil]
              exact Token.Spelled.position tag first m htag hm hpos
            | some digits => exact Token.Spelled.range tag first digits m n htag hm hn hpos hle
          · cases h

theorem classify_cons (c : Char) (rest : List Char) (hc : c ≠ '#') :
    classify (c :: rest)
      = if isQuote c then
          match literal? c rest with
          | some token => .ok token
          | none => .error (.malformedLiteral (String.ofList (c :: rest)))
        else
          match field? (c :: rest), rangeParts? (c :: rest) with
          | some token, _ => .ok token
          | none, some (tag, first, last) => do
            let first ← position (String.ofList (c :: rest)) 0 first
            let last ← match last with
              | none => .ok first
              | some digits => position (String.ofList (c :: rest)) 0 digits
            rangeToken (String.ofList (c :: rest)) (String.ofList tag) first last
          | none, none => .error (.unrecognizedToken (String.ofList (c :: rest))) := by
  have htoday : c :: rest ≠ todayText := fun h => hc (List.cons.inj h).1
  have hremove : c :: rest ≠ removeText := fun h => hc (List.cons.inj h).1
  rw [classify, if_neg htoday]
  exact if_neg hremove

theorem isQuote_eq_false (c : Char) (h : c ≠ '"' ∧ c ≠ '\x60') : isQuote c = false := by
  rw [isQuote, decide_eq_false h.1, decide_eq_false h.2]
  rfl

theorem exists_cons_of_isRangeTag (tag : List Char) (h : IsRangeTag tag) :
    ∃ c rest, tag = c :: rest ∧ c ≠ '#' ∧ isQuote c = false := by
  rcases h with hnumeric | rfl
  · obtain ⟨a, b, c, rfl⟩ := List.length_eq_three.1 hnumeric.1
    have ha := hnumeric.2 a List.mem_cons_self
    exact ⟨a, [b, c], rfl, ne_of_isDecimalDigit a '#' ha (by decide),
      isQuote_eq_false a ⟨ne_of_isDecimalDigit a '"' ha (by decide),
        ne_of_isDecimalDigit a '\x60' ha (by decide)⟩⟩
  · exact ⟨'L', ['D', 'R'], rfl, by decide, by decide⟩

theorem field?_of_range (tag rest : List Char) (h : IsRangeTag tag) :
    field? (tag ++ '/' :: rest) = none := by
  rw [← Option.not_isSome_iff_eq_none, Option.isSome_iff_exists]
  rintro ⟨token, htoken⟩
  obtain ⟨digits, codes, hdigits, -, hcs, -⟩ := (field?_eq_some_iff _ token).1 htoken
  have hlength : tag.length = digits.length := by
    rw [hdigits.1]
    rcases h with hnumeric | rfl
    · exact hnumeric.1
    · rfl
  obtain ⟨-, htext⟩ := List.append_inj hcs hlength
  cases codes with
  | nil => cases htext
  | cons a others => cases htext

theorem classify_range_eq_ok_iff (tag first : List Char) (last : Option (List Char))
    (htag : IsRangeTag tag) (hfirst : AreDigits first)
    (hlast : ∀ digits, last = some digits → AreDigits digits) (token : Token) :
    classify (tag ++ '/' :: (first ++ lastText last)) = .ok token ↔
      ∃ m n, IsNumeral first m ∧ IsNumeral (last.getD first) n ∧ 1 ≤ m ∧ m ≤ n ∧
        token = .range (String.ofList tag) (m - 1) n := by
  have hfield := field?_of_range tag (first ++ lastText last) htag
  have hrange := (rangeParts?_eq_some_iff _ tag first last).2 ⟨htag, hfirst, hlast, rfl⟩
  obtain ⟨c, rest, rfl, hc, hquote⟩ := exists_cons_of_isRangeTag tag htag
  rw [List.cons_append] at hfield hrange ⊢
  rw [classify_cons c _ hc, hquote, if_neg Bool.false_ne_true, hfield, hrange]
  exact positions_eq_ok_iff _ _ first last hfirst hlast token

theorem classify_of_spelled (cs : List Char) (token : Token) (h : Token.Spelled cs token) :
    classify cs = .ok token := by
  cases h with
  | today => rfl
  | remove => rfl
  | literal quote content hquote hcontent =>
    have hne : quote ≠ '#' := by
      rintro rfl
      cases hquote
    rw [classify_cons quote _ hne, if_pos hquote,
      (literal?_eq_some_iff quote _ _).2 ⟨content, hcontent, rfl, rfl⟩]
  | field tag codes htag hcodes =>
    have hfield := (field?_eq_some_iff (tag ++ codesText codes) _).2
      ⟨tag, codes, htag, hcodes, rfl, rfl⟩
    obtain ⟨c, rest, rfl, hc, hquote⟩ := exists_cons_of_isRangeTag tag (Or.inl htag)
    rw [List.cons_append] at hfield ⊢
    rw [classify_cons c _ hc, hquote, if_neg Bool.false_ne_true, hfield]
  | position tag digits n htag hdigits hn =>
    have hclassify := (classify_range_eq_ok_iff tag digits none htag hdigits.areDigits
      (fun _ hsome => by cases hsome) _).2 ⟨n, n, hdigits, hdigits, hn, Nat.le_refl n, rfl⟩
    rwa [lastText, List.append_nil] at hclassify
  | range tag first last m n htag hfirst hlast hm hn =>
    refine (classify_range_eq_ok_iff tag first (some last) htag hfirst.areDigits
      (fun _ hsome => ?_) _).2 ⟨m, n, hfirst, hlast, hm, hn, rfl⟩
    cases hsome
    exact hlast.areDigits

theorem classify_eq_ok_iff (cs : List Char) (token : Token) :
    classify cs = .ok token ↔ Token.Spelled cs token :=
  ⟨spelled_of_classify cs token, classify_of_spelled cs token⟩

end Crosswalk.Expression
