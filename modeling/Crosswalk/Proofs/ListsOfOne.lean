import Crosswalk.Proofs.Destinations
import Crosswalk.Proofs.FanOut
import Crosswalk.Proofs.Occurrences

/-!
# Lists of one text

Where every tag that an expression reads occurs at most once, its tokens have one value
each at most, and a list that is made of them has one element at most. That element is
made of the same texts as the single text is that a rule without array mark reads, but
for the texts that are blank: in a single text they count, in a list they are left out.
So a list has the single text as its element unless a literal of blanks stands between
other values.
-/

namespace Crosswalk

theorem Text.isBlankText_join (texts : List String) :
    isBlankText (String.join texts) = texts.all isBlankText := by
  induction texts with
  | nil => rfl
  | cons text rest ih => rw [String.join_cons, isBlankText_append, ih, List.all_cons]

namespace Reading

/-! ### Texts put together -/

def together (texts : List String) : List String :=
  if texts.isEmpty then [] else [String.join texts]

theorem isEmpty_together (texts : List String) : (together texts).isEmpty = texts.isEmpty := by
  cases texts <;> rfl

theorem isEmpty_nonBlank (texts : List String) :
    (nonBlank texts).isEmpty = Text.isBlankText (String.join texts) := by
  rw [Text.isBlankText_join, nonBlank, Bool.eq_iff_iff, List.isEmpty_iff, List.filter_eq_nil_iff,
    List.all_eq_true]
  simp only [Bool.not_eq_true', Bool.not_eq_false]

theorem join_nonBlank (texts : List String)
    (h : ∀ text ∈ texts, Text.isBlankText text = true → text = "") :
    String.join (nonBlank texts) = String.join texts := by
  induction texts with
  | nil => rfl
  | cons text rest ih =>
    have hrest := ih fun t ht => h t (List.mem_cons_of_mem text ht)
    cases hblank : Text.isBlankText text with
    | true =>
      have hempty := h text List.mem_cons_self hblank
      have hskip : nonBlank (text :: rest) = nonBlank rest := by simp [nonBlank, hblank]
      rw [hskip, hrest, String.join_cons, hempty, String.empty_append]
    | false =>
      have hkeep : nonBlank (text :: rest) = text :: nonBlank rest := by simp [nonBlank, hblank]
      rw [hkeep, String.join_cons, hrest, String.join_cons]

theorem nonBlank_append (texts more : List String) :
    nonBlank (texts ++ more) = nonBlank texts ++ nonBlank more := List.filter_append ..

theorem joinFirst_of_single (values : List (List String))
    (h : ∀ texts ∈ values, texts.length ≤ 1) : joinFirst values = String.join values.flatten := by
  have hheads : values.filterMap List.head? = values.flatten := by
    induction values with
    | nil => rfl
    | cons texts rest ih =>
      have hrest := ih fun t ht => h t (List.mem_cons_of_mem texts ht)
      have htexts := h texts List.mem_cons_self
      match texts with
      | [] => exact hrest
      | [text] => exact congrArg (text :: ·) hrest
      | _ :: _ :: _ =>
        simp only [List.length_cons] at htexts
        omega
  rw [joinFirst, hheads]

theorem correlate_together (before texts : List String) (h : texts.length ≤ 1) :
    correlate (together before) texts = together (before ++ texts) := by
  match texts with
  | [] => rw [List.append_nil]; rfl
  | [text] =>
    cases before with
    | nil => simp [correlate, together]
    | cons first rest =>
      have hjoin : String.join (first :: rest ++ [text]) = String.join (first :: rest) ++ text := by
        simp [String.join_append, String.append_assoc]
      have hmore : together (first :: rest ++ [text]) = [String.join (first :: rest ++ [text])] := rfl
      rw [hmore, hjoin]
      rfl
  | _ :: _ :: _ =>
    simp only [List.length_cons] at h
    omega

theorem fanOut_of_single (values : List (List String)) (h : ∀ texts ∈ values, texts.length ≤ 1) :
    fanOut values = together (nonBlank values.flatten) := by
  have hfold (before : List String) :
      values.foldl (fun elements texts => correlate elements (nonBlank texts)) (together before)
        = together (before ++ nonBlank values.flatten) := by
    induction values generalizing before with
    | nil => rw [List.flatten_nil]; exact congrArg together (List.append_nil before).symm
    | cons texts rest ih =>
      have htexts := Nat.le_trans (length_nonBlank_le texts) (h texts List.mem_cons_self)
      rw [List.foldl_cons, correlate_together before _ htexts,
        ih (fun t ht => h t (List.mem_cons_of_mem texts ht)), List.flatten_cons, nonBlank_append,
        List.append_assoc]
  exact hfold []

/-! ### Tokens -/

section

variable (setting : Setting) (head other : RuleHead) (record : Marc.Record)

/-- The token stands for blanks. They count in a single text, and a list takes no notice of them. -/
def IsSeparator : Expression.Token → Prop
  | .literal text =>
    Text.isBlankText (settled setting head text) = true ∧ settled setting head text ≠ ""
  | _ => False

instance (token : Expression.Token) : Decidable (IsSeparator setting head token) :=
  match token with
  | .literal text =>
    inferInstanceAs (Decidable (Text.isBlankText (settled setting head text) = true
      ∧ settled setting head text ≠ ""))
  | .field .. | .range .. | .today | .remove => isFalse id

def FreeOfSeparators (clause : Expression.Clause) : Prop :=
  ∀ token ∈ clause, ¬ IsSeparator setting head token

instance (clause : Expression.Clause) : Decidable (FreeOfSeparators setting head clause) :=
  inferInstanceAs (Decidable (∀ token ∈ clause, ¬ IsSeparator setting head token))

theorem empty_of_tokenValues (token : Expression.Token) (texts : List String)
    (hdates : ∀ zone, Text.isBlankText (setting.today zone) = false)
    (htoken : ¬ IsSeparator setting head token)
    (h : tokenValues setting head record token = .ok texts) :
    ∀ text ∈ texts, Text.isBlankText text = true → text = "" := by
  intro text htext hblank
  cases valueOf_of_tokenValues setting head record token texts h text htext with
  | today date hdate =>
    obtain ⟨zone, -, rfl⟩ := (map_eq_ok_iff _ _ _).1 hdate
    rw [hdates zone] at hblank
    cases hblank
  | literal literal => exact not_not.1 fun hne => htoken ⟨hblank, hne⟩
  | field tag codes raw hraw =>
    rw [hraw] at hblank
    cases hblank
  | range tag start stop raw hraw =>
    rw [hraw] at hblank
    cases hblank

theorem empty_of_clauseValues (clause : Expression.Clause) (values : List (List String))
    (hdates : ∀ zone, Text.isBlankText (setting.today zone) = false)
    (hclause : FreeOfSeparators setting head clause)
    (h : clauseValues setting head record clause = .ok (some values)) :
    ∀ text ∈ values.flatten, Text.isBlankText text = true → text = "" := by
  intro text htext
  obtain ⟨texts, htexts, hmem⟩ := List.mem_flatten.1 htext
  obtain ⟨token, htoken, hvalues⟩ :=
    exists_of_mem_forall₂ (forall₂_clauseValues setting head record clause values h) texts htexts
  exact empty_of_tokenValues setting head record token texts hdates (hclause token htoken) hvalues
    text hmem

/-! ### Clauses -/

/-- The first outcome is a single text and the second a list of the same texts, or both are the same
removal or error. With `exact` all blank texts among them are empty. -/
inductive MadeAlike (exact : Prop) : Except Error Yield → Except Error Yield → Prop where
  | error (e : Error) : MadeAlike exact (.error e) (.error e)
  | removal : MadeAlike exact (.ok .removal) (.ok .removal)
  | texts (texts : List String)
      (h : exact → ∀ text ∈ texts, Text.isBlankText text = true → text = "") :
      MadeAlike exact (.ok (.scalar (String.join texts))) (.ok (.items (together (nonBlank texts))))

theorem MadeAlike.mono {exact more : Prop} {first second : Except Error Yield}
    (h : MadeAlike exact first second) (himp : more → exact) : MadeAlike more first second := by
  cases h with
  | error e => exact .error e
  | removal => exact .removal
  | texts texts h => exact .texts texts fun hmore => h (himp hmore)

theorem madeAlike_clauseYield (hsettled : settled setting other = settled setting head)
    (hdates : ∀ zone, Text.isBlankText (setting.today zone) = false) (clause : Expression.Clause)
    (hone : ReadsOnce record clause) :
    MadeAlike (FreeOfSeparators setting head clause)
      (clauseYield setting false head record clause)
      (clauseYield setting true other record clause) := by
  rw [clauseYield, clauseYield, clauseValues_of_settled setting head record other hsettled clause]
  cases hvalues : clauseValues setting head record clause with
  | error e => exact .error e
  | ok found =>
    cases found with
    | none => exact .removal
    | some values =>
      have hlength := length_clauseValues_le setting head record clause values hone hvalues
      have hscalar := joinFirst_of_single values hlength
      have hitems := fanOut_of_single values hlength
      have halike : MadeAlike (FreeOfSeparators setting head clause) _ _ :=
        .texts values.flatten fun hfree =>
          empty_of_clauseValues setting head record clause values hdates hfree hvalues
      rw [← hscalar, ← hitems] at halike
      exact halike

theorem madeAlike_clausesYield (hsettled : settled setting other = settled setting head)
    (hdates : ∀ zone, Text.isBlankText (setting.today zone) = false)
    (clauses : List Expression.Clause) (hone : ∀ clause ∈ clauses, ReadsOnce record clause) :
    MadeAlike (∀ clause ∈ clauses, FreeOfSeparators setting head clause)
      (clausesYield setting false head record clauses)
      (clausesYield setting true other record clauses) := by
  induction clauses with
  | nil => exact .texts [] fun _ text htext => by cases htext
  | cons clause rest ih =>
    have hrest := ih fun c hc => hone c (List.mem_cons_of_mem clause hc)
    have hfirst := madeAlike_clauseYield setting head other record hsettled hdates clause
      (hone clause List.mem_cons_self)
    rw [clausesYield, clausesYield]
    generalize clauseYield setting false head record clause = first at hfirst ⊢
    generalize clauseYield setting true other record clause = second at hfirst ⊢
    cases hfirst with
    | error e => exact .error e
    | removal => exact .removal
    | texts texts h =>
      have hblank : (Yield.items (together (nonBlank texts))).isBlank
          = (Yield.scalar (String.join texts)).isBlank :=
        (isEmpty_together _).trans (isEmpty_nonBlank texts)
      have hnext : MadeAlike (∀ c ∈ clause :: rest, FreeOfSeparators setting head c)
          (if (Yield.scalar (String.join texts)).isBlank then
              clausesYield setting false head record rest
            else .ok (.scalar (String.join texts)))
          (if (Yield.items (together (nonBlank texts))).isBlank then
              clausesYield setting true other record rest
            else .ok (.items (together (nonBlank texts)))) := by
        rw [hblank]
        split
        · exact hrest.mono fun hfree c hc => hfree c (List.mem_cons_of_mem clause hc)
        · exact .texts texts fun hfree => h (hfree clause List.mem_cons_self)
      exact hnext

/-! ### Rules -/

theorem yieldValue_texts (policy arrayPolicy : Policy) (texts : List String) :
    (yieldValue policy (.scalar (String.join texts)) = .missing ∧
        yieldValue arrayPolicy (.items (together (nonBlank texts))) = .missing) ∨
      (yieldValue policy (.scalar (String.join texts)) = .string (String.join texts) ∧
        yieldValue arrayPolicy (.items (together (nonBlank texts)))
          = .list [String.join (nonBlank texts)] arrayPolicy) := by
  have hempty := isEmpty_nonBlank texts
  cases hblank : Text.isBlankText (String.join texts) with
  | true =>
    rw [hblank, List.isEmpty_iff] at hempty
    left
    rw [yieldValue, if_pos hblank, hempty]
    exact ⟨rfl, rfl⟩
  | false =>
    rw [hblank] at hempty
    right
    rw [yieldValue, if_neg (ne_true_of_eq_false hblank), together, hempty]
    exact ⟨rfl, rfl⟩

/-- A rule that is read by its expression, if that is not blank, and is not read at all otherwise. -/
def IsPlain (rule : Rule) : Prop := rule.kind = .expression ∨ rule.kind = .empty

instance (rule : Rule) : Decidable (IsPlain rule) :=
  inferInstanceAs (Decidable (rule.kind = .expression ∨ rule.kind = .empty))

theorem kind_of_isPlain (rule : Rule) (h : IsPlain rule) :
    rule.kind = if rule.head.hasExpression then .expression else .empty := by
  have hsome : rule.kind = .expression → rule.head.hasExpression = true := by
    rw [Rule.kind]
    split_ifs <;> simp_all
  have hnone : rule.kind = .empty → rule.head.hasExpression = false := by
    rw [Rule.kind]
    split_ifs <;> simp_all
  rcases h with hexpression | hempty
  · rw [hsome hexpression, if_pos rfl, hexpression]
  · rw [hnone hempty, if_neg Bool.false_ne_true, hempty]

theorem read_of_isPlain (rule : Rule) (source : String) (hplain : IsPlain rule)
    (hsource : rule.head.expression = some source) :
    read setting rule record
      = if Text.isBlankText source then .ok .missing
        else readExpression setting false rule.head record := by
  have hkind := kind_of_isPlain rule hplain
  rw [RuleHead.hasExpression, hsource, Option.any_some] at hkind
  obtain ⟨head, groups⟩ := rule
  rw [read, readRule, hkind]
  cases Text.isBlankText source <;> rfl

/-- No text was read: nothing, a removal or an error. -/
def IsTextless (outcome : Except Error Value) : Prop :=
  outcome = .ok .missing ∨ outcome = .ok (.removal "") ∨ ∃ e, outcome = .error e

theorem isTextless_of_fault (e : Error) :
    IsTextless (if e.fatal then .error e else .ok .missing) := by
  split
  · exact Or.inr (Or.inr ⟨e, rfl⟩)
  · exact Or.inl rfl

/-- A rule for a single text and a rule for a list read the same where no tag of their expression
occurs twice: nothing, a removal or an error both of them, or else a text the one and a list with one
element the other. The element is put together from the texts that are not blank, so it is the text
itself unless a literal stands for blanks. -/
theorem array_rule_reads_text_as_list (textRule arrayRule : Rule) (source : String)
    (hdates : ∀ zone, Text.isBlankText (setting.today zone) = false)
    (hplain : IsPlain textRule ∧ IsPlain arrayRule)
    (hsource : textRule.head.expression = some source ∧ arrayRule.head.expression = some source)
    (haccepted : arrayRule.head.accepted = textRule.head.accepted)
    (hname : arrayRule.head.fieldName = textRule.head.fieldName)
    (hmark : Path.isMarked textRule.head.path = false)
    (hpath : arrayRule.head.path = textRule.head.path ++ "[]")
    (hone : ∀ tag ∈ readTags source, record.occurrences tag ≤ 1) :
    (∃ outcome, IsTextless outcome ∧ read setting textRule record = outcome ∧
        read setting arrayRule record = outcome) ∨
      ∃ texts, read setting textRule record = .ok (.string (String.join texts)) ∧
        read setting arrayRule record
          = .ok (.list [String.join (nonBlank texts)] arrayRule.head.policyOrDefault) ∧
        ((∀ e, Expression.parse source = .ok e →
            ∀ clause ∈ e.clauses, FreeOfSeparators setting textRule.head clause) →
          String.join (nonBlank texts) = String.join texts) := by
  have harray : Path.isMarked arrayRule.head.path = true := by
    rw [hpath, Path.isMarked_iff, String.toList_append]
    exact List.suffix_append _ _
  have hsettled : settled setting arrayRule.head = settled setting textRule.head := by
    funext text
    rw [settled, settled, haccepted, hname]
  rw [read_of_isPlain setting record textRule source hplain.1 hsource.1,
    read_of_isPlain setting record arrayRule source hplain.2 hsource.2]
  by_cases hblank : Text.isBlankText source = true
  · rw [if_pos hblank, if_pos hblank]
    exact Or.inl ⟨.ok .missing, Or.inl rfl, rfl, rfl⟩
  · rw [if_neg hblank, if_neg hblank]
    simp only [readExpression, hsource.1, hsource.2, hmark, harray, Bool.or_false, Bool.or_true,
      expressionYield]
    cases hparse : Expression.parse source with
    | error e => exact Or.inl ⟨_, isTextless_of_fault e, rfl, rfl⟩
    | ok e =>
      have hreads : ∀ clause ∈ e.clauses, ReadsOnce record clause := by
        intro clause hclause token htoken tag htag
        exact hone tag (mem_readTags source e hparse clause hclause token htoken tag htag)
      have halike := madeAlike_clausesYield setting textRule.head arrayRule.head record hsettled
        hdates e.clauses hreads
      simp only [bind, Except.bind]
      generalize clausesYield setting false textRule.head record e.clauses = first at halike ⊢
      generalize clausesYield setting true arrayRule.head record e.clauses = second at halike ⊢
      cases halike with
      | error fault => exact Or.inl ⟨_, isTextless_of_fault fault, rfl, rfl⟩
      | removal => exact Or.inl ⟨.ok (.removal ""), Or.inr (Or.inl rfl), rfl, rfl⟩
      | texts texts hexact =>
        rcases yieldValue_texts textRule.head.policyOrDefault arrayRule.head.policyOrDefault texts
          with ⟨hmissing, hnone⟩ | ⟨htext, hlist⟩
        · exact Or.inl ⟨.ok .missing, Or.inl rfl, congrArg Except.ok hmissing,
            congrArg Except.ok hnone⟩
        · refine Or.inr ⟨texts, congrArg Except.ok htext, congrArg Except.ok hlist, fun hfree => ?_⟩
          exact join_nonBlank texts (hexact (hfree e rfl))

end

theorem vendor_is_read_alike :
    let accepted := [("loc-1", "Main Library (MAIN)")]
    let source := "852$z \"?\"; else \"Unknown\" 945$h 001/1-2; else \"none\""
    let setting : Setting := ⟨default, {}, fun _ => "2000-01-01"⟩
    let textRule : Rule :=
      ⟨{ path := "order.vendor", name := some "vendor", expression := some source, accepted }, []⟩
    let arrayRule : Rule :=
      ⟨{ path := "order.vendor[]", expression := some source, accepted,
         policy := some .exchangeExisting }, []⟩
    let record : Marc.Record := ⟨"", [⟨"001", "in1"⟩],
      [⟨"945", ' ', ' ', [⟨'a', "b1"⟩, ⟨'h', "main"⟩]⟩, ⟨"500", ' ', ' ', [⟨'a', "n"⟩]⟩,
        ⟨"500", ' ', ' ', [⟨'a', "m"⟩]⟩]⟩
    (∀ zone, Text.isBlankText (setting.today zone) = false) ∧
      (IsPlain textRule ∧ IsPlain arrayRule) ∧
      (textRule.head.expression = some source ∧ arrayRule.head.expression = some source) ∧
      arrayRule.head.accepted = textRule.head.accepted ∧
      arrayRule.head.fieldName = textRule.head.fieldName ∧
      Path.isMarked textRule.head.path = false ∧
      arrayRule.head.path = textRule.head.path ++ "[]" ∧
      (∀ tag ∈ readTags source, record.occurrences tag ≤ 1) ∧
      read setting textRule record = .ok (.string "loc-1") ∧
      read setting arrayRule record = .ok (.list ["loc-1"] .exchangeExisting) ∧
      ((∃ outcome, IsTextless outcome ∧ read setting textRule record = outcome ∧
          read setting arrayRule record = outcome) ∨
        ∃ texts, read setting textRule record = .ok (.string (String.join texts)) ∧
          read setting arrayRule record
            = .ok (.list [String.join (nonBlank texts)] arrayRule.head.policyOrDefault) ∧
          ((∀ e, Expression.parse source = .ok e →
              ∀ clause ∈ e.clauses, FreeOfSeparators setting textRule.head clause) →
            String.join (nonBlank texts) = String.join texts)) := by
  intro accepted source setting textRule arrayRule record
  have hday : Text.isBlankText "2000-01-01" = false := by decide +kernel
  have hdates : ∀ zone, Text.isBlankText (setting.today zone) = false := fun _ => hday
  have hplain : IsPlain textRule ∧ IsPlain arrayRule := by decide +kernel
  have hname : arrayRule.head.fieldName = textRule.head.fieldName := by decide +kernel
  have hmark : Path.isMarked textRule.head.path = false := by decide +kernel
  have hpath : arrayRule.head.path = textRule.head.path ++ "[]" := by decide +kernel
  have hone : ∀ tag ∈ readTags source, record.occurrences tag ≤ 1 := by decide +kernel
  have htext : read setting textRule record = .ok (.string "loc-1") := by
    unfold record textRule setting source accepted
    with_unfolding_all rfl
  have hlist : read setting arrayRule record = .ok (.list ["loc-1"] .exchangeExisting) := by
    unfold record arrayRule setting source accepted
    with_unfolding_all rfl
  exact ⟨hdates, hplain, ⟨rfl, rfl⟩, rfl, hname, hmark, hpath, hone, htext, hlist,
    array_rule_reads_text_as_list setting record textRule arrayRule source hdates hplain ⟨rfl, rfl⟩
      rfl hname hmark hpath hone⟩

/-- The literal between the two subfields is a space, which the single text has and the list has
not. -/
theorem space_between_values_is_lost_in_list :
    let source := "245$a \" \" 245$b"
    let setting : Setting := ⟨default, {}, fun _ => "2000-01-01"⟩
    let textRule := Rule.ofExpression "instance.title" source
    let arrayRule := Rule.ofExpression "instance.title[]" source
    let record : Marc.Record := ⟨"", [], [⟨"245", '1', '0', [⟨'a', "Walden;"⟩, ⟨'b', "or, Life"⟩]⟩]⟩
    (∀ tag ∈ readTags source, record.occurrences tag ≤ 1) ∧
      read setting textRule record = .ok (.string "Walden; or, Life") ∧
      read setting arrayRule record = .ok (.list ["Walden;or, Life"] .extendExisting) := by
  intro source setting textRule arrayRule record
  refine ⟨by decide +kernel, ?_, ?_⟩
  · unfold record textRule setting source
    with_unfolding_all rfl
  · unfold record arrayRule setting source
    with_unfolding_all rfl

end Reading

end Crosswalk
