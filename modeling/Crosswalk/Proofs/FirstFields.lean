import Crosswalk.Proofs.Destinations
import Crosswalk.Proofs.SingleOccurrence

/-!
# Single texts and first fields

A rule for a single text joins the first value of each token, and blank values are
no values: a token whose first field has nothing for it goes on to a later field.
So such a rule reads the same from the first fields of the record alone exactly as
long as no token has to go on, and this is the only way in which data of two
occurrences of a tag can meet in one text.
-/

namespace Crosswalk

/-! ### First fields -/

namespace Marc.Record

section

variable {α : Type} (tagOf : α → String)

/-- The fields without those that have the tag of an earlier one. -/
def firstOfEach : List α → List α
  | [] => []
  | field :: rest => field :: others tagOf (tagOf field) (firstOfEach rest)

theorem filter_firstOfEach (tag : String) (fields : List α) :
    (firstOfEach tagOf fields).filter (fun f => tagOf f = tag)
      = (fields.filter fun f => tagOf f = tag).take 1 := by
  induction fields with
  | nil => rfl
  | cons field rest ih =>
    rw [firstOfEach]
    by_cases htag : tagOf field = tag
    · rw [List.filter_cons_of_pos (by rwa [decide_eq_true_eq]),
        List.filter_cons_of_pos (by rwa [decide_eq_true_eq]), htag, filter_others_self,
        List.take_succ_cons, List.take_zero]
    · rw [List.filter_cons_of_neg (by rwa [decide_eq_true_eq]),
        List.filter_cons_of_neg (by rwa [decide_eq_true_eq]),
        filter_others tagOf (tagOf field) tag (Ne.symm htag), ih]

end

/-- The record with the first control field and the first data field of each tag, and no others. -/
def firsts (record : Record) : Record :=
  { record with
    controlFields := firstOfEach ControlField.tag record.controlFields
    dataFields := firstOfEach DataField.tag record.dataFields }

variable (record : Record) (tag : String)

theorem controlWith_firsts : record.firsts.controlWith tag = (record.controlWith tag).take 1 :=
  filter_firstOfEach ControlField.tag tag record.controlFields

theorem dataWith_firsts : record.firsts.dataWith tag = (record.dataWith tag).take 1 :=
  filter_firstOfEach DataField.tag tag record.dataFields

theorem fieldTexts_firsts (codes : List Char) :
    record.firsts.fieldTexts tag codes <+: record.fieldTexts tag codes := by
  rw [fieldTexts, fieldTexts, controlWith_firsts, dataWith_firsts]
  split
  · split
    · exact (List.take_prefix 1 _).map _
    · exact List.prefix_rfl
  · exact (List.take_prefix 1 _).filterMap _

/-- The texts with positions that the first fields have come first among those of the record. -/
theorem positioned_firsts :
    (∃ first texts, record.firsts.positioned tag = .ok first ∧
        record.positioned tag = .ok texts ∧ first <+: texts) ∨
      record.firsts.positioned tag = record.positioned tag := by
  rw [positioned, positioned]
  by_cases hleader : tag = Expression.leaderTag
  · right
    rw [if_pos hleader, if_pos hleader]
    rfl
  · rw [if_neg hleader, if_neg hleader]
    by_cases hcontrol : isControlTag tag = true
    · left
      rw [if_pos hcontrol, if_pos hcontrol, controlWith_firsts]
      exact ⟨_, _, rfl, rfl, (List.take_prefix 1 _).map _⟩
    · right
      rw [if_neg hcontrol, if_neg hcontrol]

end Marc.Record

namespace Reading

variable (setting : Setting) (head : RuleHead) (record : Marc.Record)

/-! ### The first value of each token -/

/-- If the first fields have no value for the token, no other fields have one. -/
def FirstHasValue (token : Expression.Token) : Prop :=
  tokenValues setting head record.firsts token = .ok [] →
    tokenValues setting head record token = .ok []

instance (token : Expression.Token) : Decidable (FirstHasValue setting head record token) :=
  inferInstanceAs (Decidable (_ → _))

theorem head?_of_initial {values more : List String} (h : values <+: more)
    (hnil : values = [] → more = []) : values.head? = more.head? := by
  obtain ⟨rest, rfl⟩ := h
  cases values with
  | nil => rw [hnil rfl]
  | cons value others => rfl

theorem nonBlank_initial {texts more : List String} (h : texts <+: more) :
    nonBlank texts <+: nonBlank more := h.filter _

theorem head?_tokenValues_firsts (token : Expression.Token)
    (hfirst : FirstHasValue setting head record token) :
    (tokenValues setting head record.firsts token).map List.head?
      = (tokenValues setting head record token).map List.head? := by
  -- where both have values, those of the first fields come first
  have hheads (values more : List String)
      (hvalues : tokenValues setting head record.firsts token = .ok values)
      (hmore : tokenValues setting head record token = .ok more) (hinitial : values <+: more) :
      (tokenValues setting head record.firsts token).map List.head?
        = (tokenValues setting head record token).map List.head? := by
    rw [FirstHasValue, hvalues, hmore, Except.ok.injEq, Except.ok.injEq] at hfirst
    rw [hvalues, hmore]
    exact congrArg Except.ok (head?_of_initial hinitial hfirst)
  cases token with
  | remove => rfl
  | today => rfl
  | literal text => rfl
  | field tag codes =>
    have htexts := record.fieldTexts_firsts tag codes
    refine hheads _ _ rfl rfl (nonBlank_initial (List.IsPrefix.map _ ?_))
    split
    · exact htexts
    · exact htexts.map _
  | range tag start stop =>
    rcases record.positioned_firsts tag with ⟨first, texts, hpositioned, hall, hinitial⟩ | hsame
    · have hvalues := tokenValues_range setting head hpositioned start stop
      have hmore := tokenValues_range setting head hall start stop
      exact hheads _ _ hvalues hmore (nonBlank_initial ((hinitial.filterMap _).map _))
    · rw [tokenValues, hsame, tokenValues]

/-! ### What a clause yields -/

def heads (values : Option (List (List String))) : Option (List (Option String)) :=
  values.map (List.map List.head?)

theorem heads_clauseValues_cons (token : Expression.Token) (rest : Expression.Clause)
    (htoken : token ≠ .remove) :
    (clauseValues setting head record (token :: rest)).map heads
      = (tokenValues setting head record token).map List.head? >>= fun first =>
          ((clauseValues setting head record rest).map heads).map (Option.map (first :: ·)) := by
  rw [clauseValues]
  · cases tokenValues setting head record token with
    | error e => rfl
    | ok values =>
      cases clauseValues setting head record rest with
      | error e => rfl
      | ok others => cases others <;> rfl
  · exact htoken

def headsYield : Option (List (Option String)) → Yield
  | none => .removal
  | some firsts => .scalar (String.join (firsts.filterMap id))

theorem clauseYield_eq_headsYield (clause : Expression.Clause) :
    clauseYield setting false head record clause
      = ((clauseValues setting head record clause).map heads).map headsYield := by
  rw [clauseYield]
  cases clauseValues setting head record clause with
  | error e => rfl
  | ok values =>
    cases values with
    | none => rfl
    | some values =>
      have hheads : values.filterMap List.head? = (values.map List.head?).filterMap id := by
        rw [List.filterMap_map, Function.id_comp]
      exact congrArg (fun texts => Except.ok (Yield.scalar (String.join texts))) hheads

theorem heads_clauseValues_firsts (clause : Expression.Clause)
    (hfirst : ∀ token ∈ clause, FirstHasValue setting head record token) :
    (clauseValues setting head record.firsts clause).map heads
      = (clauseValues setting head record clause).map heads := by
  induction clause with
  | nil => rfl
  | cons token rest ih =>
    have hvalues := head?_tokenValues_firsts setting head record token
      (hfirst token List.mem_cons_self)
    have hrest := ih fun t ht => hfirst t (List.mem_cons_of_mem token ht)
    by_cases htoken : token = .remove
    · rw [htoken]
      rfl
    · rw [heads_clauseValues_cons setting head _ token rest htoken,
        heads_clauseValues_cons setting head _ token rest htoken, hvalues, hrest]

theorem clausesYield_firsts (clauses : List Expression.Clause)
    (hfirst : ∀ clause ∈ clauses, ∀ token ∈ clause, FirstHasValue setting head record token) :
    clausesYield setting false head record.firsts clauses
      = clausesYield setting false head record clauses := by
  induction clauses with
  | nil => rfl
  | cons clause rest ih =>
    rw [clausesYield, clausesYield,
      clauseYield_eq_headsYield, clauseYield_eq_headsYield,
      heads_clauseValues_firsts setting head record clause (hfirst clause List.mem_cons_self),
      ih fun c hc => hfirst c (List.mem_cons_of_mem clause hc)]

/-- A rule for a single text reads the same from the first fields of the record alone, as long as
no token of its expression has a value in a later field of a tag and none in the first one. -/
theorem single_text_reads_first_fields (rule : Rule) (hkind : rule.kind = .expression)
    (hmark : Path.isMarked rule.head.path = false)
    (hfirst : ∀ text e, rule.head.expression = some text → Expression.parse text = .ok e →
      ∀ clause ∈ e.clauses, ∀ token ∈ clause, FirstHasValue setting rule.head record token) :
    read setting rule record.firsts = read setting rule record := by
  rw [read, read, readRule_of_expression setting _ rule false hkind,
    readRule_of_expression setting _ rule false hkind, readExpression, readExpression]
  cases htext : rule.head.expression with
  | none => rfl
  | some text =>
    have hyield : expressionYield setting false rule.head record.firsts text
        = expressionYield setting false rule.head record text := by
      rw [expressionYield, expressionYield]
      cases hparse : Expression.parse text with
      | error e => rfl
      | ok e =>
        exact clausesYield_firsts setting rule.head record e.clauses (hfirst text e htext hparse)
    rw [hmark, Bool.or_false]
    simp only [hyield]

theorem copy_is_read_from_first_field :
    let setting : Setting := ⟨default, {}, fun _ => "2000-01-01"⟩
    let rule := Rule.ofExpression "item.note" "945$a 945$h; else 852$b"
    let record : Marc.Record := ⟨"", [],
      [⟨"945", ' ', ' ', [⟨'h', "MAIN"⟩, ⟨'a', "b1"⟩]⟩,
        ⟨"945", ' ', ' ', [⟨'a', "b2"⟩, ⟨'h', "ANNEX"⟩]⟩]⟩
    let firsts : Marc.Record := ⟨"", [], [⟨"945", ' ', ' ', [⟨'h', "MAIN"⟩, ⟨'a', "b1"⟩]⟩]⟩
    rule.kind = .expression ∧ Path.isMarked rule.head.path = false ∧
      (∀ text e, rule.head.expression = some text → Expression.parse text = .ok e →
        ∀ clause ∈ e.clauses, ∀ token ∈ clause, FirstHasValue setting rule.head record token) ∧
      record.firsts = firsts ∧ read setting rule record = .ok (.string "b1MAIN") ∧
      read setting rule record.firsts = read setting rule record := by
  intro setting rule record firsts
  have hkind : rule.kind = .expression := by decide +kernel
  have hmark : Path.isMarked rule.head.path = false := by decide +kernel
  have hfirst : ∀ text e, rule.head.expression = some text → Expression.parse text = .ok e →
      ∀ clause ∈ e.clauses, ∀ token ∈ clause, FirstHasValue setting rule.head record token := by
    intro text e htext hparse
    cases htext
    have hclauses : Expression.parse "945$a 945$h; else 852$b"
        = .ok ⟨[[.field "945" ['a'], .field "945" ['h']], [.field "852" ['b']]]⟩ := by
      decide +kernel
    cases hclauses.symm.trans hparse
    decide +kernel
  have hread : read setting rule record = .ok (.string "b1MAIN") := by
    unfold record rule setting
    with_unfolding_all rfl
  exact ⟨hkind, hmark, hfirst, by decide +kernel, hread,
    single_text_reads_first_fields setting record rule hkind hmark hfirst⟩

/-- The first field lacks one of the subfields, and the text is put together from both fields. -/
theorem missing_subfield_joins_two_fields :
    let setting : Setting := ⟨default, {}, fun _ => "2000-01-01"⟩
    let rule := Rule.ofExpression "item.note" "945$a 945$h"
    let first : Marc.DataField := ⟨"945", ' ', ' ', [⟨'h', "MAIN"⟩]⟩
    let second : Marc.DataField := ⟨"945", ' ', ' ', [⟨'a', "b2"⟩, ⟨'h', "ANNEX"⟩]⟩
    rule.kind = .expression ∧ Path.isMarked rule.head.path = false ∧
      Marc.Record.firsts ⟨"", [], [first, second]⟩ = ⟨"", [], [first]⟩ ∧
      read setting rule ⟨"", [], [first]⟩ = .ok (.string "MAIN") ∧
      read setting rule ⟨"", [], [first, second]⟩ = .ok (.string "b2MAIN") := by
  intro setting rule first second
  refine ⟨by decide +kernel, by decide +kernel, by decide +kernel, ?_, ?_⟩
  · unfold first rule setting
    with_unfolding_all rfl
  · unfold first second rule setting
    with_unfolding_all rfl

end Reading

end Crosswalk
