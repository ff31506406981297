import Crosswalk.Proofs.Faults
import Crosswalk.Proofs.Fields
import Crosswalk.Proofs.Language

/-!
# Fallback expressions

Two expressions with a separator between them are one expression: first come the
clauses of the one, then those of the other, whatever is quoted in them and even
where one of them is blank. A rule reads by it what it reads by the first one, and
where that is nothing what it reads by the second one. Errors that end a run end it
at the same place. An expression that comes to a range of positions in data fields
is passed over as a whole, and a fallback inside it with it; this is why the first
expression must have no such range.
-/

namespace Crosswalk

/-- The token is a range of positions in data fields, which have none. -/
def Expression.Token.isDataRange : Token → Bool
  | .range tag _ _ => !(tag = leaderTag || Marc.isControlTag tag)
  | _ => false

namespace Expression

def NoDataRange (e : Expression) : Prop :=
  ∀ clause ∈ e.clauses, ∀ token ∈ clause, token.isDataRange = false

instance (e : Expression) : Decidable e.NoDataRange :=
  inferInstanceAs (Decidable (∀ clause ∈ e.clauses, ∀ token ∈ clause, token.isDataRange = false))

/-! ### Joined texts -/

theorem intercalate_append {α : Type} (cut : List α) (front back : List (List α))
    (hfront : front ≠ []) (hback : back ≠ []) :
    List.intercalate cut (front ++ back)
      = List.intercalate cut front ++ cut ++ List.intercalate cut back := by
  induction front with
  | nil => exact absurd rfl hfront
  | cons first rest ih =>
    cases rest with
    | nil =>
      obtain ⟨next, others, rfl⟩ := List.exists_cons_of_ne_nil hback
      rw [List.singleton_append, List.intercalate_cons_cons, List.intercalate_singleton]
    | cons second others =>
      rw [List.cons_append, List.cons_append, List.intercalate_cons_cons,
        List.intercalate_cons_cons, ← List.cons_append, ih (List.cons_ne_nil _ _)]
      simp only [List.append_assoc]

theorem Spelled.append {front back : List Char} {e₁ e₂ : Expression} (h₁ : Spelled front e₁)
    (h₂ : Spelled back e₂) :
    Spelled (front ++ "; else ".toList ++ back) ⟨e₁.clauses ++ e₂.clauses⟩ := by
  obtain ⟨texts₁, hne₁, hclauses₁, rfl⟩ := h₁
  obtain ⟨texts₂, hne₂, hclauses₂, rfl⟩ := h₂
  refine ⟨texts₁ ++ texts₂, List.append_ne_nil_of_left_ne_nil hne₁ _, ?_, ?_⟩
  · exact List.rel_append hclauses₁ hclauses₂
  · exact (intercalate_append _ texts₁ texts₂ hne₁ hne₂).symm

theorem parse_append (first second : String) (e₁ e₂ : Expression) (h₁ : parse first = .ok e₁)
    (h₂ : parse second = .ok e₂) :
    parse (first ++ "; else " ++ second) = .ok ⟨e₁.clauses ++ e₂.clauses⟩ := by
  refine parse_of_spelled _ _ ?_
  rw [String.toList_append, String.toList_append]
  exact (spelled_of_parse first e₁ h₁).append (spelled_of_parse second e₂ h₂)

theorem parse_of_isBlankText (text : String) (h : Text.isBlankText text = true) :
    parse text = .ok ⟨[[]]⟩ := by
  refine parse_of_spelled text _ ⟨[text.toList], List.cons_ne_nil _ _, ?_, ?_⟩
  · exact List.Forall₂.cons (ClauseSpelled.done _ (List.all_eq_true.1 h)) List.Forall₂.nil
  · rw [List.intercalate_singleton]

end Expression

namespace Reading

/-! ### Clauses one after the other -/

section

variable (setting : Setting) (fan : Bool) (head : RuleHead) (record : Marc.Record)

theorem clausesYield_append (first second : List Expression.Clause) :
    clausesYield setting fan head record (first ++ second)
      = (do
          let yielded ← clausesYield setting fan head record first
          if yielded.isBlank then clausesYield setting fan head record second
          else .ok yielded) := by
  induction first with
  | nil => cases fan <;> rfl
  | cons clause rest ih =>
    rw [List.cons_append, clausesYield, clausesYield]
    cases clauseYield setting fan head record clause with
    | error e => rfl
    | ok yielded =>
      simp only [bind, Except.bind] at ih ⊢
      cases hblank : yielded.isBlank with
      | true => simp only [if_true, ih]
      | false => simp only [Bool.false_eq_true, if_false, hblank]

theorem fatal_of_tokenValues_error (token : Expression.Token) (e : Error)
    (htoken : token.isDataRange = false)
    (h : tokenValues setting head record token = .error e) : e.fatal = true := by
  have htoday (hdate : setting.localToday = .error e) : e.fatal = true := by
    rw [Error.fatal, kind_of_localToday_error setting e hdate]
    rfl
  cases token with
  | today => exact htoday ((map_eq_error_iff _ _ _).1 h)
  | range tag start stop =>
    -- Under any other tag the texts with positions are there, even if there are none of them.
    rw [Expression.Token.isDataRange, Bool.not_eq_false', Bool.or_eq_true, decide_eq_true_eq]
      at htoken
    rw [tokenValues, Marc.Record.positioned] at h
    by_cases hleader : tag = Expression.leaderTag
    · rw [if_pos hleader] at h
      cases h
    · rw [if_neg hleader, if_pos (htoken.resolve_left hleader)] at h
      cases h
  | _ => cases h

theorem fatal_of_clausesYield_error (expression : Expression) (e : Error)
    (hranges : expression.NoDataRange)
    (h : clausesYield setting fan head record expression.clauses = .error e) : e.fatal = true := by
  obtain ⟨clause, hclause, token, htoken, hvalues⟩ :=
    exists_token_of_clausesYield_error setting head record fan expression.clauses e h
  exact fatal_of_tokenValues_error setting head record token e (hranges clause hclause token htoken)
    hvalues

end

/-! ### Values -/

/-- What the first reading comes to, or the second one where the first comes to nothing. -/
def orElse (first second : Except Error Value) : Except Error Value :=
  match first with
  | .ok .missing => second
  | other => other

/-- The value that an evaluation comes to. Errors that do not end the run make it nothing. -/
def outcomeValue (policy : Policy) : Except Error Yield → Except Error Value
  | .ok yielded => .ok (yieldValue policy yielded)
  | .error e => if e.fatal then .error e else .ok .missing

theorem yieldValue_of_blank (policy : Policy) (yielded : Yield) (h : yielded.isBlank = true) :
    yieldValue policy yielded = .missing := by
  cases yielded with
  | removal => cases h
  | scalar text => exact if_pos h
  | items texts =>
    rw [List.isEmpty_iff.1 h]
    rfl

theorem yieldValue_ne_missing (policy : Policy) (yielded : Yield) (h : yielded.isBlank = false) :
    yieldValue policy yielded ≠ .missing := by
  cases yielded with
  | removal => exact Value.noConfusion
  | scalar text =>
    have htext : Text.isBlankText text = false := h
    rw [yieldValue, if_neg (ne_true_of_eq_false htext)]
    exact Value.noConfusion
  | items texts =>
    cases texts with
    | nil => cases h
    | cons first rest => exact Value.noConfusion

theorem orElse_of_ne_missing (value : Value) (second : Except Error Value) (h : value ≠ .missing) :
    orElse (.ok value) second = .ok value := by
  cases value with
  | missing => exact absurd rfl h
  | _ => rfl

/-- Going on after a blank yield is going on after a missing value, if every error that may come
first ends the run. -/
theorem outcomeValue_bind (policy : Policy) (first second : Except Error Yield)
    (hfatal : ∀ e, first = .error e → e.fatal = true) :
    outcomeValue policy (do
        let yielded ← first
        if yielded.isBlank then second else .ok yielded)
      = orElse (outcomeValue policy first) (outcomeValue policy second) := by
  cases first with
  | error e =>
    have hends : outcomeValue policy (.error e) = .error e := if_pos (hfatal e rfl)
    rw [hends]
    exact hends
  | ok yielded =>
    have hvalue : outcomeValue policy (.ok yielded) = .ok (yieldValue policy yielded) := rfl
    simp only [bind, Except.bind, hvalue]
    cases hblank : yielded.isBlank with
    | true => rw [if_pos rfl, yieldValue_of_blank policy yielded hblank, orElse]
    | false =>
      rw [if_neg Bool.false_ne_true, hvalue,
        orElse_of_ne_missing _ _ (yieldValue_ne_missing policy yielded hblank)]

end Reading

/-! ### Rules -/

def Rule.withExpression (text : String) (rule : Rule) : Rule :=
  ⟨{ rule.head with expression := some text }, rule.groups⟩

namespace Reading

variable (setting : Setting) (rule : Rule) (record : Marc.Record)

theorem readRule_withExpression (fan : Bool) (text : String) (e : Expression)
    (hgroups : rule.groups = []) (hbool : rule.head.boolAction = none)
    (hparse : Expression.parse text = .ok e) :
    readRule setting (rule.withExpression text) fan record
      = outcomeValue rule.head.policyOrDefault
          (clausesYield setting (fan || Path.isMarked rule.head.path) rule.head record
            e.clauses) := by
  obtain ⟨head, groups⟩ := rule
  simp only at hgroups hbool
  subst hgroups
  have hsettled : settled setting { head with expression := some text }
      = settled setting head := rfl
  have hyield := clausesYield_of_settled setting head record _ hsettled
    (fan || Path.isMarked head.path) e.clauses
  cases hblank : Text.isBlankText text with
  | true =>
    have hkind : Rule.kind ⟨{ head with expression := some text }, []⟩ = .empty := by
      simp [Rule.kind, RuleHead.hasExpression, hblank, hbool]
    have hempty := Expression.parse_of_isBlankText text hblank
    rw [hparse, Except.ok.injEq] at hempty
    rw [Rule.withExpression, readRule, hkind, hempty]
    cases fan || Path.isMarked head.path <;> rfl
  | false =>
    have hkind : Rule.kind ⟨{ head with expression := some text }, []⟩ = .expression := by
      simp [Rule.kind, RuleHead.hasExpression, hblank]
    rw [Rule.withExpression, readRule, hkind, ← hyield]
    simp only [readExpression, expressionYield, hparse, bind, Except.bind]
    cases clausesYield setting (fan || Path.isMarked head.path)
      { head with expression := some text } record e.clauses <;> rfl

/-- A rule with an expression and a fallback behind it reads what it reads by the expression alone,
be it an error, and where that is nothing it reads what it reads by the fallback alone. -/
theorem fallback_counts_where_nothing_is_read (first second : String) (e₁ e₂ : Expression)
    (hgroups : rule.groups = []) (hbool : rule.head.boolAction = none)
    (hfirst : Expression.parse first = .ok e₁) (hsecond : Expression.parse second = .ok e₂)
    (hranges : e₁.NoDataRange) :
    read setting (rule.withExpression (first ++ "; else " ++ second)) record
        = orElse (read setting (rule.withExpression first) record)
            (read setting (rule.withExpression second) record) ∧
      readAll setting (rule.withExpression (first ++ "; else " ++ second)) record
        = orElse (readAll setting (rule.withExpression first) record)
            (readAll setting (rule.withExpression second) record) := by
  have hboth := Expression.parse_append first second e₁ e₂ hfirst hsecond
  have hread (fan : Bool) :
      readRule setting (rule.withExpression (first ++ "; else " ++ second)) fan record
        = orElse (readRule setting (rule.withExpression first) fan record)
            (readRule setting (rule.withExpression second) fan record) := by
    rw [readRule_withExpression setting rule record fan _ _ hgroups hbool hboth,
      readRule_withExpression setting rule record fan first e₁ hgroups hbool hfirst,
      readRule_withExpression setting rule record fan second e₂ hgroups hbool hsecond,
      clausesYield_append]
    exact outcomeValue_bind _ _ _ fun e =>
      fatal_of_clausesYield_error setting _ rule.head record e₁ e hranges
  exact ⟨hread false, hread true⟩

/-- The first expression has two clauses and comes to nothing; the fallback has a separator in a
literal. -/
theorem barcode_is_read_by_fallback :
    let setting : Setting := ⟨default, {}, fun _ => "2000-01-01"⟩
    let rule : Rule := ⟨{ path := "item.barcode" }, []⟩
    let first := "852$p 008/5; else \"\" "
    let second := "945$a \"; else \"; else LDR/1"
    let e₁ : Expression := ⟨[[.field "852" ['p'], .range "008" 4 5], [.literal ""]]⟩
    let e₂ : Expression := ⟨[[.field "945" ['a'], .literal "; else "], [.range "LDR" 0 1]]⟩
    let record : Marc.Record := ⟨"n", [⟨"008", "1999"⟩],
      [⟨"945", ' ', ' ', [⟨'a', "b1"⟩]⟩, ⟨"945", ' ', ' ', [⟨'a', "b2"⟩]⟩]⟩
    let both := rule.withExpression (first ++ "; else " ++ second)
    rule.groups = [] ∧ rule.head.boolAction = none ∧ Expression.parse first = .ok e₁ ∧
      Expression.parse second = .ok e₂ ∧ e₁.NoDataRange ∧
      read setting (rule.withExpression first) record = .ok .missing ∧
      read setting both record = .ok (.string "b1; else ") ∧
      readAll setting both record = .ok (.list ["b1", "b2", "; else "] .extendExisting) := by
  intro setting rule first second e₁ e₂ record both
  have hfirst : Expression.parse first = .ok e₁ := by decide +kernel
  have hsecond : Expression.parse second = .ok e₂ := by decide +kernel
  have hranges : e₁.NoDataRange := by decide +kernel
  have hnothing (fan : Bool) :
      readRule setting (rule.withExpression first) fan record = .ok .missing := by
    unfold record rule setting first
    cases fan <;> with_unfolding_all rfl
  obtain ⟨hread, hreadAll⟩ := fallback_counts_where_nothing_is_read setting rule record first second
    e₁ e₂ rfl rfl hfirst hsecond hranges
  rw [read, read, hnothing] at hread
  rw [readAll, readAll, hnothing] at hreadAll
  refine ⟨rfl, rfl, hfirst, hsecond, hranges, hnothing false, ?_, ?_⟩
  · refine hread.trans ?_
    unfold record rule setting second
    with_unfolding_all rfl
  · refine hreadAll.trans ?_
    unfold record rule setting second
    with_unfolding_all rfl

end Reading

end Crosswalk
