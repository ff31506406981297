import Crosswalk.Reading.Rule
import Crosswalk.Proofs.Success

/-!
# What can go wrong with an expression

An expression that cannot be read fails with an error about expressions, and so
does the evaluation of one, unless it asks for the current date in a zone that is
not known. Since errors about expressions make a rule read nothing, that zone is
the one thing for which reading a rule with an expression fails.
-/

namespace Crosswalk

namespace Expression

theorem kind_of_position_error (token : String) (n : Nat) (digits : List Char) (e : Error)
    (h : position token n digits = .error e) : e.kind = .expression := by
  induction digits generalizing n with
  | nil => cases h
  | cons c rest ih =>
    simp only [position] at h
    split at h
    · cases h
      rfl
    · split at h
      · exact ih _ h
      · cases h
        rfl

theorem kind_of_rangeToken_error (token tag : String) (first last : Nat) (e : Error)
    (h : rangeToken token tag first last = .error e) : e.kind = .expression := by
  rw [rangeToken] at h
  split at h
  · cases h
    rfl
  · cases h

theorem kind_of_classify_error (cs : List Char) (e : Error) (h : classify cs = .error e) :
    e.kind = .expression := by
  simp only [classify] at h
  split at h
  · cases h
  · split at h
    · cases h
    · split at h
      · cases h
        rfl
      · split at h
        · split at h <;> cases h
          rfl
        · split at h
          · cases h
          · rcases (bind_eq_error_iff _ _ _).1 h with hfirst | ⟨first, -, hrest⟩
            · exact kind_of_position_error _ _ _ e hfirst
            · split at hrest
              · exact kind_of_rangeToken_error _ _ _ _ e hrest
              · rcases (bind_eq_error_iff _ _ _).1 hrest with hlast | ⟨last, -, hrange⟩
                · exact kind_of_position_error _ _ _ e hlast
                · exact kind_of_rangeToken_error _ _ _ _ e hrange
          · cases h
            rfl

theorem kind_of_parse_error (text : String) (e : Error) (h : parse text = .error e) :
    e.kind = .expression := by
  simp only [parse] at h
  split at h
  · cases h
    rfl
  · rcases (bind_eq_error_iff _ _ _).1 h with hclauses | ⟨clauses, -, hnone⟩
    · obtain ⟨clause, -, hclause⟩ := exists_of_mapM_eq_error _ _ e hclauses
      obtain ⟨token, -, htoken⟩ := exists_of_mapM_eq_error _ _ e hclause
      exact kind_of_classify_error token e htoken
    · cases hnone

end Expression

namespace Reading

variable (setting : Setting) (head : RuleHead) (record : Marc.Record)

theorem kind_of_zone_error (parameters : Parameters) (e : Error)
    (h : parameters.zone = .error e) : e.kind = .zone := by
  rw [Parameters.zone] at h
  unfold Zone.ofName at h
  split at h
  · cases h
  · dsimp only at h
    split at h
    · cases h
    · split at h
      · cases h
      · cases h
        rfl

theorem kind_of_localToday_error (e : Error) (h : setting.localToday = .error e) :
    e.kind = .zone := by
  rw [Setting.localToday, map_eq_error_iff] at h
  exact kind_of_zone_error setting.parameters e h

/-- An error of an evaluation is about the expression, or it is that there is no current date. -/
def Ends (e : Error) : Prop := e.kind = .expression ∨ setting.localToday = .error e

theorem ends_of_tokenValues_error (token : Expression.Token) (e : Error)
    (h : tokenValues setting head record token = .error e) : Ends setting e := by
  cases token with
  | remove => cases h
  | today =>
    right
    exact (map_eq_error_iff _ _ _).1 h
  | literal text => cases h
  | field tag codes => cases h
  | range tag start stop =>
    left
    rw [tokenValues, bind_eq_error_iff] at h
    rcases h with htexts | ⟨texts, -, hnone⟩
    · rw [Marc.Record.positioned] at htexts
      split at htexts
      · cases htexts
      · split at htexts
        · cases htexts
        · cases htexts
          rfl
    · cases hnone

theorem exists_token_of_clauseValues_error (clause : Expression.Clause) (e : Error)
    (h : clauseValues setting head record clause = .error e) :
    ∃ token ∈ clause, tokenValues setting head record token = .error e := by
  induction clause with
  | nil => cases h
  | cons token rest ih =>
    cases token with
    | remove => cases h
    | _ =>
      rcases (bind_eq_error_iff _ _ _).1 h with hvalues | ⟨values, -, hothers⟩
      · exact ⟨_, List.mem_cons_self, hvalues⟩
      · rcases (bind_eq_error_iff _ _ _).1 hothers with hrest | ⟨others, -, hnone⟩
        · obtain ⟨token, htoken, hvalues⟩ := ih hrest
          exact ⟨token, List.mem_cons_of_mem _ htoken, hvalues⟩
        · cases hnone

theorem exists_token_of_clausesYield_error (fan : Bool) (clauses : List Expression.Clause) (e : Error)
    (h : clausesYield setting fan head record clauses = .error e) :
    ∃ clause ∈ clauses, ∃ token ∈ clause, tokenValues setting head record token = .error e := by
  induction clauses with
  | nil => cases h
  | cons clause rest ih =>
    rw [clausesYield, bind_eq_error_iff] at h
    rcases h with hyield | ⟨yielded, -, hnext⟩
    · rw [clauseYield, bind_eq_error_iff] at hyield
      rcases hyield with hvalues | ⟨values, -, hnone⟩
      · exact ⟨clause, List.mem_cons_self,
          exists_token_of_clauseValues_error setting head record clause e hvalues⟩
      · cases values <;> cases hnone
    · split at hnext
      · obtain ⟨other, hother, htoken⟩ := ih hnext
        exact ⟨other, List.mem_cons_of_mem clause hother, htoken⟩
      · cases hnext

theorem localToday_of_readExpression_error (fan : Bool) (e : Error)
    (h : readExpression setting fan head record = .error e) : setting.localToday = .error e := by
  rw [readExpression] at h
  split at h
  · cases h
  · split at h
    · cases h
    · rename_i fault hfault
      split at h
      · rename_i hfatal
        cases h
        rw [expressionYield, bind_eq_error_iff] at hfault
        have hends : Ends setting e := by
          rcases hfault with hparse | ⟨expression, -, hclauses⟩
          · exact Or.inl (Expression.kind_of_parse_error _ e hparse)
          · obtain ⟨_, -, token, -, htoken⟩ :=
              exists_token_of_clausesYield_error setting head record _ _ e hclauses
            exact ends_of_tokenValues_error setting head record token e htoken
        refine hends.resolve_left fun hexpression => ?_
        rw [Error.fatal, hexpression] at hfatal
        cases hfatal
      · cases h

theorem kind_of_readExpression_error (fan : Bool) (e : Error)
    (h : readExpression setting fan head record = .error e) : e.kind = .zone :=
  kind_of_localToday_error setting e
    (localToday_of_readExpression_error setting head record fan e h)

end Reading

end Crosswalk
