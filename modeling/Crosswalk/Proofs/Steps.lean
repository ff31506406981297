import Crosswalk.Mapping
import Crosswalk.Proofs.Success

/-!
# What a rule does to a document

A write either leaves a document or ends in an error, and so does the application of
a rule. What a rule reads does not depend on the document that it writes into, so a
rule does one of three things to all documents: it fails on each of them with the
same error, it keeps each of them, or it stores the same content at the same place.
-/

namespace Crosswalk

/-- The document that a write leaves, or the error in which it ends. -/
def Written.outcome (written : Written) : Except Error Json :=
  match written.failure? with
  | some e => .error e
  | none => .ok written.document

theorem Written.outcome_eq_ok_iff (written : Written) (document : Json) :
    written.outcome = .ok document ↔ written = ⟨document, none⟩ := by
  obtain ⟨result, failure?⟩ := written
  cases failure? <;> simp [outcome]

theorem Written.outcome_eq_error_iff (written : Written) (e : Error) :
    written.outcome = .error e ↔ written.failure? = some e := by
  obtain ⟨result, failure?⟩ := written
  cases failure? <;> simp [outcome]

namespace Document

theorem builtOn_cons (document : Json) (key : String) (value : Value) (rest : Item) :
    builtOn document ((key, value) :: rest)
      = (do
          let target ← Path.parse key
          let amount ← content value
          let next ← (store target key none document amount).outcome
          builtOn next rest) := by
  rw [builtOn]
  cases Path.parse key with
  | error e => rfl
  | ok target =>
    cases content value with
    | error e => rfl
    | ok amount =>
      simp only [bind, Except.bind, Written.outcome]
      cases (store target key none document amount).failure? <;> rfl

theorem outcome_write (path : String) (value : Value) (policy : Option Policy)
    (document : Json) :
    (write path value policy document).outcome
      = (do
          let target ← Path.parse path
          let amount ← content value
          (store target path policy document amount).outcome) := by
  rw [write]
  cases Path.parse path with
  | error e => rfl
  | ok target => cases content value <;> rfl

end Document

namespace Mapping

theorem writeValue_eq (head : RuleHead) (value : Value) (document : Json) :
    writeValue head value document
      = if value.isMissing then .ok document
        else (Document.write head.path value (if value.isArray then head.policy else none)
          document).outcome := rfl

theorem stamp_eq (entity : Entity) (field value : String) (document : Json) :
    stamp entity field value document
      = (Document.write (entity.rootKey ++ "." ++ field) (.string value) none document).outcome :=
  rfl

theorem applyRule_of_disabled (setting : Setting) (record : Marc.Record) (document : Json)
    (rule : Rule) (h : rule.head.enabled = false) :
    applyRule setting record document rule = .ok document := by
  simp [applyRule, h]

theorem applyRule_of_enabled (setting : Setting) (record : Marc.Record) (document : Json)
    (rule : Rule) (h : rule.head.enabled = true) :
    applyRule setting record document rule
      = Reading.read setting rule record >>= fun value => writeValue rule.head value document := by
  simp [applyRule, h]

/-- The rule reads a value that is not missing, and it stores the content of that value at its
destination. -/
structure Stores (setting : Setting) (record : Marc.Record) (rule : Rule) (value : Value)
    (target : Path) (amount : Document.Content) : Prop where
  read : Reading.read setting rule record = .ok value
  not_missing : value.isMissing = false
  path : Path.parse rule.head.path = .ok target
  content : Document.content value = .ok amount
  apply : ∀ document, applyRule setting record document rule
    = (Document.store target rule.head.path (if value.isArray then rule.head.policy else none)
        document amount).outcome

/-- The three things that a rule can do. -/
theorem applyRule_cases (setting : Setting) (record : Marc.Record) (rule : Rule) :
    (∃ e, ∀ document, applyRule setting record document rule = .error e) ∨
      (∀ document, applyRule setting record document rule = .ok document) ∨
      ∃ value target amount, Stores setting record rule value target amount := by
  cases henabled : rule.head.enabled with
  | false => exact Or.inr (Or.inl fun document => applyRule_of_disabled _ _ document rule henabled)
  | true =>
    have happly := fun document => applyRule_of_enabled setting record document rule henabled
    cases hread : Reading.read setting rule record with
    | error e =>
      refine Or.inl ⟨e, fun document => ?_⟩
      rw [happly, hread]
      rfl
    | ok value =>
      have hwrite : ∀ document, applyRule setting record document rule
          = writeValue rule.head value document := by
        intro document
        rw [happly, hread]
        rfl
      cases hmissing : value.isMissing with
      | true =>
        refine Or.inr (Or.inl fun document => ?_)
        rw [hwrite, writeValue_eq, hmissing, if_pos rfl]
      | false =>
        have houtcome : ∀ document, applyRule setting record document rule
            = (do
                let target ← Path.parse rule.head.path
                let amount ← Document.content value
                (Document.store target rule.head.path
                  (if value.isArray then rule.head.policy else none) document amount).outcome) := by
          intro document
          rw [hwrite, writeValue_eq, hmissing, if_neg Bool.false_ne_true, Document.outcome_write]
        cases hpath : Path.parse rule.head.path with
        | error e =>
          refine Or.inl ⟨e, fun document => ?_⟩
          rw [houtcome, hpath]
          rfl
        | ok target =>
          cases hcontent : Document.content value with
          | error e =>
            refine Or.inl ⟨e, fun document => ?_⟩
            rw [houtcome, hpath, hcontent]
            rfl
          | ok amount =>
            refine Or.inr (Or.inr ⟨value, target, amount, hread, hmissing, hpath, hcontent, ?_⟩)
            intro document
            rw [houtcome, hpath, hcontent]
            rfl

end Mapping

end Crosswalk
