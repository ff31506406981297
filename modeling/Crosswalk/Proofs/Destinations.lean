import Crosswalk.Mapping
import Crosswalk.Proofs.Faults
import Crosswalk.Proofs.Fields
import Crosswalk.Proofs.Trimming
import Crosswalk.Proofs.Walk

/-!
# Values and their destinations

Whether a rule with an expression reads a single text or a list is decided by the
end of its path as it is written; whether the destination takes a single text or a
list is decided by the path that is read from that text, white space around it
apart. The two agree unless the path has an array mark with white space behind it,
and where they agree an empty document takes whatever such a rule reads.
-/

namespace Crosswalk

/-- The destination is of the sort that the value is meant for. -/
def Value.Suits (p : Path) : Value → Prop
  | .missing | .removal _ => True
  | .string _ => p.isArray = false
  | .list .. => p.isArray = true
  | .bool _ | .repeatable .. => False

namespace Reading

variable (setting : Setting) (head : RuleHead) (record : Marc.Record)

/-! ### What expressions yield -/

/-- A single text is yielded without `fan` only, and a list with `fan` only. -/
def Yield.Fits (fan : Bool) : Yield → Prop
  | .removal => True
  | .scalar _ => fan = false
  | .items _ => fan = true

theorem fits_choice (fan : Bool) (texts : List String) (text : String) :
    Yield.Fits fan (if fan then .items texts else .scalar text) := by
  cases fan <;> rfl

theorem fits_of_clauseYield (fan : Bool) (clause : Expression.Clause) (yielded : Yield)
    (h : clauseYield setting fan head record clause = .ok yielded) : yielded.Fits fan := by
  rcases clauseYield_cases setting head record fan clause yielded h with
    ⟨-, rfl⟩ | ⟨values, -, rfl⟩
  · trivial
  · exact fits_choice fan _ _

theorem fits_of_clausesYield (fan : Bool) (clauses : List Expression.Clause) (yielded : Yield)
    (h : clausesYield setting fan head record clauses = .ok yielded) : yielded.Fits fan := by
  rcases clausesYield_cases setting head record fan clauses yielded h with
    rfl | ⟨clause, -, hyield⟩
  · exact fits_choice fan _ _
  · exact fits_of_clauseYield setting head record fan clause yielded hyield

theorem suits_yieldValue (policy : Policy) (yielded : Yield) (p : Path)
    (h : yielded.Fits p.isArray) : (yieldValue policy yielded).Suits p := by
  cases yielded with
  | removal => trivial
  | scalar text =>
    rw [yieldValue]
    split
    · trivial
    · exact h
  | items texts =>
    cases texts with
    | nil => trivial
    | cons first rest => exact h

theorem suits_of_readExpression (fan : Bool) (p : Path) (value : Value)
    (hfan : (fan || Path.isMarked head.path) = p.isArray)
    (h : readExpression setting fan head record = .ok value) : value.Suits p := by
  rcases exists_yield_of_readExpression setting head record fan value h with
    rfl | ⟨text, expression, yielded, -, -, hclauses, rfl⟩
  · trivial
  · rw [hfan] at hclauses
    exact suits_yieldValue _ yielded p
      (fits_of_clausesYield setting head record _ _ yielded hclauses)

theorem isMarked_eq_isArray (text : String) (p : Path) (hp : Path.parse text = .ok p)
    (hend : p.isArray = true → ¬ Text.EndsBlank text.toList) :
    Path.isMarked text = p.isArray := by
  rw [Bool.eq_iff_iff, Path.isMarked_of_parse text p hp]
  exact and_iff_left_of_imp hend

theorem suits_of_read (rule : Rule) (p : Path) (value : Value) (hkind : rule.kind = .expression)
    (hp : Path.parse rule.head.path = .ok p)
    (hend : p.isArray = true → ¬ Text.EndsBlank rule.head.path.toList)
    (h : read setting rule record = .ok value) : value.Suits p := by
  rw [read, readRule_of_expression setting record rule false hkind] at h
  exact suits_of_readExpression setting rule.head record false p value
    (isMarked_eq_isArray _ p hp hend) h

end Reading

/-! ### Writing into an empty document -/

namespace Document

theorem at?_keys_empty (p : Path) : Json.at? p.keys (.obj []) = none := by
  rw [Path.keys]
  cases p.parents <;> rfl

theorem failure?_changeAt_empty (shown : String) (keys : List String)
    (change : List (String × Json) → List (String × Json)) :
    (changeAt shown keys change (.obj [])).failure? = none := by
  simp only [changeAt, storage?, changeWithin_nil_members, Option.map_none]

theorem failure?_mergeArray_empty (target : Path) (shown : String) (policy : Policy)
    (incoming : List Json) :
    (mergeArray target shown policy incoming (.obj [])).failure? = none := by
  cases policy with
  | extendExisting =>
    rw [mergeArray]
    split
    · rfl
    · exact failure?_changeAt_empty shown _ _
  | exchangeExisting =>
    rw [mergeArray]
    split
    · rfl
    · exact failure?_changeAt_empty shown _ _
  | deleteExisting => rfl
  | deleteIncoming => rw [mergeArray, at?_keys_empty]

theorem failure?_write_empty (shown : String) (p : Path) (value : Value) (policy : Option Policy)
    (hp : Path.parse shown = .ok p) (h : value.Suits p) :
    (write shown value policy (.obj [])).failure? = none := by
  rw [write, hp]
  cases value with
  | missing => rfl
  | removal text => rfl
  | string text =>
    have hscalar : p.isArray = false := h
    simp only [content, store, hscalar, Bool.false_eq_true, if_false]
    exact failure?_changeAt_empty shown _ _
  | list items listPolicy =>
    have harray : p.isArray = true := h
    simp only [content, store, harray, not_true, if_false, at?_keys_empty]
    exact failure?_mergeArray_empty p shown _ _
  | bool flag => exact h.elim
  | repeatable items itemsPolicy root => exact h.elim

end Document

/-! ### Mapping with one rule -/

namespace Mapping

theorem map_single_rule (setting : Setting) (entity : Entity) (rule : Rule)
    (record : Marc.Record) (document : Json) (hentity : entity ≠ .holdings) :
    map setting entity ⟨some [rule]⟩ record document
      = (applyRule setting record (Document.start document) rule).map fun after =>
          ⟨[after], []⟩ := by
  have happly : applyRules setting record [rule] (Document.start document)
      = applyRule setting record (Document.start document) rule := by
    rw [applyRules, List.foldlM_cons]
    cases applyRule setting record (Document.start document) rule <;> rfl
  rw [map_of_ne_holdings setting entity [rule] record document hentity, happly]

theorem kind_of_applyRule_empty_error (setting : Setting) (record : Marc.Record) (rule : Rule)
    (p : Path) (e : Error) (hkind : rule.kind = .expression)
    (hp : Path.parse rule.head.path = .ok p)
    (hend : p.isArray = true → ¬ Text.EndsBlank rule.head.path.toList)
    (h : applyRule setting record (.obj []) rule = .error e) : e.kind = .zone := by
  rw [applyRule] at h
  split at h
  · rcases (bind_eq_error_iff _ _ _).1 h with hread | ⟨value, hread, hwrite⟩
    · rw [Reading.read, Reading.readRule_of_expression setting record rule false hkind] at hread
      exact Reading.kind_of_readExpression_error setting rule.head record false e hread
    · have hsuits := Reading.suits_of_read setting record rule p value hkind hp hend hread
      rw [writeValue] at hwrite
      split at hwrite
      · cases hwrite
      · simp only [Document.failure?_write_empty rule.head.path p value _ hp hsuits] at hwrite
        cases hwrite
  · cases h

/-- A rule with an expression reads a value that its destination takes, so that mapping an empty
document with that rule meets no value of a wrong type, as long as an array mark at the end of the
path has no white space behind it. -/
theorem expression_suits_destination (setting : Setting) (rule : Rule) (record : Marc.Record)
    (p : Path) (hkind : rule.kind = .expression) (hp : Path.parse rule.head.path = .ok p)
    (hend : p.isArray = true → ¬ Text.EndsBlank rule.head.path.toList) :
    (∀ value, Reading.read setting rule record = .ok value → value.Suits p) ∧
      ∀ entity e, entity ≠ .holdings →
        map setting entity ⟨some [rule]⟩ record .null = .error e → e.kind ≠ .typeMismatch := by
  refine ⟨fun value => Reading.suits_of_read setting record rule p value hkind hp hend, ?_⟩
  intro entity e hentity h
  rw [map_single_rule setting entity rule record .null hentity, map_eq_error_iff] at h
  rw [kind_of_applyRule_empty_error setting record rule p e hkind hp hend h]
  decide

theorem notes_suit_their_path :
    let setting : Setting := ⟨default, {}, fun _ => "2000-01-01"⟩
    let rule := Rule.ofExpression " instance.notes[]" "501$a; else 500$a"
    let p : Path := ⟨["instance"], "notes", true⟩
    let record : Marc.Record := ⟨"", [],
      [⟨"500", ' ', ' ', [⟨'a', "n"⟩]⟩, ⟨"500", ' ', ' ', [⟨'a', "m"⟩]⟩]⟩
    rule.kind = .expression ∧ Path.parse rule.head.path = .ok p ∧
      ¬ Text.EndsBlank rule.head.path.toList ∧
      Reading.read setting rule record = .ok (.list ["n", "m"] .extendExisting) ∧
      Value.Suits p (.list ["n", "m"] .extendExisting) ∧
      (∀ entity e, entity ≠ .holdings →
        map setting entity ⟨some [rule]⟩ record .null = .error e → e.kind ≠ .typeMismatch) := by
  intro setting rule p record
  have hkind : rule.kind = .expression := by decide +kernel
  have hp : Path.parse rule.head.path = .ok p := by decide +kernel
  have hend : ¬ Text.EndsBlank rule.head.path.toList := by
    rintro ⟨c, hlast, hblank⟩
    have hbracket : rule.head.path.toList.getLast? = some ']' := by decide +kernel
    rw [hbracket] at hlast
    cases hlast
    exact absurd hblank (by decide)
  have hread : Reading.read setting rule record = .ok (.list ["n", "m"] .extendExisting) := by
    unfold record rule setting
    with_unfolding_all rfl
  have hagree := expression_suits_destination setting rule record p hkind hp fun _ => hend
  exact ⟨hkind, hp, hend, hread, hagree.1 _ hread, hagree.2⟩

/-- With white space behind the mark the rule reads a single text for the path of an array, and the
mapping ends in an error about types. -/
theorem blank_behind_mark_breaks_agreement :
    let setting : Setting := ⟨default, {}, fun _ => "2000-01-01"⟩
    let rule := Rule.ofExpression "instance.notes[] " "500$a"
    let p : Path := ⟨["instance"], "notes", true⟩
    let record : Marc.Record := ⟨"", [], [⟨"500", ' ', ' ', [⟨'a', "n"⟩]⟩]⟩
    rule.kind = .expression ∧ Path.parse rule.head.path = .ok p ∧
      Reading.read setting rule record = .ok (.string "n") ∧ ¬ Value.Suits p (.string "n") ∧
      map setting .resource ⟨some [rule]⟩ record .null
        = .error (.scalarToArray "instance.notes[] ") ∧
      (Error.scalarToArray "instance.notes[] ").kind = .typeMismatch := by
  intro setting rule p record
  have hkind : rule.kind = .expression := by decide +kernel
  have hp : Path.parse rule.head.path = .ok p := by decide +kernel
  have hread : Reading.read setting rule record = .ok (.string "n") := by
    unfold record rule setting
    with_unfolding_all rfl
  have hmap : map setting .resource ⟨some [rule]⟩ record .null
      = .error (.scalarToArray "instance.notes[] ") := by
    unfold record rule setting
    with_unfolding_all rfl
  exact ⟨hkind, hp, hread, Bool.noConfusion, hmap, rfl⟩

end Mapping

end Crosswalk
