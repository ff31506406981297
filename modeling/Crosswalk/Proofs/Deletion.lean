import Crosswalk.Proofs.Destinations
import Crosswalk.Proofs.Fields
import Crosswalk.Proofs.Frame
import Crosswalk.Proofs.Merging
import Crosswalk.Proofs.Steps

/-!
# Rules that delete an array

A rule with the policy of deletion is evaluated by its groups if it has any, or if it
has no expression. Whatever is read then, nothing at all included, the array at its
path goes, the object around the array goes too if it is left empty, and everything
else stays. A blank expression means nothing to other rules, but here it counts as
one: without groups such a rule has nothing to evaluate and deletes nothing.
-/

namespace Crosswalk

theorem Rule.kind_of_deleting (rule : Rule) (hpolicy : rule.head.policy = some .deleteExisting)
    (h : rule.head.expression = none ∨ rule.groups ≠ []) : rule.kind = .repeatable := by
  rw [Rule.kind, hpolicy]
  cases hgroups : rule.groups with
  | cons group rest => rfl
  | nil =>
    rw [h.resolve_right (not_not.2 hgroups)]
    rfl

theorem Rule.kind_of_blank (rule : Rule) (hgroups : rule.groups = [])
    (hexpression : rule.head.expression ≠ none) (hblank : rule.head.hasExpression = false)
    (hbool : rule.head.boolAction = none) : rule.kind = .empty := by
  obtain ⟨text, htext⟩ := Option.ne_none_iff_exists'.1 hexpression
  rw [Rule.kind, hgroups, hblank, hbool, htext]
  simp

namespace Document

/-- Writing with the policy of deletion removes the array, whatever would have been written. -/
theorem write_deleting (path : String) (target : Path) (value : Value) (document : Json)
    (hpath : Path.parse path = .ok target) (harray : value.isArray = true)
    (h : (write path value (some .deleteExisting) document).failure? = none) :
    write path value (some .deleteExisting) document = ⟨removeArray target document, none⟩ := by
  cases hcontent : content value with
  | error e => simp only [write, hpath, hcontent, reduceCtorEq] at h
  | ok amount =>
    obtain ⟨kind, elements, rfl, -⟩ := content_of_isArray value amount harray hcontent
    simp only [write, hpath, hcontent] at h ⊢
    exact store_elements target path _ document kind elements
      (isArray_of_store_elements target path _ document kind elements h)
      (holdsArray_of_store_elements target path _ document kind elements h)

end Document

namespace Mapping

variable (setting : Setting) (record : Marc.Record) (rule : Rule)

theorem exists_items_of_read (value : Value) (hkind : rule.kind = .repeatable)
    (hpolicy : rule.head.policy = some .deleteExisting)
    (h : Reading.read setting rule record = .ok value) :
    ∃ items, value = .repeatable items .deleteExisting rule.head.path := by
  rw [Reading.read, Reading.readRule_eq_inOrder setting rule false record hkind] at h
  obtain ⟨items, -, rfl⟩ := (map_eq_ok_iff _ _ _).1 h
  have hdefault := rule.head.policyOrDefault_of_policy .deleteExisting hpolicy
  refine ⟨items, ?_⟩
  rw [Reading.itemsValue, hdefault, bne_self_eq_false, Bool.and_false, if_neg Bool.false_ne_true]

theorem applyRule_of_deleting (target : Path) (document after : Json)
    (henabled : rule.head.enabled = true) (hkind : rule.kind = .repeatable)
    (hpolicy : rule.head.policy = some .deleteExisting)
    (hpath : Path.parse rule.head.path = .ok target)
    (h : applyRule setting record document rule = .ok after) :
    after = Document.removeArray target document := by
  rw [applyRule_of_enabled setting record document rule henabled] at h
  obtain ⟨value, hread, hwrite⟩ := (bind_eq_ok_iff _ _ _).1 h
  obtain ⟨items, rfl⟩ := exists_items_of_read setting record rule value hkind hpolicy hread
  have houtcome : (Document.write rule.head.path
      (.repeatable items .deleteExisting rule.head.path) (some .deleteExisting) document).outcome
        = .ok after := by
    rw [← hpolicy]
    exact hwrite
  rw [Written.outcome_eq_ok_iff] at houtcome
  have hremoved := Document.write_deleting rule.head.path target _ document hpath rfl
    (congrArg Written.failure? houtcome)
  rw [houtcome] at hremoved
  exact congrArg Written.document hremoved

theorem applyRule_of_empty (document : Json) (hkind : rule.kind = .empty) :
    applyRule setting record document rule = .ok document := by
  have hread : Reading.read setting rule record = .ok .missing := by
    obtain ⟨head, groups⟩ := rule
    rw [Reading.read, Reading.readRule, hkind]
  rw [applyRule]
  split
  · rw [hread]
    rfl
  · rfl

/-- A rule with the policy of deletion takes the array at its path away, its parent too if that is
left empty, and nothing else, whatever its groups read; it does so if it has groups or no
expression. With a blank expression in place of groups it leaves the document as it is. -/
theorem deleting_rule_removes_array (entity : Entity) (document : Json) (mapped : Mapped)
    (target : Path) (hentity : entity ≠ .holdings) (henabled : rule.head.enabled = true)
    (hpolicy : rule.head.policy = some .deleteExisting) (hbool : rule.head.boolAction = none)
    (hblank : rule.head.hasExpression = false) (hpath : Path.parse rule.head.path = .ok target)
    (hmap : map setting entity ⟨some [rule]⟩ record document = .ok mapped) :
    ∃ after, mapped = ⟨[after], []⟩ ∧
      (rule.head.expression = none ∨ rule.groups ≠ [] →
        Document.Removed target (Document.start document) after ∧
          Document.Framed [target.keys] (Document.start document) after) ∧
      (rule.head.expression ≠ none ∧ rule.groups = [] → after = Document.start document) := by
  rw [map_single_rule setting entity rule record document hentity] at hmap
  obtain ⟨after, happly, rfl⟩ := (map_eq_ok_iff _ _ _).1 hmap
  refine ⟨after, rfl, fun h => ?_, fun ⟨hexpression, hgroups⟩ => ?_⟩
  · rw [applyRule_of_deleting setting record rule target _ after henabled
      (rule.kind_of_deleting hpolicy h) hpolicy hpath happly]
    exact ⟨Document.removed_removeArray target _, Document.framed_removeArray target _⟩
  · have hkind := rule.kind_of_blank hgroups hexpression hblank hbool
    rw [applyRule_of_empty setting record rule _ hkind] at happly
    exact (Except.ok.inj happly).symm

/-- No item comes of the group, as the field that it requires is not there; the array goes and takes
the object around it along. -/
theorem notes_are_deleted_without_items :
    let setting : Setting := ⟨default, {}, fun _ => "2000-01-01"⟩
    let field : Rule :=
      ⟨{ path := "item.notes[].note", expression := some "500$a", required := true }, []⟩
    let rule : Rule :=
      ⟨{ path := "item.notes[]", expression := some " ", policy := some .deleteExisting },
        [⟨0, "item.notes[]", [field]⟩]⟩
    let record : Marc.Record := ⟨"", [], []⟩
    let document : Json := .obj
      [("item", .obj [("notes", .arr [.str "n", .obj [("note", .str "m")]])]), ("hrid", .str "h")]
    let after : Json := .obj [("hrid", .str "h")]
    let target : Path := ⟨["item"], "notes", true⟩
    Entity.item ≠ .holdings ∧ rule.head.enabled = true ∧
      rule.head.policy = some .deleteExisting ∧ rule.head.boolAction = none ∧
      rule.head.hasExpression = false ∧ Path.parse rule.head.path = .ok target ∧
      (rule.head.expression = none ∨ rule.groups ≠ []) ∧
      map setting .item ⟨some [rule]⟩ record document = .ok ⟨[after], []⟩ ∧
      Document.Removed target document after ∧ Document.Framed [target.keys] document after := by
  intro setting field rule record document after target
  have hpath : Path.parse rule.head.path = .ok target := by decide +kernel
  have hblank : rule.head.hasExpression = false := by decide +kernel
  have hgroups : rule.head.expression = none ∨ rule.groups ≠ [] := Or.inr (List.cons_ne_nil _ _)
  have hmap : map setting .item ⟨some [rule]⟩ record document = .ok ⟨[after], []⟩ := by
    unfold document record rule field setting
    with_unfolding_all rfl
  have hentity : Entity.item ≠ .holdings := by decide
  obtain ⟨result, hresult, hdeleted, -⟩ := deleting_rule_removes_array setting record rule .item
    document _ target hentity rfl rfl rfl hblank hpath hmap
  obtain ⟨hsame, -⟩ := List.cons.inj (Mapped.mk.inj hresult).1
  obtain ⟨hremoved, hframed⟩ := hdeleted hgroups
  rw [← hsame] at hremoved hframed
  exact ⟨hentity, rfl, rfl, rfl, hblank, hpath, hgroups, hmap, hremoved, hframed⟩

/-- With a blank expression in place of groups the array stays. -/
theorem blank_expression_keeps_array :
    let setting : Setting := ⟨default, {}, fun _ => "2000-01-01"⟩
    let rule : Rule :=
      ⟨{ path := "item.notes[]", expression := some " ", policy := some .deleteExisting }, []⟩
    let record : Marc.Record := ⟨"", [], []⟩
    let document : Json := .obj [("item", .obj [("notes", .arr [.str "n"])])]
    rule.head.enabled = true ∧ rule.head.policy = some .deleteExisting ∧
      rule.head.boolAction = none ∧ rule.head.hasExpression = false ∧
      Path.parse rule.head.path = .ok ⟨["item"], "notes", true⟩ ∧
      map setting .item ⟨some [rule]⟩ record document = .ok ⟨[document], []⟩ ∧
      document.at? ["item", "notes"] = some (.arr [.str "n"]) := by
  intro setting rule record document
  refine ⟨rfl, rfl, rfl, by decide +kernel, by decide +kernel, ?_, rfl⟩
  unfold document record rule setting
  with_unfolding_all rfl

end Mapping

end Crosswalk
