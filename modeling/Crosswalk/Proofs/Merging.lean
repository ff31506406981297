import Crosswalk.Proofs.Effect
import Crosswalk.Proofs.KeyOrder
import Crosswalk.Proofs.Removal
import Crosswalk.Proofs.Success

/-!
# Merging arrays

What becomes of the array at a path when a list or the items of a group are
written there, for each of the four policies. The new elements are the texts of
the list, or the objects that the items build to; the old ones are those of the
array that is there, and none if there is none.
-/

namespace Crosswalk.Document

/-! ### New elements -/

/-- The elements that a value brings: the texts of a list, or one object for each item, those
without members left out. -/
def newElements : Value → Except Error (List Json)
  | .list texts _ => .ok (texts.map .str)
  | .repeatable items _ _ =>
    (items.mapM (builtOn (.obj []))).map (List.filter fun object => object ≠ .obj [])
  | _ => .ok []

theorem built_eq_mapM (items : List Item) :
    built items
      = (items.mapM (builtOn (.obj []))).map (List.filter fun object => object ≠ .obj []) := by
  induction items with
  | nil => rfl
  | cons item rest ih =>
    rw [built, List.mapM_cons, ih]
    cases builtOn (.obj []) item with
    | error e => rfl
    | ok object =>
      cases rest.mapM (builtOn (.obj [])) with
      | error e => rfl
      | ok others =>
        apply congrArg Except.ok
        rw [isEmptyObject_eq, List.filter_cons]
        by_cases hempty : object = .obj []
        · simp only [hempty, decide_true, if_true, ne_eq, not_true_eq_false, decide_false,
            Bool.false_eq_true, if_false]
        · simp only [hempty, decide_false, Bool.false_eq_true, if_false, ne_eq, not_false_eq_true,
            decide_true, if_true]

theorem content_of_isArray (value : Value) (amount : Content) (harray : value.isArray = true)
    (h : content value = .ok amount) :
    ∃ kind elements, amount = .elements kind elements ∧ newElements value = .ok elements := by
  cases value with
  | list texts policy =>
    rw [content, Except.ok.injEq] at h
    exact ⟨"list", texts.map .str, h.symm, rfl⟩
  | repeatable items policy root =>
    rw [content, built_eq_mapM] at h
    rw [newElements]
    cases hbuilt : (items.mapM (builtOn (.obj []))).map
        (List.filter fun object => object ≠ .obj []) with
    | error e =>
      rw [hbuilt] at h
      cases h
    | ok elements =>
      rw [hbuilt] at h
      cases h
      exact ⟨"repeatable", elements, rfl, rfl⟩
  | _ => simp only [Value.isArray, Bool.false_eq_true] at harray

/-! ### Old elements -/

def oldElements (target : Path) (document : Json) : List Json :=
  ((document.at? target.keys).bind Json.items?).getD []

open Classical in
/-- The old elements that are the same as no new one up to key order. -/
noncomputable def remaining (elements old : List Json) : List Json :=
  old.filter fun element => ∀ new ∈ elements, ¬ Json.Reordered element new

theorem elementsAt_membersAt (target : Path) (document : Json) :
    elementsAt target.leaf (document.membersAt target.parents) = oldElements target document := by
  rw [elementsAt, oldElements, Path.keys, Json.at?_concat]
  cases Entries.get? target.leaf (document.membersAt target.parents) with
  | none => rfl
  | some value => cases value <;> rfl

theorem without_eq_remaining (elements old : List Json) (hdistinct : Json.DistinctKeysItems old) :
    without elements old = remaining elements old := by
  classical
  apply List.filter_congr
  intro element hmem
  have helement := Json.distinctKeysItems_mem old element hdistinct hmem
  rw [Bool.eq_iff_iff, decide_eq_true_iff, Bool.not_eq_true', ← Bool.not_eq_true,
    List.contains_iff_mem, List.mem_map]
  constructor
  · intro hnone new hnew hsame
    exact hnone ⟨new, hnew, ((Json.canonical_eq_iff element new helement).2 hsame).symm⟩
  · rintro hall ⟨new, hnew, hsame⟩
    exact hall new hnew ((Json.canonical_eq_iff element new helement).1 hsame.symm)

/-! ### The four policies -/

/-- How a document looks after the elements have been merged with the array at the target; `deleted`
is the document without that array. -/
def Merged (target : Path) (elements : List Json) (before deleted after : Json) : Policy → Prop
  | .extendExisting =>
    (elements = [] → after = before) ∧
    (elements ≠ [] →
      after.at? target.keys = some (.arr (oldElements target before ++ elements)))
  | .exchangeExisting =>
    (elements = [] → after = deleted) ∧
    (elements ≠ [] → after.at? target.keys = some (.arr elements))
  | .deleteExisting => after = deleted
  | .deleteIncoming =>
    (before.at? target.keys = none ∨ before.at? target.keys = some .null → after = before) ∧
    ∀ old, before.at? target.keys = some (.arr old) →
      (remaining elements old = [] → after = deleted) ∧
      (remaining elements old ≠ [] →
        after.at? target.keys = some (.arr (remaining elements old)))

/-- There is an array at the target, or nothing, or null. -/
def HoldsArray (target : Path) (document : Json) : Prop :=
  document.at? target.keys = none ∨ document.at? target.keys = some .null ∨
    document.at? target.keys = some (.arr (oldElements target document))

theorem isArray_of_store_elements (target : Path) (shown : String) (policy : Option Policy)
    (document : Json) (kind : String) (elements : List Json)
    (h : (store target shown policy document (.elements kind elements)).failure? = none) :
    target.isArray = true := by
  by_contra harray
  simp only [store, harray, not_false_eq_true, if_true, reduceCtorEq] at h

theorem holdsArray_of_store_elements (target : Path) (shown : String) (policy : Option Policy)
    (document : Json) (kind : String) (elements : List Json)
    (h : (store target shown policy document (.elements kind elements)).failure? = none) :
    HoldsArray target document := by
  have harray := isArray_of_store_elements target shown policy document kind elements h
  cases hat : document.at? target.keys with
  | none => exact Or.inl hat
  | some value =>
    cases value with
    | null => exact Or.inr (Or.inl hat)
    | arr old =>
      refine Or.inr (Or.inr ?_)
      rw [oldElements, hat]
      rfl
    | _ => simp only [store, harray, hat, not_true_eq_false, if_false, reduceCtorEq] at h

theorem store_elements (target : Path) (shown : String) (policy : Option Policy)
    (document : Json) (kind : String) (elements : List Json) (harray : target.isArray = true)
    (hholds : HoldsArray target document) :
    store target shown policy document (.elements kind elements)
      = mergeArray target shown (policy.getD default) elements document := by
  rcases hholds with hat | hat | hat <;>
    simp only [store, harray, hat, not_true_eq_false, if_false]

theorem merged_mergeArray (target : Path) (shown : String) (policy : Policy) (elements : List Json)
    (document : Json) (hdistinct : document.DistinctKeys)
    (h : (mergeArray target shown policy elements document).failure? = none) :
    Merged target elements document (removeArray target document)
      (mergeArray target shown policy elements document).document policy := by
  cases policy with
  | extendExisting =>
    refine ⟨fun hempty => by rw [hempty]; rfl, fun hsome => ?_⟩
    have hcons : elements.isEmpty = false := List.isEmpty_eq_false_iff.2 hsome
    simp only [mergeArray, hcons, Bool.false_eq_true, if_false] at h ⊢
    rw [at?_changeAt_insert target shown _ document h, elementsAt_membersAt]
  | exchangeExisting =>
    refine ⟨fun hempty => by rw [hempty]; rfl, fun hsome => ?_⟩
    have hcons : elements.isEmpty = false := List.isEmpty_eq_false_iff.2 hsome
    simp only [mergeArray, hcons, Bool.false_eq_true, if_false] at h ⊢
    exact at?_changeAt_insert target shown (fun _ => .arr elements) document h
  | deleteExisting => rfl
  | deleteIncoming =>
    constructor
    · rintro (hat | hat) <;> simp only [mergeArray, hat]
    · intro old hat
      have hold : Json.DistinctKeysItems old :=
        Json.distinctKeys_at? target.keys document (.arr old) hdistinct hat
      obtain ⟨members, hparents, -⟩ :=
        Json.exists_of_at?_concat target.parents target.leaf document (.arr old) hat
      simp only [mergeArray, hat, without_eq_remaining elements old hold]
      refine ⟨fun hempty => ?_, fun hsome => ?_⟩
      · simp only [hempty, List.isEmpty_nil, if_true]
        exact removeArray_adjustAt_insert target document _ (.arr old) hat
      · have hcons : (remaining elements old).isEmpty = false := List.isEmpty_eq_false_iff.2 hsome
        simp only [hcons, Bool.false_eq_true, if_false]
        rw [Path.keys, Json.at?_concat_of_at? _ _ _ _ (at?_adjustAt _ _ document members hparents)]
        exact Entries.get?_insert_self target.leaf _ members

/-- A list or the items of a group written with a policy: what becomes of the array at the path, for
every policy, every array that was there or not, and every value, empty ones included. The document
without the array is what the policy of deletion leaves. -/
theorem written_array_follows_policy (path : String) (target : Path) (value : Value)
    (policy : Policy) (document : Json) (hpath : Path.parse path = .ok target)
    (harray : value.isArray = true) (hdistinct : document.DistinctKeys)
    (hsuccess : (write path value (some policy) document).failure? = none) :
    HoldsArray target document ∧ ∃ elements deleted,
      newElements value = .ok elements ∧
      write path value (some .deleteExisting) document = ⟨deleted, none⟩ ∧
      Removed target document deleted ∧
      Merged target elements document deleted
        (write path value (some policy) document).document policy := by
  cases hcontent : content value with
  | error e => simp only [write, hpath, hcontent, reduceCtorEq] at hsuccess
  | ok amount =>
    obtain ⟨kind, elements, rfl, helements⟩ := content_of_isArray value amount harray hcontent
    simp only [write, hpath, hcontent] at hsuccess ⊢
    have hmarked := isArray_of_store_elements target path _ document kind elements hsuccess
    have hholds := holdsArray_of_store_elements target path _ document kind elements hsuccess
    have hmerge := fun policy : Policy =>
      store_elements target path (some policy) document kind elements hmarked hholds
    rw [hmerge policy] at hsuccess ⊢
    refine ⟨hholds, elements, removeArray target document, helements, ?_, ?_, ?_⟩
    · exact hmerge .deleteExisting
    · exact removed_removeArray target document
    · exact merged_mergeArray target path policy elements document hdistinct hsuccess

/-- The items of a group are taken out of an array in which one of them stands with its keys in
another order; an item that builds to nothing takes nothing out. -/
theorem reordered_object_leaves_array :
    let value : Value := .repeatable
      [[("note", .string "n"), ("count[]", .list ["1"] .extendExisting)], []] .deleteIncoming ""
    let document : Json := .obj [("holdings", .obj [("statements", .arr
      [.obj [("count", .arr [.str "1"]), ("note", .str "n")], .obj [("note", .str "m")]])])]
    let written := write "holdings.statements[]" value (some .deleteIncoming) document
    let target : Path := ⟨["holdings"], "statements", true⟩
    Path.parse "holdings.statements[]" = .ok target ∧ value.isArray = true ∧
      document.DistinctKeys ∧ written.failure? = none ∧
      ∃ elements deleted, newElements value = .ok elements ∧
        Merged target elements document deleted written.document .deleteIncoming := by
  intro value document written target
  have hpath : Path.parse "holdings.statements[]" = .ok target := by rfl
  have hdistinct : document.DistinctKeys := by
    simp [document, Json.DistinctKeys, Json.DistinctKeysMembers, Json.DistinctKeysItems,
      Entries.Distinct, Entries.keys]
  have hsuccess : written.failure? = none := by rfl
  obtain ⟨-, elements, deleted, helements, -, -, hmerged⟩ :=
    written_array_follows_policy _ target value .deleteIncoming document hpath rfl hdistinct hsuccess
  exact ⟨hpath, rfl, hdistinct, hsuccess, elements, deleted, helements, hmerged⟩

end Crosswalk.Document
