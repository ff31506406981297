import Crosswalk.Proofs.Walk

/-!
# What a write can do

Whatever the value and the policy, a write does one of four things: it keeps the
document, it changes the target's key in an object that it walks to and makes if
need be, it changes that key in an object that is there, or it removes an array.
`Effect` names the four, and every property of writes below is shown for each of
them once.
-/

namespace Crosswalk.Document

/-- The things that a write at the target can do to the document. -/
inductive Effect (target : Path) (shown : String) (document : Json) : Written → Prop where
  | kept (failure? : Option Error) : Effect target shown document ⟨document, failure?⟩
  | stored (change : List (String × Json) → List (String × Json))
      (h : ∀ members, Entries.SameBut target.leaf members (change members)) :
      Effect target shown document (changeAt shown target.parents change document)
  | adjusted (change : List (String × Json) → List (String × Json))
      (h : ∀ members, Entries.SameBut target.leaf members (change members)) :
      Effect target shown document ⟨adjustAt change target.parents document, none⟩
  | removed : Effect target shown document ⟨removeArray target document, none⟩

/-- Removing an array takes no notice of what the array holds. -/
theorem removeArray_adjustAt_insert (target : Path) (document value old : Json)
    (h : document.at? target.keys = some old) :
    removeArray target (adjustAt (Entries.insert target.leaf value) target.parents document)
      = removeArray target document := by
  obtain ⟨members, hparents, -⟩ := Json.exists_of_at?_concat target.parents target.leaf document old h
  have hvalue : (adjustAt (Entries.insert target.leaf value) target.parents document).at? target.keys
      = some value := by
    rw [Path.keys, Json.at?_concat_of_at? _ _ _ _
      (at?_adjustAt _ target.parents document members hparents)]
    exact Entries.get?_insert_self target.leaf value members
  have herase : adjustAt (Entries.erase target.leaf) target.parents
        (adjustAt (Entries.insert target.leaf value) target.parents document)
      = adjustAt (Entries.erase target.leaf) target.parents document := by
    rw [adjustAt_adjustAt]
    exact congrArg (fun change => adjustAt change target.parents document)
      (funext (Entries.erase_insert target.leaf value))
  simp only [removeArray, hvalue, h, Option.isNone_some, Bool.false_eq_true, if_false, herase]

theorem mergeArray_effect (target : Path) (shown : String) (policy : Policy)
    (incoming : List Json) (document : Json) :
    Effect target shown document (mergeArray target shown policy incoming document) := by
  have hinsert : ∀ (value : List (String × Json) → Json) (members : List (String × Json)),
      Entries.SameBut target.leaf members (Entries.insert target.leaf (value members) members) :=
    fun value members => Entries.sameBut_insert target.leaf (value members) members
  cases policy with
  | extendExisting =>
    simp only [mergeArray]
    split
    · exact Effect.kept none
    · exact Effect.stored _ (hinsert _)
  | exchangeExisting =>
    simp only [mergeArray]
    split
    · exact Effect.removed
    · exact Effect.stored _ (hinsert fun _ => .arr incoming)
  | deleteExisting => exact Effect.removed
  | deleteIncoming =>
    simp only [mergeArray]
    split
    · rename_i old hold
      split
      · rw [removeArray_adjustAt_insert target document _ (.arr old) hold]
        exact Effect.removed
      · exact Effect.adjusted _ (hinsert fun _ => .arr (without incoming old))
    · exact Effect.kept none

theorem store_effect (target : Path) (shown : String) (policy : Option Policy)
    (document : Json) (amount : Content) :
    Effect target shown document (store target shown policy document amount) := by
  cases amount with
  | nothing => exact Effect.kept none
  | deletion => exact Effect.adjusted _ (Entries.sameBut_erase target.leaf)
  | scalar value =>
    simp only [store]
    split
    · exact Effect.kept _
    · exact Effect.stored _ (Entries.sameBut_insert target.leaf value)
  | elements kind incoming =>
    simp only [store]
    split
    · exact Effect.kept _
    · split
      · exact mergeArray_effect target shown _ incoming document
      · exact mergeArray_effect target shown _ incoming document
      · exact mergeArray_effect target shown _ incoming document
      · exact Effect.kept _

/-- A write keeps the document unless its path can be read and its value be built. -/
theorem write_effect (path : String) (value : Value) (policy : Option Policy) (document : Json) :
    (∃ failure?, write path value policy document = ⟨document, failure?⟩) ∨
      ∃ target, Path.parse path = .ok target ∧
        Effect target path document (write path value policy document) := by
  cases hpath : Path.parse path with
  | error fault =>
    left
    exact ⟨some fault, by simp only [write, hpath]⟩
  | ok target =>
    cases hcontent : content value with
    | error fault =>
      left
      exact ⟨some fault, by simp only [write, hpath, hcontent]⟩
    | ok amount =>
      right
      refine ⟨target, rfl, ?_⟩
      simp only [write, hpath, hcontent]
      exact store_effect target path policy document amount

end Crosswalk.Document
