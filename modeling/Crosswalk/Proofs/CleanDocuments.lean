import Crosswalk.Proofs.CleanValues
import Crosswalk.Proofs.Invariants

/-!
# Clean documents

A clean document is an object in which nothing is null, a number or a blank text,
and in which every array has elements, each of them a text or an object that is
not empty. To be clean is an invariant of documents, and values without blank
texts respect it: a write of such a value leaves a clean document clean, wherever
it goes and whatever its policy.
-/

namespace Crosswalk

namespace Json

/-- Whether the value can stand in the array of a clean document. -/
def isElement : Json → Bool
  | .str _ => true
  | .obj members => !members.isEmpty
  | _ => false

mutual

/-- Whether there is no null, no number, no blank text and no array in the value that is empty or
has other elements than texts and objects that are not empty. -/
def isClean : Json → Bool
  | .null | .num _ => false
  | .bool _ => true
  | .str text => !Text.isBlankText text
  | .arr items => !items.isEmpty && areCleanElements items
  | .obj members => areCleanMembers members

def areCleanElements : List Json → Bool
  | [] => true
  | item :: rest => isElement item && isClean item && areCleanElements rest

def areCleanMembers : List (String × Json) → Bool
  | [] => true
  | (_, value) :: rest => isClean value && areCleanMembers rest

end

def isCleanDocument : Json → Bool
  | .obj members => areCleanMembers members
  | _ => false

def CleanElements (items : List Json) : Prop :=
  ∀ item ∈ items, item.isElement = true ∧ item.isClean = true

def CleanMembers (members : List (String × Json)) : Prop :=
  ∀ entry ∈ members, entry.2.isClean = true

theorem areCleanElements_iff (items : List Json) :
    areCleanElements items = true ↔ CleanElements items := by
  induction items with
  | nil => exact iff_of_true rfl (List.forall_mem_nil _)
  | cons item rest ih =>
    rw [areCleanElements, Bool.and_eq_true, Bool.and_eq_true, ih, CleanElements, CleanElements,
      List.forall_mem_cons]

theorem areCleanMembers_iff (members : List (String × Json)) :
    areCleanMembers members = true ↔ CleanMembers members := by
  induction members with
  | nil => exact iff_of_true rfl (List.forall_mem_nil _)
  | cons entry rest ih =>
    obtain ⟨key, value⟩ := entry
    rw [areCleanMembers, Bool.and_eq_true, ih, CleanMembers, CleanMembers, List.forall_mem_cons]

theorem isClean_str (text : String) (h : Text.isBlankText text = false) :
    (Json.str text).isClean = true := by
  rw [isClean, h, Bool.not_false]

theorem isClean_arr_iff (items : List Json) :
    (Json.arr items).isClean = true ↔ items ≠ [] ∧ CleanElements items := by
  rw [isClean, Bool.and_eq_true, areCleanElements_iff, Bool.not_eq_true', List.isEmpty_eq_false_iff]

theorem isClean_obj_iff (members : List (String × Json)) :
    (Json.obj members).isClean = true ↔ CleanMembers members := by
  rw [isClean, areCleanMembers_iff]

theorem isCleanDocument_obj_iff (members : List (String × Json)) :
    (Json.obj members).isCleanDocument = true ↔ CleanMembers members := by
  rw [isCleanDocument, areCleanMembers_iff]

theorem exists_of_isCleanDocument (document : Json) (h : document.isCleanDocument = true) :
    ∃ members, document = .obj members ∧ CleanMembers members := by
  cases document with
  | obj members => exact ⟨members, rfl, (isCleanDocument_obj_iff members).1 h⟩
  | _ => cases h

/-! ### Looking into clean values -/

theorem isClean_of_get? (key : String) (members : List (String × Json)) (value : Json)
    (hmembers : CleanMembers members) (h : Entries.get? key members = some value) :
    value.isClean = true := hmembers (key, value) (Entries.mem_of_get? key value members h)

end Json

namespace Document

open Json

/-! ### Cleanness is an invariant -/

theorem invariant_isClean :
    Invariant (fun value => value.isClean = true)
      (fun item => item.isElement = true ∧ item.isClean = true) where
  empty := rfl
  insert := by
    intro key value members hmembers hvalue
    refine (isClean_obj_iff _).2 fun entry hentry => ?_
    rcases Entries.mem_insert key value members entry hentry with rfl | hold
    · exact hvalue
    · exact (isClean_obj_iff members).1 hmembers entry hold
  erase := fun key members hmembers => (isClean_obj_iff _).2 fun entry hentry =>
    (isClean_obj_iff members).1 hmembers entry (List.mem_of_mem_filter hentry)
  member := fun key value members hmembers hget =>
    isClean_of_get? key members value ((isClean_obj_iff members).1 hmembers) hget
  array := fun items hne hitems => (isClean_arr_iff items).2 ⟨hne, hitems⟩
  element := fun items item harray hitem => ((isClean_arr_iff items).1 harray).2 item hitem
  object := by
    intro members hne hmembers
    refine ⟨?_, hmembers⟩
    rw [isElement, List.isEmpty_eq_false_iff.2 hne, Bool.not_false]

theorem admits_noBlanks :
    Admits (fun value => value.isClean = true)
      (fun item => item.isElement = true ∧ item.isClean = true) Value.NoBlanks where
  string := by
    intro text hstring
    cases hstring with
    | string _ htext => exact isClean_str text htext
  bool := fun _ _ => rfl
  list := by
    intro texts policy hlist text htext
    cases hlist with
    | list _ _ htexts => exact ⟨rfl, isClean_str text (htexts text htext)⟩
  repeatable := by
    intro items policy root hrepeatable
    cases hrepeatable with
    | repeatable _ _ _ hitems => exact hitems

theorem rooted_isClean_iff (document : Json) :
    Rooted (fun value => value.isClean = true) document ↔ document.isCleanDocument = true := by
  constructor
  · rintro ⟨members, rfl, hmembers⟩
    exact (isCleanDocument_obj_iff members).2 ((isClean_obj_iff members).1 hmembers)
  · intro h
    obtain ⟨members, rfl, hmembers⟩ := exists_of_isCleanDocument document h
    exact ⟨members, rfl, (isClean_obj_iff members).2 hmembers⟩

theorem isCleanDocument_write (path : String) (value : Value) (policy : Option Policy)
    (document : Json) (hvalue : value.NoBlanks) (h : document.isCleanDocument = true) :
    (write path value policy document).document.isCleanDocument = true := by
  rw [← rooted_isClean_iff] at h ⊢
  exact invariant_isClean.rooted_write admits_noBlanks path value policy document hvalue h

end Document

end Crosswalk
