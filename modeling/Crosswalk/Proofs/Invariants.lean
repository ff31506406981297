import Crosswalk.Proofs.Frame
import Crosswalk.Proofs.Success

/-!
# Invariants of documents

A write stores objects, texts, truth values and arrays, and removes keys. So a property
of JSON values that an object has whenever its members have it stays true of a document
through all writes, as soon as it holds of what the values bring. `Invariant` names what
has to be shown of the property, and `Admits` what has to be shown of the values; the
walks, the policies and the items of groups are gone through here once.
-/

namespace Crosswalk.Document

/-- Two properties that no write breaks: one of all values in a document, and one of the elements of
its arrays. An array is only ever stored with an element in it, and an object only becomes an
element with a member in it. -/
structure Invariant (Holds Element : Json → Prop) : Prop where
  empty : Holds (.obj [])
  insert : ∀ key value members, Holds (.obj members) → Holds value →
    Holds (.obj (Entries.insert key value members))
  erase : ∀ key members, Holds (.obj members) → Holds (.obj (Entries.erase key members))
  member : ∀ key value members, Holds (.obj members) → Entries.get? key members = some value →
    Holds value
  array : ∀ items, items ≠ [] → (∀ item ∈ items, Element item) → Holds (.arr items)
  element : ∀ items item, Holds (.arr items) → item ∈ items → Element item
  object : ∀ members, members ≠ [] → Holds (.obj members) → Element (.obj members)

def Rooted (Holds : Json → Prop) (document : Json) : Prop :=
  ∃ members, document = .obj members ∧ Holds (.obj members)

def Keeps (Holds : Json → Prop) (change : List (String × Json) → List (String × Json)) : Prop :=
  ∀ members, Holds (.obj members) → Holds (.obj (change members))

namespace Invariant

variable {Holds Element : Json → Prop} (h : Invariant Holds Element)

include h

/-! ### Walks -/

theorem keeps_insert (key : String) (value : Json) (hvalue : Holds value) :
    Keeps Holds (Entries.insert key value) :=
  fun members hmembers => h.insert key value members hmembers hvalue

theorem keeps_eraseIfEmpty (key : String) : Keeps Holds (eraseIfEmpty key) := by
  intro members hmembers
  rw [eraseIfEmpty]
  split
  · exact h.erase key members hmembers
  · exact hmembers

theorem holds_storage? (key : String) (members inner : List (String × Json))
    (hmembers : Holds (.obj members))
    (hinner : storage? ((Entries.get? key members).getD .null) = some inner) :
    Holds (.obj inner) := by
  rcases storage?_eq_some _ inner hinner with hvalue | ⟨-, rfl⟩
  · cases hget : Entries.get? key members with
    | none =>
      rw [hget] at hvalue
      cases hvalue
    | some value =>
      rw [hget, Option.getD_some] at hvalue
      exact h.member key _ members hmembers (hget.trans (congrArg some hvalue))
  · exact h.empty

variable {change : List (String × Json) → List (String × Json)} (hchange : Keeps Holds change)

include hchange

theorem keeps_changeWithin (keys : List String) :
    Keeps Holds fun members => (changeWithin change keys members).1 := by
  induction keys with
  | nil => exact hchange
  | cons key rest ih =>
    intro members hmembers
    simp only [changeWithin]
    split
    · exact hmembers
    · rename_i inner hinner
      have hfound := h.holds_storage? key members inner hmembers hinner
      exact h.insert key _ members hmembers (ih inner hfound)

theorem rooted_changeAt (shown : String) (keys : List String) (document : Json)
    (hdocument : Rooted Holds document) :
    Rooted Holds (changeAt shown keys change document).document := by
  obtain ⟨members, rfl, hmembers⟩ := hdocument
  exact ⟨_, rfl, h.keeps_changeWithin hchange keys members hmembers⟩

theorem holds_adjustAt (keys : List String) (value : Json) (hvalue : Holds value) :
    Holds (adjustAt change keys value) := by
  induction keys generalizing value with
  | nil =>
    cases value with
    | obj members => exact hchange members hvalue
    | _ => exact hvalue
  | cons key rest ih =>
    cases value with
    | obj members =>
      rw [adjustAt]
      split
      · rename_i inner hinner
        exact h.insert key _ members hvalue (ih inner (h.member key inner members hvalue hinner))
      · exact hvalue
    | _ => exact hvalue

theorem rooted_adjustAt (keys : List String) (document : Json) (hdocument : Rooted Holds document) :
    Rooted Holds (adjustAt change keys document) := by
  obtain ⟨members, rfl, hmembers⟩ := hdocument
  have hadjusted := h.holds_adjustAt hchange keys (.obj members) hmembers
  have hobject : ∃ adjusted, adjustAt change keys (.obj members) = .obj adjusted := by
    cases keys with
    | nil => exact ⟨_, rfl⟩
    | cons key rest =>
      rw [adjustAt]
      split <;> exact ⟨_, rfl⟩
  obtain ⟨adjusted, heq⟩ := hobject
  rw [heq] at hadjusted ⊢
  exact ⟨adjusted, rfl, hadjusted⟩

omit hchange

/-! ### Arrays -/

theorem rooted_removeArray (target : Path) (document : Json) (hdocument : Rooted Holds document) :
    Rooted Holds (removeArray target document) := by
  have hremoved := h.rooted_adjustAt (h.erase target.leaf) target.parents document hdocument
  rw [removeArray]
  split
  · exact hdocument
  · simp only
    split
    · exact hremoved
    · exact h.rooted_adjustAt (h.keeps_eraseIfEmpty _) _ _ hremoved

theorem holds_at? (keys : List String) (value inner : Json) (hvalue : Holds value)
    (hat : value.at? keys = some inner) : Holds inner := by
  induction keys generalizing value with
  | nil =>
    rw [Json.at?_nil, Option.some.injEq] at hat
    rwa [← hat]
  | cons key rest ih =>
    cases value with
    | obj members =>
      obtain ⟨next, hnext, hrest⟩ := Option.bind_eq_some_iff.1 hat
      exact ih next (h.member key next members hvalue hnext) hrest
    | _ => cases hat

theorem element_elementsAt (key : String) (members : List (String × Json))
    (hmembers : Holds (.obj members)) : ∀ item ∈ elementsAt key members, Element item := by
  rw [elementsAt]
  split
  · rename_i old hold
    exact fun item hitem => h.element old item (h.member key _ members hmembers hold) hitem
  · exact List.forall_mem_nil _

theorem rooted_mergeArray (target : Path) (shown : String) (policy : Policy) (incoming : List Json)
    (document : Json) (hincoming : ∀ item ∈ incoming, Element item)
    (hdocument : Rooted Holds document) :
    Rooted Holds (mergeArray target shown policy incoming document).document := by
  have hremoved := h.rooted_removeArray target document hdocument
  cases policy with
  | extendExisting =>
    rw [mergeArray]
    split
    · exact hdocument
    · rename_i hempty
      have hne : incoming ≠ [] := fun hnil => hempty (List.isEmpty_iff.2 hnil)
      have hextend : Keeps Holds fun members => Entries.insert target.leaf
          (.arr (elementsAt target.leaf members ++ incoming)) members := by
        intro members hmembers
        have hold := h.element_elementsAt target.leaf members hmembers
        refine h.insert target.leaf _ members hmembers (h.array _ ?_ ?_)
        · exact List.append_ne_nil_of_right_ne_nil _ hne
        · exact List.forall_mem_append.2 ⟨hold, hincoming⟩
      exact h.rooted_changeAt hextend shown _ document hdocument
  | exchangeExisting =>
    rw [mergeArray]
    split
    · exact hremoved
    · rename_i hempty
      have hne : incoming ≠ [] := fun hnil => hempty (List.isEmpty_iff.2 hnil)
      have hexchange := h.keeps_insert target.leaf _ (h.array incoming hne hincoming)
      exact h.rooted_changeAt hexchange shown _ document hdocument
  | deleteExisting => exact hremoved
  | deleteIncoming =>
    simp only [mergeArray]
    split
    · rename_i old hold
      split
      · -- the array without elements never stays, so it need not have the property
        rw [removeArray_adjustAt_insert target document _ (.arr old) hold]
        exact hremoved
      · rename_i hempty
        have hne : without incoming old ≠ [] := fun hnil => hempty (List.isEmpty_iff.2 hnil)
        have harray : Holds (.arr old) := by
          obtain ⟨members, rfl, hmembers⟩ := hdocument
          exact h.holds_at? target.keys (.obj members) _ hmembers hold
        have hkept : Holds (.arr (without incoming old)) :=
          h.array _ hne fun item hitem => h.element old item harray (List.mem_of_mem_filter hitem)
        exact h.rooted_adjustAt (h.keeps_insert target.leaf _ hkept) _ _ hdocument
    · exact hdocument

end Invariant

/-! ### Values -/

def Content.Suits (Holds Element : Json → Prop) : Content → Prop
  | .nothing | .deletion => True
  | .scalar value => Holds value
  | .elements _ incoming => ∀ item ∈ incoming, Element item

/-- The values bring nothing without the properties: neither they nor those in their items. -/
structure Admits (Holds Element : Json → Prop) (admitted : Value → Prop) : Prop where
  string : ∀ text, admitted (.string text) → Holds (.str text)
  bool : ∀ flag, admitted (.bool flag) → Holds (.bool flag)
  list : ∀ texts policy, admitted (.list texts policy) → ∀ text ∈ texts, Element (.str text)
  repeatable : ∀ items policy root, admitted (.repeatable items policy root) →
    ∀ item ∈ items, ∀ entry ∈ item, admitted entry.2

namespace Invariant

variable {Holds Element : Json → Prop} {admitted : Value → Prop}

theorem rooted_store (h : Invariant Holds Element) (target : Path) (shown : String)
    (policy : Option Policy) (document : Json) (amount : Content)
    (hamount : amount.Suits Holds Element) (hdocument : Rooted Holds document) :
    Rooted Holds (store target shown policy document amount).document := by
  cases amount with
  | nothing => exact hdocument
  | deletion => exact h.rooted_adjustAt (h.erase target.leaf) _ document hdocument
  | scalar value =>
    rw [store]
    split
    · exact hdocument
    · exact h.rooted_changeAt (h.keeps_insert target.leaf value hamount) _ _ document hdocument
  | elements kind incoming =>
    have hmerged := h.rooted_mergeArray target shown (policy.getD default) incoming document hamount
      hdocument
    rw [store]
    split
    · exact hdocument
    · split
      · exact hmerged
      · exact hmerged
      · exact hmerged
      · exact hdocument

-- The induction is along the value: items nest values, and each entry of an item is written into
-- the object that is being built.
mutual

theorem suits_content (h : Invariant Holds Element) (hadmits : Admits Holds Element admitted)
    (value : Value) (amount : Content) (hvalue : admitted value)
    (hamount : content value = .ok amount) : amount.Suits Holds Element := by
  match value with
  | .missing =>
    cases hamount
    trivial
  | .removal text =>
    cases hamount
    trivial
  | .string text =>
    cases hamount
    exact hadmits.string text hvalue
  | .bool flag =>
    cases hamount
    exact hadmits.bool flag hvalue
  | .list texts policy =>
    cases hamount
    exact List.forall_mem_map.2 (hadmits.list texts policy hvalue)
  | .repeatable items policy root =>
    rw [content] at hamount
    obtain ⟨objects, hobjects, rfl⟩ := (map_eq_ok_iff _ _ _).1 hamount
    have hitems := hadmits.repeatable items policy root hvalue
    exact h.element_built hadmits items objects hitems hobjects

theorem element_built (h : Invariant Holds Element) (hadmits : Admits Holds Element admitted)
    (items : List Item) (objects : List Json)
    (hitems : ∀ item ∈ items, ∀ entry ∈ item, admitted entry.2)
    (hobjects : built items = .ok objects) : ∀ object ∈ objects, Element object := by
  match items with
  | [] =>
    cases hobjects
    exact List.forall_mem_nil _
  | item :: rest =>
    rw [built] at hobjects
    obtain ⟨object, hobject, hrest⟩ := (bind_eq_ok_iff _ _ _).1 hobjects
    obtain ⟨others, hothers, hall⟩ := (bind_eq_ok_iff _ _ _).1 hrest
    obtain ⟨members, rfl, hmembers⟩ := h.rooted_builtOn hadmits (.obj []) item object
      (hitems item List.mem_cons_self) ⟨[], rfl, h.empty⟩ hobject
    have hlater := h.element_built hadmits rest others
      (fun i hi => hitems i (List.mem_cons_of_mem item hi)) hothers
    split at hall
    · cases hall
      exact hlater
    · rename_i hsome
      cases hall
      refine List.forall_mem_cons.2 ⟨h.object members ?_ hmembers, hlater⟩
      rintro rfl
      exact hsome rfl

theorem rooted_builtOn (h : Invariant Holds Element) (hadmits : Admits Holds Element admitted)
    (document : Json) (item : Item) (result : Json)
    (hitem : ∀ entry ∈ item, admitted entry.2) (hdocument : Rooted Holds document)
    (hresult : builtOn document item = .ok result) : Rooted Holds result := by
  match item with
  | [] =>
    cases hresult
    exact hdocument
  | (key, value) :: rest =>
    rw [builtOn] at hresult
    obtain ⟨target, -, hstored⟩ := (bind_eq_ok_iff _ _ _).1 hresult
    obtain ⟨amount, hamount, hnext⟩ := (bind_eq_ok_iff _ _ _).1 hstored
    have hsuits := h.suits_content hadmits value amount (hitem (key, value) List.mem_cons_self)
      hamount
    have hwritten := h.rooted_store target key none document amount hsuits hdocument
    simp only at hnext
    split at hnext
    · cases hnext
    · exact h.rooted_builtOn hadmits _ rest result
        (fun entry hentry => hitem entry (List.mem_cons_of_mem _ hentry)) hwritten hnext

end

section Writes

variable (h : Invariant Holds Element) (hadmits : Admits Holds Element admitted)

include h hadmits

/-- A write of an admitted value keeps the invariant, whether it fails or not. -/
theorem rooted_write (path : String) (value : Value) (policy : Option Policy) (document : Json)
    (hvalue : admitted value) (hdocument : Rooted Holds document) :
    Rooted Holds (write path value policy document).document := by
  rw [write]
  split
  · exact hdocument
  · split
    · exact hdocument
    · rename_i amount hamount
      exact h.rooted_store _ path policy document amount
        (h.suits_content hadmits value amount hvalue hamount) hdocument

theorem rooted_writeAll (calls : List Call) (document : Json)
    (hcalls : ∀ call ∈ calls, admitted call.value) (hdocument : Rooted Holds document) :
    Rooted Holds (writeAll calls document) := by
  induction calls generalizing document with
  | nil => exact hdocument
  | cons call rest ih =>
    obtain ⟨hfirst, hrest⟩ := List.forall_mem_cons.1 hcalls
    have hwritten := h.rooted_write hadmits call.path call.value call.policy document hfirst
      hdocument
    exact ih _ hrest hwritten

end Writes

end Invariant

end Crosswalk.Document
