import Crosswalk.Document
import Crosswalk.Proofs.Entries

/-!
# Walks through documents

A change at the end of a walk, seen from the end of that walk. `changeAt` makes
the objects that are missing on the way, and `adjustAt` goes only where there are
objects; both leave at the end of the keys the members that the change makes of
the members that were there, and a walk that is blocked changes nothing.
-/

namespace Crosswalk.Json

theorem at?_cons_obj (key : String) (rest : List String) (members : List (String × Json)) :
    at? (key :: rest) (.obj members) = (Entries.get? key members).bind (at? rest) := rfl

theorem at?_cons_cons_obj (key next : String) (rest : List String)
    (members : List (String × Json)) :
    at? (key :: next :: rest) (.obj members)
      = at? (next :: rest) ((Entries.get? key members).getD .null) := by
  rw [at?_cons_obj]
  cases Entries.get? key members <;> rfl

theorem at?_append (front rest : List String) (value : Json) :
    at? (front ++ rest) value = (at? front value).bind (at? rest) := by
  induction front generalizing value with
  | nil => simp only [List.nil_append, at?_nil, Option.bind_some]
  | cons key front ih =>
    cases value with
    | obj members =>
      simp only [List.cons_append, at?_cons_obj, Option.bind_assoc]
      exact congrArg _ (funext ih)
    | _ => rfl

theorem exists_of_at?_obj (keys : List String) (value : Json) (inner : List (String × Json))
    (h : value.at? keys = some (.obj inner)) : ∃ members, value = .obj members := by
  cases keys with
  | nil =>
    rw [at?_nil, Option.some.injEq] at h
    exact ⟨inner, h⟩
  | cons key rest =>
    cases value with
    | obj members => exact ⟨members, rfl⟩
    | _ => cases h

/-- The members of the object at the end of the keys; none where there is no object. -/
def membersAt (keys : List String) (document : Json) : List (String × Json) :=
  ((document.at? keys).bind members?).getD []

theorem membersAt_of_at? (keys : List String) (document : Json) (members : List (String × Json))
    (h : document.at? keys = some (.obj members)) : document.membersAt keys = members := by
  simp only [membersAt, h, Option.bind_some, members?, Option.getD_some]

theorem membersAt_cons_obj (key : String) (rest : List String) (members : List (String × Json)) :
    membersAt (key :: rest) (.obj members)
      = ((Entries.get? key members).getD .null).membersAt rest := by
  simp only [membersAt, at?_cons_obj]
  cases Entries.get? key members with
  | some inner => simp only [Option.bind_some, Option.getD_some]
  | none => cases rest <;> rfl

/-! ### The last key of a walk -/

theorem at?_concat (front : List String) (key : String) (document : Json) :
    document.at? (front ++ [key]) = Entries.get? key (document.membersAt front) := by
  rw [at?_append, membersAt]
  cases document.at? front with
  | none => rfl
  | some inner =>
    cases inner with
    | obj members =>
      rw [Option.bind_some, Option.bind_some, at?_cons_obj, funext at?_nil, Option.bind_fun_some]
      rfl
    | _ => rfl

theorem at?_concat_of_at? (front : List String) (key : String) (document : Json)
    (members : List (String × Json)) (h : document.at? front = some (.obj members)) :
    document.at? (front ++ [key]) = Entries.get? key members := by
  rw [at?_concat, membersAt_of_at? front document members h]

theorem exists_of_at?_concat (front : List String) (key : String) (document value : Json)
    (h : document.at? (front ++ [key]) = some value) :
    ∃ members, document.at? front = some (.obj members) ∧
      Entries.get? key members = some value := by
  rw [at?_concat, membersAt] at h
  cases hfront : document.at? front with
  | none => simp only [hfront, Option.bind_none, Option.getD_none, Entries.get?, reduceCtorEq] at h
  | some inner =>
    cases inner with
    | obj members =>
      simp only [hfront, Option.bind_some, members?, Option.getD_some] at h
      exact ⟨members, rfl, h⟩
    | _ => simp only [hfront, Option.bind_some, members?, Option.getD_none, Entries.get?,
        reduceCtorEq] at h

/-! ### Distinct keys -/

theorem distinctKeysMembers_get? (key : String) (members : List (String × Json)) (value : Json)
    (hdistinct : DistinctKeysMembers members) (h : Entries.get? key members = some value) :
    value.DistinctKeys := by
  induction members with
  | nil => cases h
  | cons member rest ih =>
    obtain ⟨k, v⟩ := member
    rw [Entries.get?] at h
    split at h
    · cases h
      exact hdistinct.1
    · exact ih hdistinct.2 h

theorem distinctKeys_at? (keys : List String) (document value : Json)
    (hdistinct : document.DistinctKeys) (h : document.at? keys = some value) :
    value.DistinctKeys := by
  induction keys generalizing document with
  | nil =>
    rw [at?_nil, Option.some.injEq] at h
    rw [← h]
    exact hdistinct
  | cons key rest ih =>
    cases document with
    | obj members =>
      obtain ⟨inner, hget, hinner⟩ := Option.bind_eq_some_iff.1 h
      exact ih inner (distinctKeysMembers_get? key members inner hdistinct.2 hget) hinner
    | _ => cases h

theorem distinctKeysItems_mem (items : List Json) (item : Json)
    (hdistinct : DistinctKeysItems items) (h : item ∈ items) : item.DistinctKeys := by
  induction items with
  | nil => cases h
  | cons first rest ih =>
    rcases List.mem_cons.1 h with rfl | hrest
    · exact hdistinct.1
    · exact ih hdistinct.2 hrest

end Crosswalk.Json

namespace Crosswalk.Document

theorem isEmptyObject_eq (value : Json) : isEmptyObject value = decide (value = .obj []) := by
  cases value with
  | obj members => cases members <;> simp only [isEmptyObject, Json.obj.injEq, reduceCtorEq,
      decide_true, decide_false]
  | _ => simp only [isEmptyObject, reduceCtorEq, decide_false]

/-! ### Walks that make objects -/

theorem storage?_eq_some (value : Json) (members : List (String × Json))
    (h : storage? value = some members) :
    value = .obj members ∨ (value = .null ∧ members = []) := by
  cases value with
  | obj inner =>
    simp only [storage?, Option.some.injEq] at h
    exact Or.inl (congrArg Json.obj h)
  | null =>
    simp only [storage?, Option.some.injEq] at h
    exact Or.inr ⟨rfl, h.symm⟩
  | _ => simp only [storage?, reduceCtorEq] at h

theorem membersAt_of_storage? (keys : List String) (value : Json) (members : List (String × Json))
    (h : storage? value = some members) :
    value.membersAt keys = Json.membersAt keys (.obj members) := by
  rcases storage?_eq_some value members h with rfl | ⟨rfl, rfl⟩
  · rfl
  · cases keys <;> rfl

theorem changeWithin_nil_members (change : List (String × Json) → List (String × Json))
    (keys : List String) : (changeWithin change keys []).2 = none := by
  induction keys with
  | nil => rfl
  | cons key rest ih => exact ih

/-- The members are kept if something stands in the way: below an object that was made on the way
nothing does, so a walk that is blocked ends before it has made anything. -/
theorem changeWithin_of_obstacle (change : List (String × Json) → List (String × Json))
    (keys : List String) (members : List (String × Json)) (obstacle : String)
    (h : (changeWithin change keys members).2 = some obstacle) :
    (changeWithin change keys members).1 = members := by
  induction keys generalizing members with
  | nil => simp only [changeWithin, reduceCtorEq] at h
  | cons key rest ih =>
    cases hstored : storage? ((Entries.get? key members).getD .null) with
    | none => simp only [changeWithin, hstored]
    | some inner =>
      simp only [changeWithin, hstored] at h ⊢
      have hget : Entries.get? key members = some (.obj inner) := by
        cases hvalue : Entries.get? key members with
        | none =>
          simp only [hvalue, Option.getD_none, storage?, Option.some.injEq] at hstored
          rw [← hstored, changeWithin_nil_members] at h
          cases h
        | some value =>
          rw [hvalue, Option.getD_some] at hstored
          rcases storage?_eq_some value inner hstored with rfl | ⟨rfl, rfl⟩
          · rfl
          · rw [changeWithin_nil_members] at h
            cases h
      rw [ih inner h]
      exact Entries.insert_of_get? key _ members hget

theorem at?_changeWithin (change : List (String × Json) → List (String × Json))
    (keys : List String) (members : List (String × Json))
    (h : (changeWithin change keys members).2 = none) :
    Json.at? keys (.obj (changeWithin change keys members).1)
      = some (.obj (change (Json.membersAt keys (.obj members)))) := by
  induction keys generalizing members with
  | nil => rfl
  | cons key rest ih =>
    cases hstored : storage? ((Entries.get? key members).getD .null) with
    | none => simp only [changeWithin, hstored, reduceCtorEq] at h
    | some inner =>
      simp only [changeWithin, hstored] at h ⊢
      rw [Json.at?_cons_obj, Entries.get?_insert_self, Option.bind_some, ih inner h,
        Json.membersAt_cons_obj, membersAt_of_storage? rest _ inner hstored]

theorem document_changeAt_of_failure (shown : String) (keys : List String)
    (change : List (String × Json) → List (String × Json)) (document : Json) (e : Error)
    (h : (changeAt shown keys change document).failure? = some e) :
    (changeAt shown keys change document).document = document := by
  cases hstored : storage? document with
  | none => simp only [changeAt, hstored]
  | some members =>
    simp only [changeAt, hstored] at h ⊢
    obtain ⟨obstacle, hobstacle, -⟩ := Option.map_eq_some_iff.1 h
    rcases storage?_eq_some document members hstored with rfl | ⟨rfl, rfl⟩
    · rw [changeWithin_of_obstacle change keys members obstacle hobstacle]
    · rw [changeWithin_nil_members] at hobstacle
      cases hobstacle

theorem at?_changeAt (shown : String) (keys : List String)
    (change : List (String × Json) → List (String × Json)) (document : Json)
    (h : (changeAt shown keys change document).failure? = none) :
    (changeAt shown keys change document).document.at? keys
      = some (.obj (change (document.membersAt keys))) := by
  cases hstored : storage? document with
  | none => simp only [changeAt, hstored, reduceCtorEq] at h
  | some members =>
    simp only [changeAt, hstored, Option.map_eq_none_iff] at h ⊢
    rw [at?_changeWithin change keys members h, membersAt_of_storage? keys document members hstored]

theorem at?_changeAt_insert (target : Path) (shown : String) (value : List (String × Json) → Json)
    (document : Json)
    (h : (changeAt shown target.parents
      (fun members => Entries.insert target.leaf (value members) members) document).failure? = none) :
    (changeAt shown target.parents
        (fun members => Entries.insert target.leaf (value members) members)
        document).document.at? target.keys
      = some (value (document.membersAt target.parents)) := by
  rw [Path.keys, Json.at?_concat_of_at? _ _ _ _ (at?_changeAt shown target.parents _ document h)]
  exact Entries.get?_insert_self target.leaf _ _

/-! ### Walks along objects -/

theorem at?_adjustAt_append (change : List (String × Json) → List (String × Json))
    (front rest : List String) (document : Json) :
    (adjustAt change (front ++ rest) document).at? front
      = (document.at? front).map (adjustAt change rest) := by
  induction front generalizing document with
  | nil => rw [List.nil_append, Json.at?_nil, Json.at?_nil, Option.map_some]
  | cons key front ih =>
    cases document with
    | obj outer =>
      rw [Json.at?_cons_obj]
      cases hget : Entries.get? key outer with
      | none =>
        simp only [List.cons_append, adjustAt, hget]
        rw [Json.at?_cons_obj, hget]
        rfl
      | some inner =>
        simp only [List.cons_append, adjustAt, hget]
        rw [Json.at?_cons_obj, Entries.get?_insert_self, Option.bind_some, Option.bind_some, ih inner]
    | _ => rfl

theorem at?_adjustAt (change : List (String × Json) → List (String × Json)) (keys : List String)
    (document : Json) (members : List (String × Json))
    (h : document.at? keys = some (.obj members)) :
    (adjustAt change keys document).at? keys = some (.obj (change members)) := by
  have hat := at?_adjustAt_append change keys [] document
  rw [List.append_nil, h] at hat
  exact hat

theorem adjustAt_eq_self (change : List (String × Json) → List (String × Json))
    (keys : List String) (document : Json)
    (h : ∀ members, document.at? keys = some (.obj members) → change members = members) :
    adjustAt change keys document = document := by
  induction keys generalizing document with
  | nil =>
    cases document with
    | obj members => simp only [adjustAt, h members (Json.at?_nil _)]
    | _ => rfl
  | cons key rest ih =>
    cases document with
    | obj outer =>
      cases hget : Entries.get? key outer with
      | none => simp only [adjustAt, hget]
      | some inner =>
        have hinner : adjustAt change rest inner = inner := by
          apply ih
          intro members hmembers
          apply h members
          rw [Json.at?_cons_obj, hget, Option.bind_some, hmembers]
        simp only [adjustAt, hget, hinner]
        rw [Entries.insert_of_get? key inner outer hget]
    | _ => rfl

theorem adjustAt_adjustAt (first second : List (String × Json) → List (String × Json))
    (keys : List String) (document : Json) :
    adjustAt second keys (adjustAt first keys document)
      = adjustAt (fun members => second (first members)) keys document := by
  induction keys generalizing document with
  | nil => cases document <;> rfl
  | cons key rest ih =>
    cases document with
    | obj outer =>
      cases hget : Entries.get? key outer with
      | none => simp only [adjustAt, hget]
      | some inner =>
        simp only [adjustAt, hget, Entries.get?_insert_self, Entries.insert_insert, ih]
    | _ => rfl

end Crosswalk.Document
