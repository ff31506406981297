import Crosswalk.Proofs.Walk

/-!
# Removing an array

An array that is removed takes its key along, and its parent's key as well if
the parent is left empty. The root stays, and so does everything above the
parent, even where it is left empty in turn.
-/

namespace Crosswalk.Document

/-- How a document looks after the array at the target has been removed. -/
structure Removed (target : Path) (before after : Json) : Prop where
  absent : before.at? target.keys = none → after = before
  gone : after.at? target.keys = none
  /-- The root, and a parent with other keys, lose the key of the array only. -/
  stays : ∀ members, before.at? target.keys ≠ none →
    before.at? target.parents = some (.obj members) →
    target.parents = [] ∨ Entries.erase target.leaf members ≠ [] →
    after.at? target.parents = some (.obj (Entries.erase target.leaf members))
  /-- A parent that is left empty goes, and the object that held it loses no other key. -/
  compacts : ∀ members above parent, before.at? target.keys ≠ none →
    before.at? target.parents = some (.obj members) → Entries.erase target.leaf members = [] →
    target.parents = above ++ [parent] →
    ∃ outer, before.at? above = some (.obj outer) ∧
      after.at? above = some (.obj (Entries.erase parent outer))

theorem at?_above_of_erase (leaf parent : String) (above : List String) (document : Json)
    (members : List (String × Json)) (h : document.at? (above ++ [parent]) = some (.obj members)) :
    ∃ outer, document.at? above = some (.obj outer) ∧
      (adjustAt (Entries.erase leaf) (above ++ [parent]) document).at? above
        = some (.obj (Entries.insert parent (.obj (Entries.erase leaf members)) outer)) := by
  obtain ⟨outer, hobject, hget⟩ := Json.exists_of_at?_concat above parent document _ h
  refine ⟨outer, hobject, ?_⟩
  rw [at?_adjustAt_append, hobject]
  simp only [Option.map_some, adjustAt, hget]

theorem removed_of_at?_eq_none (target : Path) (document : Json)
    (h : document.at? target.keys = none) : Removed target document document where
  absent := fun _ => rfl
  gone := h
  stays := fun _ hpresent => absurd h hpresent
  compacts := fun _ _ _ hpresent => absurd h hpresent

theorem removed_of_stays (target : Path) (document : Json) (members : List (String × Json))
    (hpresent : document.at? target.keys ≠ none)
    (hparents : document.at? target.parents = some (.obj members))
    (hkeeps : target.parents = [] ∨ Entries.erase target.leaf members ≠ []) :
    Removed target document (adjustAt (Entries.erase target.leaf) target.parents document) := by
  have hafter := at?_adjustAt (Entries.erase target.leaf) target.parents document members hparents
  refine ⟨fun habsent => absurd habsent hpresent, ?_, ?_, ?_⟩
  · rw [Path.keys, Json.at?_concat_of_at? _ _ _ _ hafter]
    exact Entries.get?_erase_self target.leaf members
  · intro members' _ hmembers' _
    rw [hparents, Option.some.injEq, Json.obj.injEq] at hmembers'
    rw [← hmembers']
    exact hafter
  · intro members' above parent _ hmembers' hempty habove
    rw [hparents, Option.some.injEq, Json.obj.injEq] at hmembers'
    rcases hkeeps with hroot | hother
    · rw [hroot] at habove
      exact absurd habove (List.append_ne_nil_of_right_ne_nil above (List.cons_ne_nil _ _)).symm
    · rw [hmembers'] at hother
      exact absurd hempty hother

theorem removed_of_compacts (target : Path) (document : Json) (members : List (String × Json))
    (above : List String) (parent : String) (hpresent : document.at? target.keys ≠ none)
    (hparents : document.at? target.parents = some (.obj members))
    (hempty : Entries.erase target.leaf members = []) (habove : target.parents = above ++ [parent]) :
    Removed target document (adjustAt (eraseIfEmpty parent) above
      (adjustAt (Entries.erase target.leaf) target.parents document)) := by
  rw [habove] at hparents ⊢
  obtain ⟨outer, hobject, hemptied⟩ := at?_above_of_erase target.leaf parent above document members
    hparents
  have hafter := at?_adjustAt (eraseIfEmpty parent) above _ _ hemptied
  rw [hempty] at hafter
  have herase : eraseIfEmpty parent (Entries.insert parent (.obj []) outer)
      = Entries.erase parent outer := by
    simp only [eraseIfEmpty, Entries.get?_insert_self, Option.any_some, isEmptyObject, if_true,
      Entries.erase_insert]
  rw [herase] at hafter
  refine ⟨fun habsent => absurd habsent hpresent, ?_, ?_, ?_⟩
  · have hgone : Json.at? (above ++ [parent]) (adjustAt (eraseIfEmpty parent) above
        (adjustAt (Entries.erase target.leaf) (above ++ [parent]) document)) = none := by
      rw [Json.at?_concat_of_at? above parent _ _ hafter]
      exact Entries.get?_erase_self parent outer
    rw [Path.keys, habove, Json.at?_append, hgone]
    rfl
  · intro members' _ hmembers' hkeeps
    rw [habove, hparents, Option.some.injEq, Json.obj.injEq] at hmembers'
    rw [← hmembers', hempty, habove] at hkeeps
    rcases hkeeps with hroot | hother
    · exact absurd hroot (List.append_ne_nil_of_right_ne_nil above (List.cons_ne_nil _ _))
    · exact absurd rfl hother
  · intro members' above' parent' _ _ _ habove'
    rw [habove] at habove'
    obtain ⟨hfront, hlast⟩ := List.append_inj' habove' rfl
    obtain ⟨rfl⟩ := hlast
    subst hfront
    exact ⟨outer, hobject, hafter⟩

theorem removed_removeArray (target : Path) (document : Json) :
    Removed target document (removeArray target document) := by
  cases hat : document.at? target.keys with
  | none =>
    simp only [removeArray, hat, Option.isNone_none, if_true]
    exact removed_of_at?_eq_none target document hat
  | some value =>
    have hpresent : document.at? target.keys ≠ none := by
      rw [hat]
      exact Option.some_ne_none value
    obtain ⟨members, hparents, -⟩ := Json.exists_of_at?_concat target.parents target.leaf document
      value hat
    simp only [removeArray, hat, Option.isNone_some, Bool.false_eq_true, if_false]
    cases hreverse : target.parents.reverse with
    | nil =>
      exact removed_of_stays target document members hpresent hparents
        (Or.inl (List.reverse_eq_nil_iff.1 hreverse))
    | cons parent above =>
      have habove : target.parents = above.reverse ++ [parent] := by
        rw [← List.reverse_reverse target.parents, hreverse, List.reverse_cons]
      by_cases hempty : Entries.erase target.leaf members = []
      · exact removed_of_compacts target document members above.reverse parent hpresent hparents
          hempty habove
      · have hkept : adjustAt (eraseIfEmpty parent) above.reverse
              (adjustAt (Entries.erase target.leaf) target.parents document)
            = adjustAt (Entries.erase target.leaf) target.parents document := by
          apply adjustAt_eq_self
          intro outer houter
          rw [habove] at hparents houter
          obtain ⟨_, _, hemptied⟩ := at?_above_of_erase target.leaf parent above.reverse document
            members hparents
          rw [hemptied, Option.some.injEq, Json.obj.injEq] at houter
          rw [← houter]
          cases herase : Entries.erase target.leaf members with
          | nil => exact absurd herase hempty
          | cons entry rest =>
            simp only [eraseIfEmpty, Entries.get?_insert_self, Option.any_some, isEmptyObject,
              Bool.false_eq_true, if_false]
        simp only [hkept]
        exact removed_of_stays target document members hpresent hparents (Or.inr hempty)

end Crosswalk.Document
