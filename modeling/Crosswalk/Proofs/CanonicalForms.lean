import Crosswalk.Proofs.KeyOrder
import Crosswalk.Proofs.Walk

/-!
# Canonical forms

Sorting the members of every object takes nothing away: the canonical form is the value
itself with its keys in another order, and at each place of the value, through keys and
through items, there stands the canonical form of what stood there. What two values have
in common by their canonical forms is therefore all that they have but for the order of
keys.
-/

namespace Crosswalk

namespace Json

/-! ### Places in a value -/

inductive Step where
  | key (name : String)
  | item (index : Nat)

def inside? : List Step → Json → Option Json
  | [], value => some value
  | .key name :: rest, .obj members => (Entries.get? name members).bind (inside? rest)
  | .item index :: rest, .arr items => items[index]?.bind (inside? rest)
  | _ :: _, _ => none

theorem get?_sortMembers_canonicalMembers (key : String) (members : List (String × Json))
    (hdistinct : Entries.Distinct members) :
    Entries.get? key (sortMembers (canonicalMembers members))
      = (Entries.get? key members).map canonical := by
  have hkeys : Entries.Distinct (canonicalMembers members) := by
    rw [Entries.Distinct, keys_canonicalMembers]
    exact hdistinct
  rw [← Entries.get?_of_perm key hkeys (sortMembers_perm _).symm, canonicalMembers_eq_map]
  exact Entries.get?_mapValues canonical key members

theorem inside?_canonical (place : List Step) (value : Json) (hdistinct : value.DistinctKeys) :
    (canonical value).inside? place = (value.inside? place).map canonical := by
  induction place generalizing value with
  | nil => cases value <;> rfl
  | cons step rest ih =>
    cases value with
    | obj members =>
      cases step with
      | key name =>
        rw [canonical, inside?, inside?,
          get?_sortMembers_canonicalMembers name members hdistinct.1]
        cases hget : Entries.get? name members with
        | none => rfl
        | some inner =>
          exact ih inner (distinctKeysMembers_get? name members inner hdistinct.2 hget)
      | item index => rfl
    | arr items =>
      cases step with
      | key name => rfl
      | item index =>
        rw [canonical, canonicalItems_eq_map, inside?, inside?, List.getElem?_map]
        cases hitem : items[index]? with
        | none => rfl
        | some inner =>
          exact ih inner (distinctKeysItems_mem items inner hdistinct (List.mem_of_getElem? hitem))
    | _ => cases step <;> rfl

/-! ### The canonical form of a value -/

mutual

theorem reordered_canonical (value : Json) : Reordered value (canonical value) := by
  match value with
  | .null | .bool _ | .num _ | .str _ => exact .same _
  | .arr items => exact .arr (reorderedItems_canonicalItems items)
  | .obj members =>
    exact .obj (reorderedMembers_canonicalMembers members) (sortMembers_perm _).symm

theorem reorderedItems_canonicalItems (items : List Json) :
    ReorderedItems items (canonicalItems items) := by
  match items with
  | [] => exact .nil
  | item :: rest => exact .cons (reordered_canonical item) (reorderedItems_canonicalItems rest)

theorem reorderedMembers_canonicalMembers (members : List (String × Json)) :
    ReorderedMembers members (canonicalMembers members) := by
  match members with
  | [] => exact .nil
  | (key, value) :: rest =>
    exact .cons key (reordered_canonical value) (reorderedMembers_canonicalMembers rest)

end

/-- For values without repeated keys: canonical forms are the same, the order of keys included, just
for values that are the same up to the order of keys at every depth; to take the canonical form
again changes nothing; and the canonical form is the value in another order of keys, with the
canonical form of the same value at each place, so that no key and no item is lost or made up. -/
theorem canonical_form_forgets_key_order_only (a b : Json) (ha : a.DistinctKeys) :
    (canonical a = canonical b ↔ Reordered a b) ∧
    canonical (canonical a) = canonical a ∧
    Reordered a (canonical a) ∧
    ∀ place, (canonical a).inside? place = (a.inside? place).map canonical := by
  refine ⟨canonical_eq_iff a b ha, ?_, reordered_canonical a, ?_⟩
  · exact ((reordered_canonical a).canonical_eq ha).symm
  · exact fun place => inside?_canonical place a ha

theorem array_order_stays_significant :
    let call : Json := .obj [("b", .num (.int 1)), ("a", .null)]
    let a : Json := .obj [("note", .str "n"), ("codes", .arr [call, .str "x"])]
    let b : Json := .obj
      [("codes", .arr [.obj [("a", .null), ("b", .num (.int 1))], .str "x"]), ("note", .str "n")]
    let c : Json := .obj [("note", .str "n"), ("codes", .arr [.str "x", call])]
    a.DistinctKeys ∧ canonical a = canonical b ∧ canonical a ≠ canonical c ∧
      canonical (canonical a) = canonical a ∧
      (canonical a).inside? [.key "codes", .item 0, .key "b"] = some (.num (.int 1)) := by
  intro call a b c
  have ha : a.DistinctKeys := by
    simp [a, call, DistinctKeys, DistinctKeysMembers, DistinctKeysItems, Entries.Distinct,
      Entries.keys]
  have hc : c.DistinctKeys := by
    simp [c, call, DistinctKeys, DistinctKeysMembers, DistinctKeysItems, Entries.Distinct,
      Entries.keys]
  have hcall : Reordered call (.obj [("a", .null), ("b", .num (.int 1))]) :=
    .obj (.cons "b" (.same _) (.cons "a" (.same _) .nil)) (.swap _ _ _)
  have hcodes := Reordered.arr (.cons hcall (.cons (.same (.str "x")) .nil))
  have hb : Reordered a b :=
    .obj (.cons "note" (.same _) (.cons "codes" hcodes .nil)) (.swap _ _ _)
  obtain ⟨hiff, hagain, -, hplaces⟩ := canonical_form_forgets_key_order_only a b ha
  obtain ⟨-, -, -, hothers⟩ := canonical_form_forgets_key_order_only c c hc
  refine ⟨ha, hiff.2 hb, fun hsame => ?_, hagain, ?_⟩
  · have hobject : (canonical a).inside? [.key "codes", .item 0] = some (canonical call) :=
      hplaces [.key "codes", .item 0]
    have htext : (canonical c).inside? [.key "codes", .item 0] = some (.str "x") :=
      hothers [.key "codes", .item 0]
    rw [hsame, htext, Option.some.injEq] at hobject
    cases hobject
  · exact hplaces [.key "codes", .item 0, .key "b"]

end Json

end Crosswalk
