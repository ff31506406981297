import Crosswalk.Json.Canonical
import Mathlib.Data.List.Nodup
import Mathlib.Data.List.Perm.Basic

/-!
# Equality up to key order

`Reordered` relates two values that differ in the order of object members only,
at any depth. For values without repeated keys it holds exactly when the
canonical forms are the same (`canonical_eq_iff`).
-/

namespace Crosswalk.Json

mutual

/-- The second value is the first with the members of objects, at any depth, in another order. -/
inductive Reordered : Json → Json → Prop where
  | same (value : Json) : Reordered value value
  | arr {as bs : List Json} (h : ReorderedItems as bs) : Reordered (.arr as) (.arr bs)
  | obj {as cs bs : List (String × Json)} (h : ReorderedMembers as cs) (hperm : cs.Perm bs) :
      Reordered (.obj as) (.obj bs)

inductive ReorderedItems : List Json → List Json → Prop where
  | nil : ReorderedItems [] []
  | cons {a b : Json} {as bs : List Json} (h : Reordered a b) (hrest : ReorderedItems as bs) :
      ReorderedItems (a :: as) (b :: bs)

inductive ReorderedMembers : List (String × Json) → List (String × Json) → Prop where
  | nil : ReorderedMembers [] []
  | cons {a b : Json} {as bs : List (String × Json)} (key : String) (h : Reordered a b)
      (hrest : ReorderedMembers as bs) : ReorderedMembers ((key, a) :: as) ((key, b) :: bs)

end

/-! ### Sorting members -/

theorem canonicalMembers_eq_map (members : List (String × Json)) :
    canonicalMembers members = members.map fun member => (member.1, canonical member.2) := by
  induction members with
  | nil => rfl
  | cons member rest ih =>
    obtain ⟨key, value⟩ := member
    simp only [canonicalMembers, List.map_cons, ih]

theorem keys_canonicalMembers (members : List (String × Json)) :
    Entries.keys (canonicalMembers members) = Entries.keys members := by
  rw [canonicalMembers_eq_map, Entries.keys, Entries.keys, List.map_map]
  rfl

theorem sortMembers_perm (members : List (String × Json)) : (sortMembers members).Perm members :=
  List.mergeSort_perm members _

theorem sortMembers_pairwise (members : List (String × Json)) :
    (sortMembers members).Pairwise fun a b => a.1 ≤ b.1 := by
  refine (List.pairwise_mergeSort ?_ ?_ members).imp of_decide_eq_true
  · intro a b c hab hbc
    exact decide_eq_true (String.le_trans (of_decide_eq_true hab) (of_decide_eq_true hbc))
  · intro a b
    rcases String.le_total a.1 b.1 with hab | hba
    · simp only [hab, decide_true, Bool.true_or]
    · simp only [hba, decide_true, Bool.or_true]

theorem sortMembers_eq_of_perm {as bs : List (String × Json)} (hdistinct : Entries.Distinct as)
    (hperm : as.Perm bs) : sortMembers as = sortMembers bs := by
  have hsorted : (sortMembers as).Perm (sortMembers bs) :=
    (sortMembers_perm as).trans (hperm.trans (sortMembers_perm bs).symm)
  have hsame : ∀ a b : String × Json, a ∈ sortMembers as → b ∈ sortMembers bs →
      a.1 ≤ b.1 → b.1 ≤ a.1 → a = b := by
    intro a b ha hb hab hba
    have hmem : b ∈ as := (sortMembers_perm as).subset (hsorted.symm.subset hb)
    exact List.inj_on_of_nodup_map hdistinct ((sortMembers_perm as).subset ha) hmem
      (String.le_antisymm hab hba)
  exact List.Perm.eq_of_pairwise hsame (sortMembers_pairwise as) (sortMembers_pairwise bs) hsorted

/-! ### Canonical forms of reordered values -/

theorem ReorderedMembers.keys_eq {as bs : List (String × Json)} (h : ReorderedMembers as bs) :
    Entries.keys as = Entries.keys bs := by
  induction as generalizing bs with
  | nil =>
    cases h
    rfl
  | cons member rest ih =>
    cases h with
    | cons key h hrest =>
      have hkeys := ih hrest
      simp only [Entries.keys] at hkeys
      simp only [Entries.keys, List.map_cons, hkeys]

mutual

theorem Reordered.canonical_eq {a b : Json} (h : Reordered a b) (hdistinct : DistinctKeys a) :
    canonical a = canonical b := by
  match h with
  | .same _ => rfl
  | .arr hitems => rw [canonical, canonical, hitems.canonical_eq hdistinct]
  | .obj hmembers hperm =>
    have hkeys := hmembers.keys_eq
    have hcanonical := hmembers.canonical_eq hdistinct.2
    rw [canonical, canonical, hcanonical]
    apply congrArg Json.obj
    apply sortMembers_eq_of_perm
    · rw [Entries.Distinct, keys_canonicalMembers, ← hkeys]
      exact hdistinct.1
    · rw [canonicalMembers_eq_map, canonicalMembers_eq_map]
      exact hperm.map _

theorem ReorderedItems.canonical_eq {as bs : List Json} (h : ReorderedItems as bs)
    (hdistinct : DistinctKeysItems as) : canonicalItems as = canonicalItems bs := by
  match h with
  | .nil => rfl
  | .cons hfirst hrest =>
    rw [canonicalItems, canonicalItems, hfirst.canonical_eq hdistinct.1,
      hrest.canonical_eq hdistinct.2]

theorem ReorderedMembers.canonical_eq {as bs : List (String × Json)} (h : ReorderedMembers as bs)
    (hdistinct : DistinctKeysMembers as) : canonicalMembers as = canonicalMembers bs := by
  match h with
  | .nil => rfl
  | .cons key hfirst hrest =>
    rw [canonicalMembers, canonicalMembers, hfirst.canonical_eq hdistinct.1,
      hrest.canonical_eq hdistinct.2]

end

/-! ### Values with the same canonical form -/

/-- What has the same sorted canonical members is a permutation of members that match one by
one. -/
theorem exists_perm_of_sortMembers_eq {as bs : List (String × Json)}
    (h : sortMembers (canonicalMembers as) = sortMembers (canonicalMembers bs)) :
    ∃ cs : List (String × Json), canonicalMembers as = canonicalMembers cs ∧ cs.Perm bs := by
  have hperm : (canonicalMembers as).Perm (canonicalMembers bs) := by
    refine (sortMembers_perm _).symm.trans ?_
    rw [h]
    exact sortMembers_perm _
  rw [canonicalMembers_eq_map bs] at hperm
  have hcomp := (congrFun (congrFun (List.eq_map_comp_perm _) (canonicalMembers as)) bs).mpr hperm
  obtain ⟨cs, himage, hcs⟩ := hcomp
  exact ⟨cs, himage.trans (canonicalMembers_eq_map cs).symm, hcs⟩

mutual

theorem reordered_of_canonical_eq (a b : Json) (h : canonical a = canonical b) :
    Reordered a b := by
  cases a with
  | arr as =>
    cases b with
    | arr bs =>
      rw [canonical, canonical, Json.arr.injEq] at h
      exact .arr (reorderedItems_of_canonical_eq as bs h)
    | _ => simp only [canonical, reduceCtorEq] at h
  | obj as =>
    cases b with
    | obj bs =>
      rw [canonical, canonical, Json.obj.injEq] at h
      obtain ⟨cs, hcanonical, hperm⟩ := exists_perm_of_sortMembers_eq h
      exact .obj (reorderedMembers_of_canonical_eq as cs hcanonical) hperm
    | _ => simp only [canonical, reduceCtorEq] at h
  | _ =>
    cases b with
    | arr bs => simp only [canonical, reduceCtorEq] at h
    | obj bs => simp only [canonical, reduceCtorEq] at h
    | _ => exact Eq.mp (congrArg (Reordered _) h) (.same _)

theorem reorderedItems_of_canonical_eq (as bs : List Json)
    (h : canonicalItems as = canonicalItems bs) : ReorderedItems as bs := by
  cases as with
  | nil =>
    cases bs with
    | nil => exact .nil
    | cons b bs => simp only [canonicalItems, reduceCtorEq] at h
  | cons a as =>
    cases bs with
    | nil => simp only [canonicalItems, reduceCtorEq] at h
    | cons b bs =>
      rw [canonicalItems, canonicalItems, List.cons.injEq] at h
      exact .cons (reordered_of_canonical_eq a b h.1) (reorderedItems_of_canonical_eq as bs h.2)

theorem reorderedMembers_of_canonical_eq (as bs : List (String × Json))
    (h : canonicalMembers as = canonicalMembers bs) : ReorderedMembers as bs := by
  cases as with
  | nil =>
    cases bs with
    | nil => exact .nil
    | cons b bs => simp only [canonicalMembers, reduceCtorEq] at h
  | cons a as =>
    cases bs with
    | nil => simp only [canonicalMembers, reduceCtorEq] at h
    | cons b bs =>
      rw [canonicalMembers, canonicalMembers, List.cons.injEq, Prod.mk.injEq] at h
      obtain ⟨⟨hkey, hvalue⟩, hrest⟩ := h
      obtain ⟨key, a⟩ := a
      obtain ⟨key', b⟩ := b
      subst hkey
      exact .cons key (reordered_of_canonical_eq a b hvalue)
        (reorderedMembers_of_canonical_eq as bs hrest)

end

theorem canonical_eq_iff (a b : Json) (hdistinct : DistinctKeys a) :
    canonical a = canonical b ↔ Reordered a b :=
  ⟨reordered_of_canonical_eq a b, fun h => h.canonical_eq hdistinct⟩

end Crosswalk.Json
