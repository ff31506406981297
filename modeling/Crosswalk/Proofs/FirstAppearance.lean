import Mathlib.Data.List.Basic

/-!
# Distinct values in order of first appearance

`FirstAppearances` says of a list that it names every value of another list once,
an earlier value before a later one. Erasing duplicates yields such a list.
-/

namespace Crosswalk

/-- The distinct values of the list, in the order in which they first appear in it. -/
def FirstAppearances (values distinct : List String) : Prop :=
  (∀ value, value ∈ distinct ↔ value ∈ values) ∧
    distinct.Pairwise fun a b => values.idxOf a < values.idxOf b

theorem FirstAppearances.nodup {values distinct : List String}
    (h : FirstAppearances values distinct) : distinct.Nodup := by
  apply h.2.imp
  intro a b hlt heq
  rw [heq] at hlt
  exact Nat.lt_irrefl _ hlt

theorem idxOf_lt_of_filter (keep : String → Bool) (values : List String) {a b : String}
    (ha : keep a = true) (hb : keep b = true)
    (h : (values.filter keep).idxOf a < (values.filter keep).idxOf b) :
    values.idxOf a < values.idxOf b := by
  induction values with
  | nil => exact absurd h (Nat.lt_irrefl _)
  | cons first rest ih =>
    by_cases hkeep : keep first = true
    · rw [List.filter_cons_of_pos hkeep] at h
      by_cases hfirst : first = b
      · subst hfirst
        rw [List.idxOf_cons_self] at h
        exact absurd h (Nat.not_lt_zero _)
      · rw [List.idxOf_cons_ne _ hfirst] at h ⊢
        by_cases hsame : first = a
        · subst hsame
          rw [List.idxOf_cons_self]
          exact Nat.succ_pos _
        · rw [List.idxOf_cons_ne _ hsame] at h ⊢
          exact Nat.succ_lt_succ (ih (Nat.lt_of_succ_lt_succ h))
    · rw [List.filter_cons_of_neg hkeep] at h
      have hfirsta : first ≠ a := by
        intro heq
        rw [heq] at hkeep
        exact hkeep ha
      have hfirstb : first ≠ b := by
        intro heq
        rw [heq] at hkeep
        exact hkeep hb
      rw [List.idxOf_cons_ne _ hfirsta, List.idxOf_cons_ne _ hfirstb]
      exact Nat.succ_lt_succ (ih h)

theorem pairwise_idxOf_eraseDups (values : List String) :
    values.eraseDups.Pairwise fun a b => values.idxOf a < values.idxOf b := by
  -- the recursion passes over the values that equal the head, so it is on the length
  induction hlength : values.length using Nat.strongRecOn generalizing values with
  | ind n ih =>
    cases values with
    | nil => exact List.Pairwise.nil
    | cons first rest =>
      rw [List.eraseDups_cons]
      have hothers : ∀ b ∈ (rest.filter fun b => !b == first).eraseDups, b ≠ first := by
        intro b hb
        have hkept := (List.mem_filter.1 (List.mem_eraseDups.1 hb)).2
        intro heq
        rw [heq, beq_self_eq_true] at hkept
        cases hkept
      constructor
      · intro b hb
        rw [List.idxOf_cons_self, List.idxOf_cons_ne _ (hothers b hb).symm]
        exact Nat.succ_pos _
      · have hshorter : (rest.filter fun b => !b == first).length < n := by
          have hle := List.length_filter_le (fun b => !b == first) rest
          rw [List.length_cons] at hlength
          omega
        apply List.Pairwise.imp_of_mem ?_ (ih _ hshorter _ rfl)
        intro a b ha hb hlt
        have hkeep : ∀ c : String, c ≠ first → (!c == first) = true := by
          intro c hc
          rw [Bool.not_eq_true', beq_eq_false_iff_ne]
          exact hc
        rw [List.idxOf_cons_ne _ (hothers a ha).symm, List.idxOf_cons_ne _ (hothers b hb).symm]
        exact Nat.succ_lt_succ (idxOf_lt_of_filter (fun c => !c == first) rest
          (hkeep a (hothers a ha)) (hkeep b (hothers b hb)) hlt)

theorem firstAppearances_eraseDups (values : List String) :
    FirstAppearances values values.eraseDups :=
  ⟨fun _ => List.mem_eraseDups, pairwise_idxOf_eraseDups values⟩

end Crosswalk
