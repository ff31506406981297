import Mathlib.Data.List.Forall2

/-!
# Successful computations

A sequence of steps succeeds when each of its steps does, and a traversal when
every element does; an error of the first step is the error of the whole.
-/

namespace Crosswalk

variable {α β ε : Type}

theorem bind_eq_ok_iff (first : Except ε α) (next : α → Except ε β) (b : β) :
    (first >>= next) = .ok b ↔ ∃ a, first = .ok a ∧ next a = .ok b := by
  cases first with
  | error e =>
    constructor
    · intro h
      cases h
    · rintro ⟨a, ha, -⟩
      cases ha
  | ok a =>
    constructor
    · intro h
      exact ⟨a, rfl, h⟩
    · rintro ⟨a', ha, h⟩
      cases ha
      exact h

theorem eq_ok_of_toOption (first : Except ε α) (a : α) (h : first.toOption = some a) :
    first = .ok a := by
  cases first with
  | error e => cases h
  | ok result => exact congrArg Except.ok (Option.some.inj h)

theorem mapM_eq_ok_iff (f : α → Except ε β) (inputs : List α) (outputs : List β) :
    inputs.mapM f = .ok outputs ↔ List.Forall₂ (fun a b => f a = .ok b) inputs outputs := by
  induction inputs generalizing outputs with
  | nil =>
    rw [List.mapM_nil, List.forall₂_nil_left_iff]
    exact ⟨fun h => (Except.ok.inj h).symm, fun h => congrArg Except.ok h.symm⟩
  | cons a rest ih =>
    rw [List.mapM_cons, bind_eq_ok_iff, List.forall₂_cons_left_iff]
    constructor
    · rintro ⟨b, hb, hrest⟩
      obtain ⟨others, hothers, hall⟩ := (bind_eq_ok_iff _ _ _).1 hrest
      exact ⟨b, others, hb, (ih others).1 hothers, (Except.ok.inj hall).symm⟩
    · rintro ⟨b, others, hb, hothers, rfl⟩
      exact ⟨b, hb, (bind_eq_ok_iff _ _ _).2 ⟨others, (ih others).2 hothers, rfl⟩⟩

theorem bind_eq_error_iff (first : Except ε α) (next : α → Except ε β) (e : ε) :
    (first >>= next) = .error e ↔
      first = .error e ∨ ∃ a, first = .ok a ∧ next a = .error e := by
  cases first with
  | error fault =>
    constructor
    · intro h
      cases h
      exact Or.inl rfl
    · rintro (h | ⟨a, ha, -⟩)
      · cases h
        rfl
      · cases ha
  | ok a =>
    constructor
    · intro h
      exact Or.inr ⟨a, rfl, h⟩
    · rintro (h | ⟨a', ha, h⟩)
      · cases h
      · cases ha
        exact h

theorem map_eq_ok_iff (f : α → β) (first : Except ε α) (b : β) :
    first.map f = .ok b ↔ ∃ a, first = .ok a ∧ f a = b := by
  cases first with
  | error fault =>
    constructor
    · intro h
      cases h
    · rintro ⟨a, ha, -⟩
      cases ha
  | ok a =>
    constructor
    · intro h
      exact ⟨a, rfl, Except.ok.inj h⟩
    · rintro ⟨a', ha, h⟩
      cases ha
      exact congrArg Except.ok h

theorem map_eq_error_iff (f : α → β) (first : Except ε α) (e : ε) :
    first.map f = .error e ↔ first = .error e := by
  cases first with
  | error fault => exact ⟨fun h => congrArg Except.error (Except.error.inj h), fun h =>
      congrArg Except.error (Except.error.inj h)⟩
  | ok a =>
    constructor <;>
    · intro h
      cases h

theorem map_map {γ : Type} (f : α → β) (g : β → γ) (first : Except ε α) :
    (first.map f).map g = first.map (g ∘ f) := by
  cases first <;> rfl

theorem mapM_map_results {γ : Type} (f : α → Except ε β) (g : β → γ) (inputs : List α) :
    (inputs.mapM fun a => (f a).map g) = (inputs.mapM f).map (List.map g) := by
  induction inputs with
  | nil => rfl
  | cons a rest ih =>
    rw [List.mapM_cons, List.mapM_cons, ih]
    cases f a with
    | error e => rfl
    | ok b => cases rest.mapM f <;> rfl

theorem mapM_congr {f g : α → Except ε β} {inputs : List α} (h : ∀ a ∈ inputs, f a = g a) :
    inputs.mapM f = inputs.mapM g := by
  induction inputs with
  | nil => rfl
  | cons a rest ih =>
    have hfirst := h a List.mem_cons_self
    have hrest := ih fun b hb => h b (List.mem_cons_of_mem a hb)
    rw [List.mapM_cons, List.mapM_cons, hfirst, hrest]

theorem mapM_congr_forall₂ {R : α → β → Prop} {γ : Type} {f : α → Except ε γ}
    {g : β → Except ε γ} {as : List α} {bs : List β} (h : List.Forall₂ R as bs)
    (hsame : ∀ a b, R a b → f a = g b) : as.mapM f = bs.mapM g := by
  induction h with
  | nil => rfl
  | cons hfirst _ ih => rw [List.mapM_cons, List.mapM_cons, hsame _ _ hfirst, ih]

theorem exists_of_mapM_eq_error (f : α → Except ε β) (inputs : List α) (e : ε)
    (h : inputs.mapM f = .error e) : ∃ a ∈ inputs, f a = .error e := by
  induction inputs with
  | nil => cases h
  | cons a rest ih =>
    rw [List.mapM_cons, bind_eq_error_iff] at h
    rcases h with hfirst | ⟨b, -, hrest⟩
    · exact ⟨a, List.mem_cons_self, hfirst⟩
    · rcases (bind_eq_error_iff _ _ _).1 hrest with hothers | ⟨others, -, hnone⟩
      · obtain ⟨a', hmem, ha'⟩ := ih hothers
        exact ⟨a', List.mem_cons_of_mem a hmem, ha'⟩
      · cases hnone

theorem exists_of_mem_forall₂ {R : α → β → Prop} {as : List α} {bs : List β}
    (h : List.Forall₂ R as bs) (b : β) (hb : b ∈ bs) : ∃ a ∈ as, R a b := by
  induction h with
  | nil => cases hb
  | cons hfirst _ ih =>
    rcases List.mem_cons.1 hb with rfl | hrest
    · exact ⟨_, List.mem_cons_self, hfirst⟩
    · obtain ⟨a, ha, hR⟩ := ih hrest
      exact ⟨a, List.mem_cons_of_mem _ ha, hR⟩

end Crosswalk
