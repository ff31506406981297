import Crosswalk.Proofs.Entries
import Crosswalk.Proofs.WrittenValues

/-!
# Forms are read back

An object without repeated keys fills each slot of a form with what it stores under the
name of the slot. Each reader undoes the way in which its part is written: a part that is
left out when it is absent or empty is one whose slot stands for just that when it is
empty. How deep a form nests, and whether it is legible, can be told from its parts.
-/

namespace Crosswalk

variable {α : Type}

namespace Json

/-! ### Slots -/

theorem named_eq_nil (key : String) (members : List (String × Json))
    (h : key ∉ Entries.keys members) : named key members = [] := by
  refine List.filter_eq_nil_iff.2 fun m hm => ?_
  have hne : m.1 ≠ key := fun he => h (he ▸ List.mem_map_of_mem hm)
  simpa using hne

theorem slot?_of_distinct (members : List (String × Json)) (field : String)
    (h : Entries.Distinct members) : slot? members field = some (Entries.get? field members) := by
  induction members with
  | nil => rfl
  | cons m rest ih =>
    obtain ⟨key, value⟩ := m
    obtain ⟨hkey, hrest⟩ := List.nodup_cons.1 h
    by_cases he : key = field
    · have hnil := named_eq_nil field rest (by rw [← he]; exact hkey)
      have hnamed : named field ((key, value) :: rest) = [(key, value)] := by
        rw [named, List.filter_cons_of_pos (by simpa using he), ← named, hnil]
      rw [slot?, hnamed, Entries.get?, if_pos he]
    · have hnamed : named field ((key, value) :: rest) = named field rest := by
        rw [named, List.filter_cons_of_neg (by simpa using he), ← named]
      rw [slot?, hnamed, ← slot?, ih hrest, Entries.get?, if_neg he]

theorem slots?_of_distinct (fields : List String) (members : List (String × Json))
    (h : Entries.Distinct members) :
    slots? fields (.obj members) = some (fields.map fun field => Entries.get? field members) := by
  rw [slots?]
  induction fields with
  | nil => rfl
  | cons field rest ih =>
    rw [List.mapM_cons, slot?_of_distinct members field h, ih]
    rfl

/-! ### Parts that may be left out -/

theorem optional_map (read : Json → Option α) (write : α → Json) (part : Option α)
    (hread : ∀ a, read (write a) = some a) (hnull : ∀ a, write a ≠ .null) :
    optional read (part.map write) = some part := by
  cases part with
  | none => rfl
  | some a =>
    rw [Option.map_some, optional, hread a]
    · rfl
    · exact hnull a

theorem optional_string (part : Option String) : optional string? (part.map .str) = some part :=
  optional_map string? .str part (fun _ => rfl) fun _ h => by cases h

theorem optional_choice (choices : List (String × α)) (name : α → String) (part : Option α)
    (h : ∀ a, Entries.get? (name a) choices = some a) :
    optional (choice? choices) (part.map fun a => .str (name a)) = some part :=
  optional_map (choice? choices) (fun a => .str (name a)) part h fun _ hnull => by cases hnull

theorem orElse_nil (read : Json → Option (List α)) (value : Json) (items : List α)
    (h : read value = some items) :
    orElse [] read (if items.isEmpty then none else some value) = some items := by
  cases items with
  | nil => rfl
  | cons item rest => exact h

/-! ### Lists and tables -/

theorem mapM_of_forall {β γ : Type} (read : β → Option γ) (write : γ → β) (items : List γ)
    (h : ∀ a ∈ items, read (write a) = some a) : (items.map write).mapM read = some items := by
  induction items with
  | nil => rfl
  | cons a rest ih =>
    rw [List.map_cons, List.mapM_cons, h a List.mem_cons_self,
      ih fun b hb => h b (List.mem_cons_of_mem a hb)]
    rfl

theorem list?_map (read : Json → Option α) (write : α → Json) (items : List α)
    (h : ∀ a ∈ items, read (write a) = some a) :
    list? read (.arr (items.map write)) = some items :=
  mapM_of_forall read write items h

theorem list?_strings (texts : List String) : list? string? (.arr (texts.map .str)) = some texts :=
  list?_map string? .str texts fun _ _ => rfl

theorem table?_map (read : Json → Option α) (write : α → Json) (table : List (String × α))
    (hdistinct : Entries.Distinct table) (h : ∀ entry ∈ table, read (write entry.2) = some entry.2) :
    table? read (.obj (table.map fun entry => (entry.1, write entry.2))) = some table := by
  have hentries := mapM_of_forall
    (fun m : String × Json => (read m.2).map fun v => (m.1, v))
    (fun entry : String × α => (entry.1, write entry.2)) table
    (fun entry hentry => by simp only [h entry hentry, Option.map_some])
  rw [table?, hentries, Option.map_some, Entries.ofPairs_of_distinct table hdistinct]

/-! ### What has been read -/

theorem forall_of_mapM {β γ : Type} (read : β → Option γ) (P : γ → Prop)
    (h : ∀ b a, read b = some a → P a) (values : List β) (items : List γ)
    (hread : values.mapM read = some items) : ∀ a ∈ items, P a := by
  induction values generalizing items with
  | nil =>
    cases hread
    exact List.forall_mem_nil _
  | cons b rest ih =>
    rw [List.mapM_cons] at hread
    simp only [Option.bind_eq_bind, Option.bind_eq_some_iff] at hread
    obtain ⟨a, ha, others, hothers, hitems⟩ := hread
    cases hitems
    exact List.forall_mem_cons.2 ⟨h b a ha, ih others hothers⟩

theorem forall_of_list? (read : Json → Option α) (P : α → Prop)
    (h : ∀ value a, read value = some a → P a) (value : Json) (items : List α)
    (hread : list? read value = some items) : ∀ a ∈ items, P a := by
  cases value with
  | arr values => exact forall_of_mapM read P h values items hread
  | _ => cases hread

theorem forall_of_orElse_list? (read : Json → Option α) (P : α → Prop)
    (h : ∀ value a, read value = some a → P a) (slot : Option Json) (items : List α)
    (hread : orElse [] (list? read) slot = some items) : ∀ a ∈ items, P a := by
  cases slot with
  | none =>
    cases hread
    exact List.forall_mem_nil _
  | some value => exact forall_of_list? read P h value items hread

theorem eq_none_or_exists_of_optional (read : Json → Option α) (slot : Option Json)
    (part : Option α) (h : optional read slot = some part) :
    part = none ∨ ∃ value a, read value = some a ∧ part = some a := by
  unfold optional at h
  split at h
  · exact Or.inl (Option.some.inj h).symm
  · exact Or.inl (Option.some.inj h).symm
  · rename_i value _
    obtain ⟨a, ha, rfl⟩ := Option.map_eq_some_iff.1 h
    exact Or.inr ⟨value, a, ha, rfl⟩

theorem distinct_of_orElse_table? (read : Json → Option α) (slot : Option Json)
    (table : List (String × α)) (hread : orElse [] (table? read) slot = some table) :
    Entries.Distinct table := by
  cases slot with
  | none =>
    cases hread
    exact List.nodup_nil
  | some value =>
    cases value with
    | obj members =>
      rw [orElse, table?, Option.map_eq_some_iff] at hread
      obtain ⟨pairs, -, rfl⟩ := hread
      exact Entries.distinct_ofPairs pairs
    | _ => cases hread

theorem range_of_orElse_int32? (slot : Option Json) (n : Int)
    (hread : orElse 0 int32? slot = some n) : -2147483648 ≤ n ∧ n ≤ 2147483647 := by
  cases slot with
  | none =>
    cases hread
    omega
  | some value =>
    rw [orElse] at hread
    unfold int32? at hread
    split at hread
    · rename_i m
      by_cases hrange : -2147483648 ≤ m ∧ m ≤ 2147483647
      · rw [if_pos hrange] at hread
        cases hread
        exact hrange
      · rw [if_neg hrange] at hread
        cases hread
    · cases hread

/-! ### Depth -/

theorem depthOfItems_le (items : List Json) (n : Nat) :
    depthOfItems items ≤ n ↔ ∀ item ∈ items, item.depth ≤ n := by
  induction items with
  | nil => simp [depthOfItems]
  | cons item rest ih => rw [depthOfItems, Nat.max_le, ih, List.forall_mem_cons]

theorem depthOfMembers_le (members : List (String × Json)) (n : Nat) :
    depthOfMembers members ≤ n ↔ ∀ m ∈ members, m.2.depth ≤ n := by
  induction members with
  | nil => simp [depthOfMembers]
  | cons m rest ih => rw [depthOfMembers, Nat.max_le, ih, List.forall_mem_cons]

theorem depthOfItems_strings (texts : List String) : depthOfItems (texts.map .str) = 0 := by
  rw [← Nat.le_zero, depthOfItems_le, List.forall_mem_map]
  exact fun _ _ => Nat.le_refl 0

/-! ### Legibility -/

theorem legibleItems_iff (items : List Json) :
    LegibleItems items ↔ ∀ item ∈ items, item.Legible := by
  induction items with
  | nil => simp [LegibleItems]
  | cons item rest ih => rw [LegibleItems, ih, List.forall_mem_cons]

theorem legibleMembers_iff (members : List (String × Json)) :
    LegibleMembers members ↔ ∀ m ∈ members, m.2.Legible := by
  induction members with
  | nil => simp [LegibleMembers]
  | cons m rest ih => rw [LegibleMembers, ih, List.forall_mem_cons]

theorem legibleItems_strings (texts : List String) : LegibleItems (texts.map .str) := by
  rw [legibleItems_iff, List.forall_mem_map]
  exact fun _ _ => trivial

end Json

end Crosswalk
