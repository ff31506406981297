import Crosswalk.Entries

/-!
# Laws of ordered entries

Storing and removing under one key leave the other keys alone: their values, and
the order in which they stand. `SameBut` says so of two tables at once, and is
what the changes of an object are reduced to when a whole document is looked at.
Entries are never made up: each entry of a table that was built by `insert` has
been stored, and a function of the values can be applied before or after.
-/

namespace Crosswalk.Entries

variable {α : Type}

/-! ### One key changed twice -/

theorem insert_of_get? (key : String) (value : α) (m : List (String × α))
    (h : get? key m = some value) : insert key value m = m := by
  induction m with
  | nil => simp only [get?, reduceCtorEq] at h
  | cons entry rest ih =>
    obtain ⟨k, v⟩ := entry
    by_cases hk : k = key
    · simp only [get?, hk, if_true, Option.some.injEq] at h
      simp only [insert, hk, if_true, h]
    · simp only [get?, hk, if_false] at h
      simp only [insert, hk, if_false, ih h]

theorem insert_insert (key : String) (first second : α) (m : List (String × α)) :
    insert key second (insert key first m) = insert key second m := by
  induction m with
  | nil => simp only [insert, if_true]
  | cons entry rest ih =>
    obtain ⟨k, v⟩ := entry
    by_cases hk : k = key
    · simp only [insert, hk, if_true]
    · simp only [insert, hk, if_false, ih]

theorem insert_insert_comm (key other : String) (first second old : α) (m : List (String × α))
    (hne : key ≠ other) (h : get? other m = some old) :
    insert key first (insert other second m) = insert other second (insert key first m) := by
  induction m with
  | nil => cases h
  | cons entry rest ih =>
    obtain ⟨k, v⟩ := entry
    by_cases hkey : k = key
    · have hother : k ≠ other := fun he => hne (hkey.symm.trans he)
      simp only [insert, hkey, hne, if_true, if_false]
    · by_cases hother : k = other
      · simp only [insert, hother, hne.symm, if_true, if_false]
      · simp only [get?, hother, if_false] at h
        simp only [insert, hkey, hother, if_false, ih h]

theorem insert_of_not_mem (key : String) (value : α) (m : List (String × α)) (h : key ∉ keys m) :
    insert key value m = m ++ [(key, value)] := by
  induction m with
  | nil => rfl
  | cons entry rest ih =>
    obtain ⟨k, v⟩ := entry
    obtain ⟨hk, hrest⟩ := not_or.1 (fun hmem => h (List.mem_cons.2 hmem))
    rw [insert, if_neg (fun he => hk he.symm), ih hrest, List.cons_append]

theorem ofPairs_of_distinct (pairs : List (String × α)) (h : Distinct pairs) :
    ofPairs pairs = pairs := by
  have hfold (m : List (String × α)) (hdistinct : Distinct (m ++ pairs)) :
      pairs.foldl (fun m p => insert p.1 p.2 m) m = m ++ pairs := by
    induction pairs generalizing m with
    | nil => exact (List.append_nil m).symm
    | cons p rest ih =>
      have hsplit : m ++ p :: rest = m ++ [p] ++ rest := by
        rw [List.append_assoc, List.singleton_append]
      have hp : p.1 ∉ keys m := by
        rw [Distinct, keys, List.map_append, List.map_cons] at hdistinct
        exact fun hmem => (List.nodup_append.1 hdistinct).2.2 p.1 hmem p.1 List.mem_cons_self rfl
      rw [hsplit] at hdistinct ⊢
      rw [List.foldl_cons, insert_of_not_mem p.1 p.2 m hp]
      exact ih (List.nodup_cons.1 h).2 (m ++ [p]) hdistinct
  exact hfold [] h

theorem erase_erase (key : String) (m : List (String × α)) :
    erase key (erase key m) = erase key m := by
  simp only [erase, List.filter_filter, Bool.and_self]

theorem erase_insert (key : String) (value : α) (m : List (String × α)) :
    erase key (insert key value m) = erase key m := by
  induction m with
  | nil => simp only [insert, erase_cons_self]
  | cons entry rest ih =>
    obtain ⟨k, v⟩ := entry
    by_cases hk : k = key
    · subst hk
      simp only [insert, if_true, erase_cons_self]
    · simp only [insert, hk, if_false, erase_cons_of_ne hk, ih]

/-! ### The other keys -/

/-- The two tables differ at most in the entry of the key: other keys have the same values, and any
selection of other keys has the same order. -/
structure SameBut (key : String) (before after : List (String × α)) : Prop where
  lookup : ∀ other, other ≠ key → get? other after = get? other before
  order : ∀ keep : String → Bool, keep key = false →
    (keys after).filter keep = (keys before).filter keep

theorem filter_keys_insert (key : String) (value : α) (m : List (String × α))
    (keep : String → Bool) (h : keep key = false) :
    (keys (insert key value m)).filter keep = (keys m).filter keep := by
  induction m with
  | nil => simp only [insert, keys, List.map_cons, List.map_nil, List.filter_cons, h,
      Bool.false_eq_true, if_false]
  | cons entry rest ih =>
    obtain ⟨k, v⟩ := entry
    by_cases hk : k = key
    · simp only [insert, hk, if_true, keys, List.map_cons]
    · simp only [keys] at ih
      simp only [insert, hk, if_false, keys, List.map_cons, List.filter_cons, ih]

theorem filter_keys_erase (key : String) (m : List (String × α))
    (keep : String → Bool) (h : keep key = false) :
    (keys (erase key m)).filter keep = (keys m).filter keep := by
  induction m with
  | nil => rfl
  | cons entry rest ih =>
    obtain ⟨k, v⟩ := entry
    simp only [keys] at ih
    by_cases hk : k = key
    · subst hk
      simp only [erase_cons_self, keys, List.map_cons, List.filter_cons, h, Bool.false_eq_true,
        if_false, ih]
    · simp only [erase_cons_of_ne hk, keys, List.map_cons, List.filter_cons, ih]

theorem sameBut_insert (key : String) (value : α) (m : List (String × α)) :
    SameBut key m (insert key value m) :=
  ⟨fun _ h => get?_insert_of_ne h value m, filter_keys_insert key value m⟩

theorem sameBut_erase (key : String) (m : List (String × α)) :
    SameBut key m (erase key m) :=
  ⟨fun _ h => get?_erase_of_ne h m, filter_keys_erase key m⟩

/-! ### Adjusted values -/

def adjust (key : String) (f : α → α) (m : List (String × α)) : List (String × α) :=
  match get? key m with
  | some value => insert key (f value) m
  | none => m

theorem adjust_of_some (key : String) (f : α → α) (m : List (String × α)) (value : α)
    (h : get? key m = some value) : adjust key f m = insert key (f value) m := by
  rw [adjust, h]

theorem adjust_of_none (key : String) (f : α → α) (m : List (String × α))
    (h : get? key m = none) : adjust key f m = m := by
  rw [adjust, h]

theorem get?_adjust_self (key : String) (f : α → α) (m : List (String × α)) :
    get? key (adjust key f m) = (get? key m).map f := by
  cases h : get? key m with
  | none => rw [adjust_of_none key f m h, h, Option.map_none]
  | some value => rw [adjust_of_some key f m value h, get?_insert_self, Option.map_some]

theorem get?_adjust_of_ne {key other : String} (hne : other ≠ key) (f : α → α)
    (m : List (String × α)) : get? other (adjust key f m) = get? other m := by
  cases h : get? key m with
  | none => rw [adjust_of_none key f m h]
  | some value => rw [adjust_of_some key f m value h, get?_insert_of_ne hne]

theorem adjust_eq_self (key : String) (f : α → α) (m : List (String × α))
    (hfix : ∀ value, get? key m = some value → f value = value) : adjust key f m = m := by
  cases h : get? key m with
  | none => exact adjust_of_none key f m h
  | some value =>
    rw [adjust_of_some key f m value h, hfix value h]
    exact insert_of_get? key value m h

theorem adjust_adjust (key : String) (f g : α → α) (m : List (String × α)) :
    adjust key g (adjust key f m) = adjust key (fun value => g (f value)) m := by
  cases h : get? key m with
  | none => rw [adjust_of_none key f m h, adjust_of_none key g m h, adjust_of_none key _ m h]
  | some value =>
    have hagain := get?_adjust_self key f m
    rw [h, Option.map_some] at hagain
    rw [adjust_of_some key g _ _ hagain, adjust_of_some key f m value h,
      adjust_of_some key _ m value h, insert_insert]

theorem adjust_adjust_comm {key other : String} (hne : key ≠ other) (f g : α → α)
    (m : List (String × α)) :
    adjust key f (adjust other g m) = adjust other g (adjust key f m) := by
  have hkey := get?_adjust_of_ne hne g m
  have hother := get?_adjust_of_ne hne.symm f m
  cases h : get? key m with
  | none =>
    rw [adjust_of_none key f m h, adjust_of_none key f _ (hkey.trans h)]
  | some value =>
    cases hs : get? other m with
    | none => rw [adjust_of_none other g m hs, adjust_of_none other g _ (hother.trans hs)]
    | some second =>
      rw [adjust_of_some key f _ value (hkey.trans h), adjust_of_some other g m second hs,
        adjust_of_some other g _ second (hother.trans hs), adjust_of_some key f m value h]
      exact insert_insert_comm key other (f value) (g second) second m hne hs

/-! ### Stored entries -/

theorem mem_insert (key : String) (value : α) (m : List (String × α)) (entry : String × α)
    (h : entry ∈ insert key value m) : entry = (key, value) ∨ entry ∈ m := by
  induction m with
  | nil => exact Or.inl (List.mem_singleton.1 h)
  | cons first rest ih =>
    obtain ⟨k, v⟩ := first
    by_cases hk : k = key
    · rw [insert, if_pos hk] at h
      exact (List.mem_cons.1 h).imp_right (List.mem_cons_of_mem _)
    · rw [insert, if_neg hk] at h
      rcases List.mem_cons.1 h with hfirst | hrest
      · exact Or.inr (hfirst ▸ List.mem_cons_self)
      · exact (ih hrest).imp_right (List.mem_cons_of_mem _)

theorem mem_ofPairs (pairs : List (String × α)) (entry : String × α) (h : entry ∈ ofPairs pairs) :
    entry ∈ pairs := by
  suffices hfold : ∀ m : List (String × α),
      entry ∈ pairs.foldl (fun m p => insert p.1 p.2 m) m → entry ∈ m ∨ entry ∈ pairs from
    (hfold [] h).resolve_left List.not_mem_nil
  clear h
  induction pairs with
  | nil => exact fun m hmem => Or.inl hmem
  | cons p rest ih =>
    intro m hmem
    rcases ih (insert p.1 p.2 m) hmem with hinsert | hrest
    · rcases mem_insert p.1 p.2 m entry hinsert with hnew | hold
      · exact Or.inr (hnew ▸ List.mem_cons_self)
      · exact Or.inl hold
    · exact Or.inr (List.mem_cons_of_mem p hrest)

theorem mem_of_get? (key : String) (value : α) (m : List (String × α))
    (h : get? key m = some value) : (key, value) ∈ m := by
  induction m with
  | nil => cases h
  | cons entry rest ih =>
    obtain ⟨k, v⟩ := entry
    by_cases hk : k = key
    · rw [get?, if_pos hk, Option.some.injEq] at h
      rw [hk, h]
      exact List.mem_cons_self
    · rw [get?, if_neg hk] at h
      exact List.mem_cons_of_mem _ (ih h)

theorem get?_of_mem (key : String) (value : α) (m : List (String × α)) (hdistinct : Distinct m)
    (h : (key, value) ∈ m) : get? key m = some value := by
  induction m with
  | nil => cases h
  | cons entry rest ih =>
    obtain ⟨k, v⟩ := entry
    obtain ⟨hk, hrest⟩ := List.nodup_cons.1 hdistinct
    rcases List.mem_cons.1 h with hfirst | hlater
    · cases hfirst
      rw [get?, if_pos rfl]
    · have hne : k ≠ key := by
        rintro rfl
        exact hk (List.mem_map.2 ⟨_, hlater, rfl⟩)
      rw [get?, if_neg hne, ih hrest hlater]

theorem get?_eq_none_iff (key : String) (m : List (String × α)) :
    get? key m = none ↔ key ∉ keys m := by
  induction m with
  | nil => exact iff_of_true rfl List.not_mem_nil
  | cons entry rest ih =>
    obtain ⟨k, v⟩ := entry
    rw [get?, keys, List.map_cons, List.mem_cons, not_or]
    by_cases hk : k = key
    · exact iff_of_false (by rw [if_pos hk]; exact Option.some_ne_none v) fun h => h.1 hk.symm
    · rw [if_neg hk, ih, keys]
      exact (and_iff_right (Ne.symm hk)).symm

theorem contains_iff (key : String) (m : List (String × α)) :
    contains key m = true ↔ key ∈ keys m := by
  rw [contains, Option.isSome_iff_ne_none, ne_eq, get?_eq_none_iff, Decidable.not_not]

theorem get?_append (key : String) (first second : List (String × α)) :
    get? key (first ++ second) = (get? key first).or (get? key second) := by
  induction first with
  | nil => rfl
  | cons entry rest ih =>
    by_cases hk : entry.1 = key
    · simp [get?, hk]
    · simp [get?, hk, ih]

theorem get?_filter_of_keep (key : String) (keep : String × α → Bool) (m : List (String × α))
    (h : ∀ value, keep (key, value) = true) : get? key (m.filter keep) = get? key m := by
  induction m with
  | nil => rfl
  | cons entry rest ih =>
    obtain ⟨k, v⟩ := entry
    by_cases hk : k = key
    · subst hk
      rw [List.filter_cons_of_pos (h v), get?, get?, if_pos rfl, if_pos rfl]
    · rw [get?, if_neg hk, ← ih, List.filter_cons]
      split
      · rw [get?, if_neg hk]
      · rfl

theorem get?_of_perm (key : String) {as bs : List (String × α)} (hdistinct : Distinct as)
    (hperm : as.Perm bs) : get? key as = get? key bs := by
  have hkeys : (keys as).Perm (keys bs) := hperm.map Prod.fst
  cases h : get? key as with
  | none =>
    have habsent : key ∉ keys bs := fun hmem =>
      (get?_eq_none_iff key as).1 h (hkeys.mem_iff.2 hmem)
    exact ((get?_eq_none_iff key bs).2 habsent).symm
  | some value =>
    have hmem := hperm.subset (mem_of_get? key value as h)
    exact (get?_of_mem key value bs (hkeys.nodup_iff.1 hdistinct) hmem).symm

theorem distinct_append_lacking (more m : List (String × α)) (hmore : Distinct more)
    (hm : Distinct m) : Distinct (m ++ more.filter fun entry => !contains entry.1 m) := by
  rw [Distinct, keys, List.map_append]
  refine List.nodup_append.2 ⟨hm, hmore.sublist (List.filter_sublist.map _), ?_⟩
  rintro _ hkey _ hlacking rfl
  obtain ⟨entry, hentry, rfl⟩ := List.mem_map.1 hlacking
  have hnone := (List.mem_filter.1 hentry).2
  rw [Bool.not_eq_true', (contains_iff entry.1 m).2 hkey] at hnone
  cases hnone

/-! ### Functions of the values -/

variable {β : Type} (f : α → β)

def mapValues (m : List (String × α)) : List (String × β) := m.map fun entry => (entry.1, f entry.2)

theorem mapValues_cons (key : String) (value : α) (rest : List (String × α)) :
    mapValues f ((key, value) :: rest) = (key, f value) :: mapValues f rest := rfl

theorem keys_mapValues (m : List (String × α)) : keys (mapValues f m) = keys m :=
  List.map_map

theorem mapValues_insert (key : String) (value : α) (m : List (String × α)) :
    mapValues f (insert key value m) = insert key (f value) (mapValues f m) := by
  induction m with
  | nil => rfl
  | cons entry rest ih =>
    obtain ⟨k, v⟩ := entry
    rw [mapValues_cons]
    by_cases hk : k = key
    · rw [insert, if_pos hk, insert, if_pos hk, mapValues_cons]
    · rw [insert, if_neg hk, insert, if_neg hk, mapValues_cons, ih]

theorem mapValues_ofPairs (pairs : List (String × α)) :
    mapValues f (ofPairs pairs) = ofPairs (mapValues f pairs) := by
  have hfold (m : List (String × α)) :
      mapValues f (pairs.foldl (fun m p => insert p.1 p.2 m) m)
        = (mapValues f pairs).foldl (fun m p => insert p.1 p.2 m) (mapValues f m) := by
    induction pairs generalizing m with
    | nil => rfl
    | cons p rest ih =>
      rw [List.foldl_cons, ih, mapValues_insert f p.1 p.2 m, mapValues_cons, List.foldl_cons]
  exact hfold []

theorem get?_mapValues (key : String) (m : List (String × α)) :
    get? key (mapValues f m) = (get? key m).map f := by
  induction m with
  | nil => rfl
  | cons entry rest ih =>
    obtain ⟨k, v⟩ := entry
    rw [mapValues_cons, get?, get?]
    split
    · rfl
    · exact ih

theorem contains_mapValues (key : String) (m : List (String × α)) :
    contains key (mapValues f m) = contains key m := by
  rw [contains, contains, get?_mapValues, Option.isSome_map]

end Crosswalk.Entries
