/-!
# Ordered entries

A finite map from texts to values whose entries stay in the order of their first
insertion: giving a present key a new value leaves it in its place, a new key
goes to the end, and removing a key keeps the others in order. Documents, the
items of a group, tables of accepted values and reference tables are all kept
this way, because their order shows.

The carrier is a plain list of pairs. Looking up and storing meet the first entry
of a key only, so the keys of a list that was built by `insert` are distinct
(`distinct_insert`).
-/

namespace Crosswalk.Entries

variable {α : Type}

def keys (m : List (String × α)) : List String := m.map Prod.fst

def Distinct (m : List (String × α)) : Prop := (keys m).Nodup

def get? (key : String) : List (String × α) → Option α
  | [] => none
  | (k, v) :: rest => if k = key then some v else get? key rest

def contains (key : String) (m : List (String × α)) : Bool := (get? key m).isSome

/-- Stores the value under the key: in the place of the old value, or else at the end. -/
def insert (key : String) (value : α) : List (String × α) → List (String × α)
  | [] => [(key, value)]
  | (k, v) :: rest => if k = key then (key, value) :: rest else (k, v) :: insert key value rest

def erase (key : String) (m : List (String × α)) : List (String × α) :=
  m.filter fun entry => entry.1 ≠ key

/-- Stores the pairs one after the other: a repeated key keeps its first place and takes its last
value. -/
def ofPairs (pairs : List (String × α)) : List (String × α) :=
  pairs.foldl (fun m p => insert p.1 p.2 m) []

/-! ### Lookup after a change -/

theorem get?_insert_self (key : String) (value : α) (m : List (String × α)) :
    get? key (insert key value m) = some value := by
  induction m with
  | nil => simp only [insert, get?, if_true]
  | cons entry rest ih =>
    obtain ⟨k, v⟩ := entry
    by_cases h : k = key
    · simp only [insert, h, if_true, get?]
    · simp only [insert, h, if_false, get?, ih]

theorem get?_insert_of_ne {key other : String} (h : other ≠ key) (value : α)
    (m : List (String × α)) : get? other (insert key value m) = get? other m := by
  induction m with
  | nil => simp only [insert, get?, Ne.symm h, if_false]
  | cons entry rest ih =>
    obtain ⟨k, v⟩ := entry
    by_cases hk : k = key
    · simp only [insert, hk, if_true, get?, Ne.symm h, if_false]
    · simp only [insert, hk, if_false, get?, ih]

theorem erase_cons_self (key : String) (value : α) (m : List (String × α)) :
    erase key ((key, value) :: m) = erase key m := by
  simp only [erase, ne_eq, not_true_eq_false, decide_false, Bool.false_eq_true, not_false_eq_true,
    List.filter_cons_of_neg]

theorem erase_cons_of_ne {k key : String} (h : k ≠ key) (value : α) (m : List (String × α)) :
    erase key ((k, value) :: m) = (k, value) :: erase key m := by
  simp only [erase, ne_eq, h, not_false_eq_true, decide_true, List.filter_cons_of_pos]

theorem get?_erase_self (key : String) (m : List (String × α)) :
    get? key (erase key m) = none := by
  induction m with
  | nil => rfl
  | cons entry rest ih =>
    obtain ⟨k, v⟩ := entry
    by_cases hk : k = key
    · subst hk
      rw [erase_cons_self, ih]
    · rw [erase_cons_of_ne hk]
      simp only [get?, hk, if_false, ih]

theorem get?_erase_of_ne {key other : String} (h : other ≠ key) (m : List (String × α)) :
    get? other (erase key m) = get? other m := by
  induction m with
  | nil => rfl
  | cons entry rest ih =>
    obtain ⟨k, v⟩ := entry
    by_cases hk : k = key
    · subst hk
      rw [erase_cons_self, ih]
      simp only [get?, Ne.symm h, if_false]
    · rw [erase_cons_of_ne hk]
      simp only [get?, ih]

/-! ### Keys after a change -/

theorem mem_keys_insert (key other : String) (value : α) (m : List (String × α)) :
    other ∈ keys (insert key value m) ↔ other = key ∨ other ∈ keys m := by
  induction m with
  | nil => simp only [insert, keys, List.map_cons, List.map_nil, List.mem_singleton,
      List.not_mem_nil, or_false]
  | cons entry rest ih =>
    obtain ⟨k, v⟩ := entry
    by_cases hk : k = key
    · simp only [insert, hk, if_true, keys, List.map_cons, List.mem_cons, or_self_left]
    · simp only [keys] at ih
      simp only [insert, hk, if_false, keys, List.map_cons, List.mem_cons, ih]
      exact or_left_comm

theorem distinct_insert (key : String) (value : α) {m : List (String × α)} (h : Distinct m) :
    Distinct (insert key value m) := by
  induction m with
  | nil => simp only [insert, Distinct, keys, List.map_cons, List.map_nil, List.nodup_cons,
      List.not_mem_nil, not_false_eq_true, List.nodup_nil, and_self]
  | cons entry rest ih =>
    obtain ⟨k, v⟩ := entry
    obtain ⟨hk, hrest⟩ := List.nodup_cons.1 h
    by_cases he : k = key
    · subst he
      simp only [insert, if_true]
      exact List.nodup_cons.2 ⟨hk, hrest⟩
    · simp only [insert, he, if_false]
      refine List.nodup_cons.2 ⟨?_, ih hrest⟩
      intro hmem
      rcases (mem_keys_insert key k value rest).1 hmem with hkey | hold
      · exact he hkey
      · exact hk hold

theorem distinct_ofPairs (pairs : List (String × α)) : Distinct (ofPairs pairs) := by
  suffices h : ∀ m : List (String × α), Distinct m →
      Distinct (pairs.foldl (fun m p => insert p.1 p.2 m) m) from h [] List.nodup_nil
  induction pairs with
  | nil => exact fun _ h => h
  | cons p rest ih => exact fun m h => ih _ (distinct_insert p.1 p.2 h)

end Crosswalk.Entries
