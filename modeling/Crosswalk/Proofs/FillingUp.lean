import Crosswalk.Proofs.Entries
import Crosswalk.Proofs.Fields

/-!
# Filling up from the first item

The later items of a group are offered the entries of the first one, one after another:
an item takes an entry behind its own ones if it does not have the key by then. Because
no key of the first item is repeated, an entry taken earlier never stands in the way of a
later one, and so what an item gains is decided by the keys that it had to begin with.
-/

namespace Crosswalk.Reading

/-! ### One entry after another -/

def offered (item : Item) (entry : String × Value) : Item :=
  if Entries.contains entry.1 item then item else Entries.insert entry.1 entry.2 item

/-- The items after every entry of the first one was offered to each of the others. -/
def filledInTurn : List Item → List Item
  | [] => []
  | first :: rest => first :: rest.map fun item => first.foldl offered item

theorem offered_of_mem (item : Item) (entry : String × Value)
    (h : entry.1 ∈ Entries.keys item) : offered item entry = item := by
  rw [offered, if_pos ((Entries.contains_iff _ _).2 h)]

theorem offered_of_not_mem (item : Item) (entry : String × Value)
    (h : entry.1 ∉ Entries.keys item) : offered item entry = item ++ [entry] := by
  rw [offered, if_neg (fun hcontains => h ((Entries.contains_iff _ _).1 hcontains)),
    Entries.insert_of_not_mem _ _ _ h]

theorem filled_cons_of_mem (entry : String × Value) (first item : Item)
    (h : entry.1 ∈ Entries.keys item) : filled (entry :: first) item = filled first item := by
  have hcontains := (Entries.contains_iff _ _).2 h
  simp [filled, hcontains]

theorem filled_cons_of_not_mem (entry : String × Value) (first item : Item)
    (h : entry.1 ∉ Entries.keys item) (hfirst : entry.1 ∉ Entries.keys first) :
    filled (entry :: first) item = filled first (item ++ [entry]) := by
  have hkept : Entries.contains entry.1 item = false := by
    rw [Bool.eq_false_iff, ne_eq, Entries.contains_iff]
    exact h
  have hothers : ∀ other ∈ first,
      (!Entries.contains other.1 item) = !Entries.contains other.1 (item ++ [entry]) := by
    intro other hother
    have hne : entry.1 ≠ other.1 := fun he => hfirst (he ▸ List.mem_map_of_mem hother)
    rw [Entries.contains, Entries.contains, Entries.get?_append, Entries.get?, if_neg hne,
      Entries.get?, Option.or_none]
  rw [filled, filled, List.filter_cons_of_pos (by rw [hkept]; rfl), List.filter_congr hothers,
    List.append_assoc, List.singleton_append]

theorem foldl_offered (first item : Item) (h : Entries.Distinct first) :
    first.foldl offered item = filled first item := by
  -- for every item, because an item that takes an entry has grown before the next one is offered
  induction first generalizing item with
  | nil => simp [filled]
  | cons entry first ih =>
    obtain ⟨hentry, hfirst⟩ := List.nodup_cons.1 h
    rw [List.foldl_cons]
    by_cases hkey : entry.1 ∈ Entries.keys item
    · rw [offered_of_mem item entry hkey, ih item hfirst, filled_cons_of_mem entry first item hkey]
    · rw [offered_of_not_mem item entry hkey, ih _ hfirst,
        filled_cons_of_not_mem entry first item hkey hentry]

theorem sparseFill_eq_filledInTurn (items : List Item)
    (h : ∀ first ∈ items.head?, Entries.Distinct first) :
    sparseFill items = filledInTurn items := by
  cases items with
  | nil => rfl
  | cons first rest =>
    have hfirst := h first rfl
    rw [sparseFill, filledInTurn]
    congr 2
    funext item
    exact (foldl_offered first item hfirst).symm

/-! ### What an item gains -/

/-- The whole item has its own entries in front and behind them, in the order of the first item,
those entries of the first item whose keys it does not have itself. -/
def CompletedFrom (first own whole : Item) : Prop :=
  ∃ gained, whole = own ++ gained ∧ gained.Sublist first ∧
    ∀ entry, entry ∈ gained ↔ entry ∈ first ∧ entry.1 ∉ Entries.keys own

theorem completedFrom_filled (first own : Item) : CompletedFrom first own (filled first own) := by
  refine ⟨_, rfl, List.filter_sublist, fun entry => ?_⟩
  rw [List.mem_filter, Bool.not_eq_true', Bool.eq_false_iff, ne_eq, Entries.contains_iff]

theorem get?_filled (key : String) (first own : Item) :
    Entries.get? key (filled first own)
      = (Entries.get? key own).or (Entries.get? key first) := by
  rw [filled, Entries.get?_append]
  cases hown : Entries.get? key own with
  | some value => rfl
  | none =>
    rw [Option.none_or, Option.none_or]
    refine Entries.get?_filter_of_keep key _ first fun value => ?_
    rw [Entries.contains, hown]
    rfl

theorem keys_subset_filled (first own : Item) :
    Entries.keys first ⊆ Entries.keys (filled first own) := by
  intro key hkey
  by_contra hnot
  have hnone := (Entries.get?_eq_none_iff key _).2 hnot
  rw [get?_filled, Option.or_eq_none_iff] at hnone
  exact (Entries.get?_eq_none_iff key first).1 hnone.2 hkey

theorem filled_of_subset (first item : Item) (h : Entries.keys first ⊆ Entries.keys item) :
    filled first item = item := by
  have hnothing : (first.filter fun entry => !Entries.contains entry.1 item) = [] := by
    refine List.filter_eq_nil_iff.2 fun entry hentry => ?_
    rw [(Entries.contains_iff _ _).2 (h (List.mem_map_of_mem hentry))]
    decide
  rw [filled, hnothing, List.append_nil]

theorem sparseFill_sparseFill (items : List Item) :
    sparseFill (sparseFill items) = sparseFill items := by
  cases items with
  | nil => rfl
  | cons first rest =>
    rw [sparseFill, sparseFill, List.map_map]
    congr 1
    refine List.map_congr_left fun item _ => ?_
    exact filled_of_subset first _ (keys_subset_filled first item)

/-! ### The items of a group -/

theorem distinct_of_mem_sparseFill (items : List Item)
    (h : ∀ item ∈ items, Entries.Distinct item) :
    ∀ item ∈ sparseFill items, Entries.Distinct item := by
  cases items with
  | nil => exact h
  | cons first rest =>
    obtain ⟨hfirst, hrest⟩ := List.forall_mem_cons.1 h
    refine List.forall_mem_cons.2 ⟨hfirst, fun whole hwhole => ?_⟩
    obtain ⟨item, hitem, rfl⟩ := List.mem_map.1 hwhole
    exact Entries.distinct_append_lacking first item hfirst (hrest item hitem)

theorem distinct_of_mem_unfilledItems (setting : Setting) (groupPath rulePath : String)
    (fields : List Rule) (record : Marc.Record) (items : List Item)
    (h : unfilledItems setting groupPath rulePath fields record = .ok items) :
    ∀ item ∈ items, Entries.Distinct item := by
  obtain ⟨readings, hreadings, rfl⟩ := (map_eq_ok_iff _ _ _).1 h
  intro item hitem
  obtain ⟨reading, hreading, hmem⟩ := List.mem_flatten.1 hitem
  obtain ⟨scope, -, hscope⟩ :=
    exists_of_mem_forall₂ ((mapM_eq_ok_iff _ _ _).1 hreadings) reading hreading
  obtain ⟨values, -, rfl⟩ := (map_eq_ok_iff _ _ _).1 hscope
  obtain ⟨index, -, hmade⟩ := List.mem_filterMap.1 hmem
  split at hmade
  · cases hmade
    exact Entries.distinct_ofPairs _
  · cases hmade

/-! ### Items that are filled up -/

theorem exists_get?_sparseFill (items : List Item) (index : Nat) (own : Item) (key : String)
    (value : Value) (hown : items[index]? = some own)
    (hvalue : Entries.get? key own = some value) :
    ∃ whole, (sparseFill items)[index]? = some whole ∧ Entries.get? key whole = some value := by
  cases items with
  | nil => cases hown
  | cons first rest =>
    cases index with
    | zero => exact ⟨own, hown, hvalue⟩
    | succ index =>
      rw [List.getElem?_cons_succ] at hown
      refine ⟨filled first own, ?_, ?_⟩
      · rw [sparseFill, List.getElem?_cons_succ, List.getElem?_map, hown, Option.map_some]
      · rw [get?_filled, hvalue, Option.some_or]

/-- The first item stays as it is, and every later one keeps its own entries and gains behind them
exactly those of the first one that it lacks, so that nothing is left for a second time. Keys that
are not repeated stay so, and then this is what offering one entry after another comes to; the items
that a group makes have no repeated keys. -/
theorem later_items_gain_what_they_lack (items : List Item) :
    (sparseFill items).length = items.length ∧
      sparseFill (sparseFill items) = sparseFill items ∧
      (∀ first rest, items = first :: rest →
        ∃ others, sparseFill items = first :: others ∧
          List.Forall₂ (CompletedFrom first) rest others ∧
          ∀ whole ∈ sparseFill items, Entries.keys first ⊆ Entries.keys whole) ∧
      (∀ (index : Nat) own key value, items[index]? = some own →
        Entries.get? key own = some value →
        ∃ whole, (sparseFill items)[index]? = some whole ∧ Entries.get? key whole = some value) ∧
      ((∀ item ∈ items, Entries.Distinct item) →
        sparseFill items = filledInTurn items ∧
          ∀ whole ∈ sparseFill items, Entries.Distinct whole) ∧
      ∀ setting groupPath rulePath fields record,
        unfilledItems setting groupPath rulePath fields record = .ok items →
        ∀ item ∈ items, Entries.Distinct item := by
  refine ⟨length_sparseFill items, sparseFill_sparseFill items, ?_,
    exists_get?_sparseFill items, fun hdistinct => ⟨?_, distinct_of_mem_sparseFill items hdistinct⟩,
    fun setting groupPath rulePath fields record =>
      distinct_of_mem_unfilledItems setting groupPath rulePath fields record items⟩
  · rintro first rest rfl
    refine ⟨rest.map (filled first), rfl, ?_, ?_⟩
    · exact List.forall₂_map_right_iff.2
        (List.forall₂_same.2 fun own _ => completedFrom_filled first own)
    · refine List.forall_mem_cons.2 ⟨List.Subset.refl _, fun whole hwhole => ?_⟩
      obtain ⟨own, -, rfl⟩ := List.mem_map.1 hwhole
      exact keys_subset_filled first own
  · exact sparseFill_eq_filledInTurn items fun first hfirst =>
      hdistinct first (List.mem_of_mem_head? hfirst)

theorem lacking_notes_come_from_first_statement :
    let setting : Setting := ⟨default, {}, fun _ => "2000-01-01"⟩
    let path := "holdings.statements[]"
    let fields := [Rule.ofExpression "holdings.statements[].text" "866$a",
      Rule.ofExpression "holdings.statements[].note" "866$z"]
    let record : Marc.Record := ⟨"", [],
      [⟨"866", ' ', ' ', [⟨'a', "v.1"⟩, ⟨'z', "gaps"⟩]⟩, ⟨"866", ' ', ' ', [⟨'a', "v.2"⟩]⟩,
        ⟨"866", ' ', ' ', [⟨'z', "torn"⟩]⟩]⟩
    let first : Item := [("text", .string "v.1"), ("note", .string "gaps")]
    let rest : List Item := [[("text", .string "v.2")], [("note", .string "torn")]]
    let others : List Item := [[("text", .string "v.2"), ("note", .string "gaps")],
      [("note", .string "torn"), ("text", .string "v.1")]]
    unfilledItems setting path path fields record = .ok (first :: rest) ∧
      sparseFill (first :: rest) = first :: others ∧
      List.Forall₂ (CompletedFrom first) rest others ∧
      filledInTurn (first :: rest) = first :: others ∧
      sparseFill (first :: others) = first :: others ∧
      ∃ whole, (first :: others)[2]? = some whole ∧
        Entries.get? "note" whole = some (.string "torn") := by
  intro setting path fields record first rest others
  have hitems : unfilledItems setting path path fields record = .ok (first :: rest) := by
    unfold rest first record fields path setting
    with_unfolding_all rfl
  have hfilled : sparseFill (first :: rest) = first :: others := by
    unfold others rest first
    with_unfolding_all rfl
  obtain ⟨-, htwice, hlater, hkept, hturn, hgroup⟩ :=
    later_items_gain_what_they_lack (first :: rest)
  obtain ⟨found, hfound, hcompleted, -⟩ := hlater first rest rfl
  rw [hfilled] at htwice hkept hfound hturn
  cases hfound
  exact ⟨hitems, hfilled, hcompleted, (hturn (hgroup _ _ _ _ _ hitems)).1.symm, htwice,
    hkept 2 _ "note" _ rfl rfl⟩

end Crosswalk.Reading
