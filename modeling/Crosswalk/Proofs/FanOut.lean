import Crosswalk.Proofs.CleanValues
import Mathlib.Data.List.ReduceOption

/-!
# Fanning out

The elements that a clause makes for a list are the columns of a table with a row for
each token. The places of a row that are taken hold the values of its token that are
not blank, each of them once and in their order, and an element is what its column
holds, joined from the first row to the last. A token that adds to the elements in
turn fills its row; any other token makes the table wider and takes the new columns.
So nothing is lost or doubled, whatever the numbers of values are.
-/

namespace Crosswalk.Reading

/-! ### Tables of values -/

/-- What the rows have in the column, joined from the first row to the last. -/
def column (rows : List (List (Option String))) (index : Nat) : String :=
  String.join (rows.filterMap fun row => row[index]?.join)

/-- The rows spread the values over the elements: each row has a place for every element, what
stands in it are the values of its token, and the elements are the columns. -/
structure Spreads (rows : List (List (Option String))) (values : List (List String))
    (elements : List String) : Prop where
  rows_hold : List.Forall₂
    (fun row texts => row.length = elements.length ∧ row.reduceOption = texts) rows values
  columns : ∀ index, (h : index < elements.length) → elements[index] = column rows index

theorem column_append (rows more : List (List (Option String))) (index : Nat) :
    column (rows ++ more) index = column rows index ++ column more index := by
  simp only [column, List.filterMap_append, String.join_append]

theorem column_singleton (row : List (Option String)) (index : Nat) :
    column [row] index = row[index]?.join.getD "" := by
  cases h : row[index]?.join with
  | none => simp [column, h]
  | some text => simp [column, h]

theorem reduceOption_map_some (texts : List String) : (texts.map some).reduceOption = texts := by
  rw [List.reduceOption, List.filterMap_map, Function.id_comp, List.filterMap_some]

theorem column_map_of_eq (change : List (Option String) → List (Option String))
    (rows : List (List (Option String))) (index : Nat)
    (h : ∀ row ∈ rows, (change row)[index]? = row[index]?) :
    column (rows.map change) index = column rows index := by
  have hplaces : (rows.map change).filterMap (fun row => row[index]?.join)
      = rows.filterMap fun row => row[index]?.join := by
    rw [List.filterMap_map]
    refine List.filterMap_congr fun row hrow => ?_
    rw [Function.comp_apply, h row hrow]
  rw [column, hplaces, column]

theorem column_of_free (rows : List (List (Option String))) (index : Nat)
    (h : ∀ row ∈ rows, row[index]?.join = none) : column rows index = "" := by
  rw [column, List.filterMap_eq_nil_iff.2 h, String.join_nil]

namespace Spreads

variable {rows : List (List (Option String))} {values : List (List String)}
  {elements : List String}

theorem length_row (h : Spreads rows values elements) :
    ∀ row ∈ rows, row.length = elements.length := by
  intro row hrow
  obtain ⟨texts, -, hlength, -⟩ := exists_of_mem_forall₂ h.rows_hold.flip row hrow
  exact hlength

theorem empty : Spreads [] [] [] :=
  ⟨List.Forall₂.nil, fun _ h => absurd h (Nat.not_lt_zero _)⟩

/-! ### One token more -/

theorem add_nothing (h : Spreads rows values elements) :
    Spreads (rows ++ [List.replicate elements.length none]) (values ++ [[]]) elements := by
  refine ⟨List.rel_append h.rows_hold (.cons ⟨List.length_replicate, ?_⟩ .nil), ?_⟩
  · exact List.reduceOption_replicate_none
  · intro index hindex
    have hfree : column [List.replicate elements.length none] index = "" := by
      rw [column_singleton, List.getElem?_replicate_of_lt hindex]
      rfl
    rw [column_append, hfree, String.append_empty]
    exact h.columns index hindex

theorem add_in_turn (h : Spreads rows values elements) (texts : List String)
    (hlength : elements.length = texts.length) :
    Spreads (rows ++ [texts.map some]) (values ++ [texts]) (List.zipWith (· ++ ·) elements texts) := by
  have hzip : (List.zipWith (· ++ ·) elements texts).length = elements.length := by
    rw [List.length_zipWith, hlength, Nat.min_self]
  refine ⟨?_, ?_⟩
  · rw [hzip]
    refine List.rel_append h.rows_hold (.cons ⟨?_, ?_⟩ .nil)
    · rw [List.length_map, hlength]
    · exact reduceOption_map_some texts
  · intro index hindex
    have helement : index < elements.length := by omega
    have htext : index < texts.length := by omega
    have hlast : column [texts.map some] index = texts[index] := by
      simp [column_singleton, htext]
    rw [List.getElem_zipWith, h.columns index helement, column_append, hlast]

theorem column_widened_of_lt (h : Spreads rows values elements) (width index : Nat)
    (hindex : index < elements.length) :
    column (rows.map fun row => row ++ List.replicate width none) index = column rows index := by
  refine column_map_of_eq _ rows index fun row hrow => ?_
  have hlength := h.length_row row hrow
  exact List.getElem?_append_left (by omega)

theorem column_widened_of_le (h : Spreads rows values elements) (width index : Nat)
    (hold : elements.length ≤ index) (hnew : index - elements.length < width) :
    column (rows.map fun row => row ++ List.replicate width none) index = "" := by
  refine column_of_free _ index fun row hrow => ?_
  obtain ⟨old, hmem, rfl⟩ := List.mem_map.1 hrow
  have hlength := h.length_row old hmem
  rw [List.getElem?_append_right (by omega), List.getElem?_replicate_of_lt (by omega)]
  rfl

theorem add_behind (h : Spreads rows values elements) (texts : List String) :
    Spreads
      (rows.map (fun row => row ++ List.replicate texts.length none)
        ++ [List.replicate elements.length none ++ texts.map some])
      (values ++ [texts]) (elements ++ texts) := by
  refine ⟨List.rel_append ?_ (.cons ⟨?_, ?_⟩ .nil), ?_⟩
  · refine List.forall₂_map_left_iff.2 (h.rows_hold.imp fun row texts' hrow => ?_)
    obtain ⟨hlength, hvalues⟩ := hrow
    refine ⟨by simp [hlength], ?_⟩
    rw [List.reduceOption_append, List.reduceOption_replicate_none, List.append_nil, hvalues]
  · simp
  · rw [List.reduceOption_append, List.reduceOption_replicate_none, List.nil_append]
    exact reduceOption_map_some texts
  · intro index hindex
    rw [column_append, column_singleton]
    by_cases hold : index < elements.length
    · have hlast : (List.replicate elements.length none ++ texts.map some)[index]?.join = none := by
        simp [List.getElem?_append_left, hold]
      rw [h.column_widened_of_lt _ index hold, hlast, List.getElem_append_left hold,
        h.columns index hold, Option.getD_none, String.append_empty]
    · have hnew : index - elements.length < texts.length := by
        rw [List.length_append] at hindex
        omega
      have hlast : (List.replicate elements.length none ++ texts.map some)[index]?.join
          = some texts[index - elements.length] := by
        rw [List.getElem?_append_right (by rw [List.length_replicate]; omega),
          List.length_replicate, List.getElem?_map, List.getElem?_eq_getElem hnew]
        rfl
      rw [h.column_widened_of_le _ index (by omega) hnew, hlast,
        List.getElem_append_right (by omega), Option.getD_some, String.empty_append]

theorem exists_correlate (h : Spreads rows values elements) (texts : List String) :
    ∃ more, Spreads more (values ++ [texts]) (correlate elements texts) := by
  rw [correlate]
  split
  · rename_i hnone
    rw [List.isEmpty_iff.1 hnone]
    exact ⟨_, h.add_nothing⟩
  · split
    · rename_i hlength
      exact ⟨_, h.add_in_turn texts hlength⟩
    · exact ⟨_, h.add_behind texts⟩

end Spreads

theorem exists_spreads_fanOut (values : List (List String)) :
    ∃ rows, Spreads rows (values.map nonBlank) (fanOut values) := by
  -- the tokens that are done already are carried along with their table
  have hfold (rows : List (List (Option String))) (before : List (List String))
      (elements : List String) (h : Spreads rows before elements) :
      ∃ more, Spreads more (before ++ values.map nonBlank)
        (values.foldl (fun elements texts => correlate elements (nonBlank texts)) elements) := by
    induction values generalizing rows before elements with
    | nil =>
      rw [List.map_nil, List.append_nil]
      exact ⟨rows, h⟩
    | cons texts rest ih =>
      obtain ⟨next, hnext⟩ := h.exists_correlate (nonBlank texts)
      obtain ⟨more, hmore⟩ := ih next _ _ hnext
      rw [List.append_assoc, List.singleton_append] at hmore
      exact ⟨more, hmore⟩
  exact hfold [] [] [] Spreads.empty

/-! ### Tokens that have equally many values -/

theorem length_correlate_of_level (n : Nat) (elements texts : List String) (hne : texts ≠ [])
    (htexts : texts.length = n) (h : elements.length = n ∨ elements = []) :
    (correlate elements texts).length = n := by
  rw [correlate, if_neg (by rwa [List.isEmpty_iff])]
  rcases h with hlength | hnone
  · rw [if_pos (by omega), List.length_zipWith]
    omega
  · have hpos := List.length_pos_iff.2 hne
    rw [hnone, List.length_nil, if_neg (by omega), List.nil_append]
    exact htexts

/-- Where every token has no value or `n` of them, there are no elements before the first token with
values, and `n` from then on. -/
theorem length_fanOut_of_level (n : Nat) (values : List (List String))
    (hlevel : ∀ texts ∈ values, nonBlank texts = [] ∨ (nonBlank texts).length = n)
    (hany : ∃ texts ∈ values, nonBlank texts ≠ []) : (fanOut values).length = n := by
  have hfold (elements : List String)
      (h : elements.length = n ∨ elements = [] ∧ ∃ texts ∈ values, nonBlank texts ≠ []) :
      (values.foldl (fun elements texts => correlate elements (nonBlank texts)) elements).length
        = n := by
    clear hany
    induction values generalizing elements with
    | nil =>
      rcases h with hlength | ⟨-, texts, hmem, -⟩
      · exact hlength
      · cases hmem
    | cons first rest ih =>
      refine ih (fun texts hmem => hlevel texts (List.mem_cons_of_mem first hmem)) _ ?_
      by_cases hfirst : nonBlank first = []
      · have hsame : correlate elements (nonBlank first) = elements := by rw [hfirst]; rfl
        dsimp only
        rw [hsame]
        refine h.imp_right fun ⟨hnone, texts, hmem, hne⟩ => ⟨hnone, texts, ?_, hne⟩
        rcases List.mem_cons.1 hmem with rfl | hrest
        · exact absurd hfirst hne
        · exact hrest
      · have hlength := (hlevel first List.mem_cons_self).resolve_left hfirst
        exact Or.inl (length_correlate_of_level n elements _ hfirst hlength (h.imp_right And.left))
  exact hfold [] (Or.inr ⟨rfl, hany⟩)

theorem eq_map_some_of_full (row : List (Option String)) (h : ∀ place ∈ row, place.isSome = true) :
    row = row.reduceOption.map some := by
  induction row with
  | nil => rfl
  | cons place rest ih =>
    have hrest := ih fun p hp => h p (List.mem_cons_of_mem place hp)
    cases place with
    | none => exact absurd (h none List.mem_cons_self) Bool.false_ne_true
    | some text => rw [List.reduceOption_cons_of_some, List.map_cons, ← hrest]

theorem place_of_level (n : Nat) (row : List (Option String)) (texts : List String) (index : Nat)
    (hrow : row.length = n ∧ row.reduceOption = texts) (hlevel : texts = [] ∨ texts.length = n) :
    row[index]?.join = texts[index]? := by
  obtain ⟨hlength, hvalues⟩ := hrow
  rcases hlevel with hnone | hfull
  · rw [hnone] at hvalues ⊢
    obtain ⟨m, hfree⟩ := (List.reduceOption_eq_nil_iff row).1 hvalues
    rw [hfree, List.getElem?_replicate]
    split <;> rfl
  · have hplaces : ∀ place ∈ row, place.isSome = true := by
      refine List.reduceOption_length_eq_iff.1 ?_
      rw [hvalues, hfull, hlength]
    rw [eq_map_some_of_full row hplaces, hvalues, List.getElem?_map]
    cases texts[index]? <;> rfl

theorem column_of_level (n : Nat) (rows : List (List (Option String))) (values : List (List String))
    (index : Nat)
    (hrows : List.Forall₂ (fun row texts => row.length = n ∧ row.reduceOption = texts) rows values)
    (hlevel : ∀ texts ∈ values, texts = [] ∨ texts.length = n) :
    column rows index = String.join (values.filterMap fun texts => texts[index]?) := by
  have hplaces : rows.filterMap (fun row => row[index]?.join)
      = values.filterMap fun texts => texts[index]? := by
    induction hrows with
    | nil => rfl
    | cons hrow _ ih =>
      have hplace := place_of_level n _ _ index hrow (hlevel _ List.mem_cons_self)
      rw [List.filterMap_cons, List.filterMap_cons, hplace,
        ih fun texts hmem => hlevel texts (List.mem_cons_of_mem _ hmem)]
  rw [column, hplaces]

theorem fanOut_of_level (n : Nat) (values : List (List String))
    (hlevel : ∀ texts ∈ values, nonBlank texts = [] ∨ (nonBlank texts).length = n)
    (hany : ∃ texts ∈ values, nonBlank texts ≠ []) :
    fanOut values = (List.range n).map fun index =>
      String.join (values.filterMap fun texts => (nonBlank texts)[index]?) := by
  obtain ⟨rows, hrows, hcolumns⟩ := exists_spreads_fanOut values
  have hlength := length_fanOut_of_level n values hlevel hany
  rw [hlength] at hrows
  refine List.ext_getElem (by rw [hlength, List.length_map, List.length_range]) ?_
  intro index hindex _
  have hjoined := column_of_level n rows (values.map nonBlank) index hrows
    (List.forall_mem_map.2 hlevel)
  rw [hcolumns index hindex, hjoined, List.filterMap_map, List.getElem_map, List.getElem_range]
  rfl

/-! ### Clauses -/

section

variable (setting : Setting) (head : RuleHead) (record : Marc.Record)

/-- The elements that a clause without a removal makes for a list. Every value of a token that is not
blank stands in one place of a table, at most one in each column of its row and in their order; the
elements are the columns, and none of them is blank. Tokens that all have `n` values, or none, make
`n` elements out of the first values, the second values and so on. -/
theorem fan_out_uses_every_value_once (clause : Expression.Clause) (yielded : Yield)
    (hremove : Expression.Token.remove ∉ clause)
    (h : clauseYield setting true head record clause = .ok yielded) :
    ∃ values elements, yielded = .items elements ∧
      List.Forall₂ (fun token texts => tokenValues setting head record token = .ok texts)
        clause values ∧
      (∃ rows, Spreads rows (values.map nonBlank) elements) ∧
      NoBlankTexts elements ∧
      ∀ n, (∀ texts ∈ values, nonBlank texts = [] ∨ (nonBlank texts).length = n) →
        (∃ texts ∈ values, nonBlank texts ≠ []) →
        elements = (List.range n).map fun index =>
          String.join (values.filterMap fun texts => (nonBlank texts)[index]?) := by
  obtain ⟨found, hfound, hyield⟩ := (bind_eq_ok_iff _ _ _).1 h
  cases found with
  | none => exact absurd hfound (clauseValues_ne_none setting head record clause hremove)
  | some values =>
    cases hyield
    exact ⟨values, fanOut values, rfl, forall₂_clauseValues setting head record clause values hfound,
      exists_spreads_fanOut values, noBlankTexts_fanOut values, fun n => fanOut_of_level n values⟩

end

/-- The field `945$h` has one value more than there are elements, so it takes columns of its own; the
three values of the last token are then joined to all elements in turn. -/
theorem uneven_tokens_share_elements :
    let setting : Setting := ⟨default, {}, fun _ => "2000-01-01"⟩
    let head : RuleHead := { path := "item.notes[]" }
    let record : Marc.Record := ⟨"", [⟨"001", "in1"⟩],
      [⟨"945", ' ', ' ', [⟨'a', "b1"⟩]⟩, ⟨"945", ' ', ' ', [⟨'a', " "⟩]⟩,
        ⟨"945", ' ', ' ', [⟨'h', "MAIN"⟩]⟩, ⟨"945", ' ', ' ', [⟨'h', "ANNEX"⟩]⟩,
        ⟨"852", ' ', ' ', [⟨'z', "z1"⟩]⟩, ⟨"852", ' ', ' ', [⟨'z', "z2"⟩]⟩,
        ⟨"852", ' ', ' ', [⟨'z', "z3"⟩]⟩]⟩
    let clause : Expression.Clause :=
      [.field "945" ['a'], .literal " ", .field "945" ['h'], .field "500" [], .field "852" ['z']]
    let elements := ["b1z1", "MAINz2", "ANNEXz3"]
    Expression.Token.remove ∉ clause ∧
      clauseYield setting true head record clause = .ok (.items elements) ∧
      ∃ values found, Yield.items elements = .items found ∧
        List.Forall₂ (fun token texts => tokenValues setting head record token = .ok texts)
          clause values ∧
        (∃ rows, Spreads rows (values.map nonBlank) found) ∧
        NoBlankTexts found ∧
        ∀ n, (∀ texts ∈ values, nonBlank texts = [] ∨ (nonBlank texts).length = n) →
          (∃ texts ∈ values, nonBlank texts ≠ []) →
          found = (List.range n).map fun index =>
            String.join (values.filterMap fun texts => (nonBlank texts)[index]?) := by
  intro setting head record clause elements
  have hremove : Expression.Token.remove ∉ clause := by decide +kernel
  have hyield : clauseYield setting true head record clause = .ok (.items elements) := by
    unfold elements clause record head setting
    with_unfolding_all rfl
  exact ⟨hremove, hyield,
    fan_out_uses_every_value_once setting head record clause _ hremove hyield⟩

end Crosswalk.Reading
