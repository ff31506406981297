import Crosswalk.Proofs.Trimming

/-!
# The grammar of paths

A path is one or more names joined by points, and the mark of an array may follow.
Reading takes exactly such texts, white space around them apart, and the path that
it returns says nothing more and nothing less than the text: written again it is
the text without that white space. Every other text is refused as a path.
-/

namespace Crosswalk.Path

/-- A name in a path: a text with something in it, but with no points and no square brackets. -/
structure IsKey (name : String) : Prop where
  ne_empty : name ≠ ""
  no_point : '.' ∉ name.toList
  no_opening : '[' ∉ name.toList
  no_closing : ']' ∉ name.toList

def joined (names : List String) (marked : Bool) : String :=
  String.intercalate "." names ++ if marked then "[]" else ""

/-! ### One piece -/

def markOf (marked : Bool) : List Char := if marked then arrayMark else []

theorem isName_iff (cs : List Char) : isName cs = true ↔ cs ≠ [] ∧ '[' ∉ cs ∧ ']' ∉ cs := by
  simp only [isName, Bool.and_eq_true, Bool.not_eq_true', List.isEmpty_eq_false_iff,
    List.all_eq_true, bne_iff_ne, ne_eq]
  refine and_congr_right fun _ => ⟨fun h => ⟨fun hmem => (h _ hmem).1 rfl, fun hmem =>
    (h _ hmem).2 rfl⟩, ?_⟩
  rintro ⟨hopening, hclosing⟩ c hc
  exact ⟨fun he => hopening (he ▸ hc), fun he => hclosing (he ▸ hc)⟩

theorem isKey_iff (name : String) :
    IsKey name ↔ isName name.toList = true ∧ '.' ∉ name.toList := by
  rw [isName_iff]
  constructor
  · rintro ⟨hne, hpoint, hopening, hclosing⟩
    exact ⟨⟨fun he => hne (String.toList_eq_nil_iff.1 he), hopening, hclosing⟩, hpoint⟩
  · rintro ⟨⟨hne, hopening, hclosing⟩, hpoint⟩
    exact ⟨fun he => hne (String.toList_eq_nil_iff.2 he), hpoint, hopening, hclosing⟩

instance (name : String) : Decidable (IsKey name) := decidable_of_iff _ (isKey_iff name).symm

theorem unmark_append (name : List Char) (marked : Bool) (h : isName name = true) :
    unmark (name ++ markOf marked) = (name, marked) := by
  cases marked with
  | true =>
    have hmark : arrayMark.isSuffixOf (name ++ arrayMark) = true :=
      List.isSuffixOf_iff_suffix.2 (List.suffix_append name arrayMark)
    simp [unmark, markOf, hmark]
  | false =>
    have hmark : ¬ arrayMark.isSuffixOf name = true := by
      intro hsuffix
      obtain ⟨front, rfl⟩ := List.isSuffixOf_iff_suffix.1 hsuffix
      exact ((isName_iff _).1 h).2.1 (by simp [arrayMark])
    simp [unmark, markOf, hmark]

theorem append_markOf_unmark (piece : List Char) :
    (unmark piece).1 ++ markOf (unmark piece).2 = piece := by
  rw [unmark]
  split
  · rename_i hmark
    obtain ⟨front, rfl⟩ := List.isSuffixOf_iff_suffix.1 hmark
    simp [markOf]
  · simp [markOf]

/-! ### All pieces -/

theorem ofPieces_names (shown : String) (parents : List String) (names : List (List Char))
    (last : List Char) (marked : Bool) (hnames : ∀ name ∈ names, isName name = true)
    (hlast : isName last = true) :
    ofPieces shown parents (names ++ [last ++ markOf marked])
      = .ok ⟨parents.reverse ++ names.map String.ofList, String.ofList last, marked⟩ := by
  induction names generalizing parents with
  | nil => simp [ofPieces, unmark_append last marked hlast, hlast]
  | cons name rest ih =>
    obtain ⟨hname, hrest⟩ := List.forall_mem_cons.1 hnames
    have hplain : unmark name = (name, false) := by
      have happend := unmark_append name false hname
      rwa [markOf, if_neg Bool.false_ne_true, List.append_nil] at happend
    obtain ⟨next, others, hmore⟩ := List.exists_cons_of_ne_nil
      (List.append_ne_nil_of_right_ne_nil rest (List.cons_ne_nil (last ++ markOf marked) []))
    have hgoOn := ih (String.ofList name :: parents) hrest
    rw [hmore] at hgoOn
    simp [hmore, ofPieces, hplain, hname, hgoOn]

theorem exists_names_of_ofPieces (shown : String) (parents : List String)
    (texts : List (List Char)) (p : Path) (h : ofPieces shown parents texts = .ok p) :
    ∃ names last, texts = names ++ [last ++ markOf p.isArray] ∧
      p.parents = parents.reverse ++ names.map String.ofList ∧ p.leaf = String.ofList last ∧
      ∀ name ∈ names ++ [last], isName name = true := by
  induction texts generalizing parents with
  | nil => cases h
  | cons piece rest ih =>
    cases rest with
    | nil =>
      simp only [ofPieces] at h
      split at h
      · rename_i hname
        cases h
        refine ⟨[], (unmark piece).1, ?_, by simp, rfl, by simpa using hname⟩
        rw [append_markOf_unmark, List.nil_append]
      · cases h
    | cons next others =>
      simp only [ofPieces] at h
      split at h
      · cases h
      · rename_i hname
        split at h
        · cases h
        · rename_i hmark
          obtain ⟨names, last, htexts, hparents, hleaf, hnames⟩ := ih _ h
          have hpiece := append_markOf_unmark piece
          rw [Bool.not_eq_true] at hmark
          rw [hmark, markOf, if_neg Bool.false_ne_true, List.append_nil] at hpiece
          rw [not_not, hpiece] at hname
          refine ⟨piece :: names, last, by rw [htexts, List.cons_append], ?_, hleaf, ?_⟩
          · rw [hparents, hpiece]
            simp
          · rw [List.cons_append]
            exact List.forall_mem_cons.2 ⟨hname, hnames⟩

/-! ### The text of a path -/

theorem intercalate_concat_append (cut : List Char) (front : List (List Char))
    (last tail : List Char) :
    List.intercalate cut (front ++ [last]) ++ tail
      = List.intercalate cut (front ++ [last ++ tail]) := by
  induction front with
  | nil => simp
  | cons first rest ih =>
    cases rest with
    | nil => simp [List.intercalate_cons_cons]
    | cons next others =>
      simp only [List.cons_append, List.intercalate_cons_cons, List.append_assoc] at ih ⊢
      rw [ih]

theorem toList_text (p : Path) :
    p.text.toList = List.intercalate ['.']
      (p.parents.map String.toList ++ [p.leaf.toList ++ markOf p.isArray]) := by
  have hmark : (if p.isArray then "[]" else "").toList = markOf p.isArray := by
    cases p.isArray <;> rfl
  rw [← intercalate_concat_append, text, keys, String.toList_append, String.toList_intercalate,
    hmark, List.map_append]
  rfl

theorem pieces_text (p : Path) (h : ∀ key ∈ p.keys, IsKey key) :
    pieces '.' p.text.toList
      = p.parents.map String.toList ++ [p.leaf.toList ++ markOf p.isArray] := by
  rw [toList_text, pieces_eq_splitOn]
  refine List.splitOn_intercalate '.' (fun piece hpiece => ?_) (by simp)
  rcases List.mem_append.1 hpiece with hparent | hleaf
  · obtain ⟨key, hkey, rfl⟩ := List.mem_map.1 hparent
    exact (h key (List.mem_append_left _ hkey)).no_point
  · have hpoint := (h p.leaf (by simp [keys])).no_point
    have hmark : '.' ∉ markOf p.isArray := by cases p.isArray <;> decide
    rw [List.mem_singleton.1 hleaf, List.mem_append, not_or]
    exact ⟨hpoint, hmark⟩

theorem text_ne_empty (p : Path) (h : ∀ key ∈ p.keys, IsKey key) : p.text.toList ≠ [] := by
  intro hnil
  have hpieces := pieces_text p h
  have hleaf := (h p.leaf (by simp [keys])).ne_empty
  -- nothing has one piece, which is empty, and the leaf would be in it
  rw [hnil] at hpieces
  have hlast := congrArg List.getLast? hpieces
  rw [List.getLast?_concat, pieces, List.getLast?_singleton, Option.some.injEq] at hlast
  exact hleaf (String.toList_eq_nil_iff.1 (List.append_eq_nil_iff.1 hlast.symm).1)

/-! ### Reading -/

theorem parse_of_text (text : String) (p : Path) (hkeys : ∀ key ∈ p.keys, IsKey key)
    (h : p.text = Text.trim text) : parse text = .ok p := by
  have hname (key : String) (hkey : key ∈ p.keys) : isName key.toList = true :=
    ((isKey_iff key).1 (hkeys key hkey)).1
  have htrimmed : Text.dropBlankEnd (Text.dropBlank text.toList) = p.text.toList := by
    rw [h, Text.toList_trim]
  have hne : ¬ p.text.toList.isEmpty = true := by
    rw [List.isEmpty_iff]
    exact text_ne_empty p hkeys
  simp only [parse, htrimmed]
  rw [if_neg hne, pieces_text p hkeys, ofPieces_names]
  · simp [Function.comp_def]
  · intro name hmem
    obtain ⟨key, hkey, rfl⟩ := List.mem_map.1 hmem
    exact hname key (List.mem_append_left _ hkey)
  · exact hname p.leaf (by simp [keys])

theorem no_point_of_pieces (cs : List Char) (names : List (List Char)) (last : List Char)
    (marked : Bool) (h : pieces '.' cs = names ++ [last ++ markOf marked]) :
    ∀ name ∈ names ++ [last], '.' ∉ name := by
  have hpiece (piece : List Char) (hmem : piece ∈ names ++ [last ++ markOf marked]) :
      '.' ∉ piece := by
    rw [← h] at hmem
    exact not_mem_of_mem_pieces '.' cs piece hmem
  intro name hname
  rcases List.mem_append.1 hname with hfront | hlast
  · exact hpiece name (List.mem_append_left _ hfront)
  · have hwhole := hpiece (last ++ markOf marked) (by simp)
    rw [List.mem_singleton.1 hlast]
    exact fun hpoint => hwhole (List.mem_append_left _ hpoint)

theorem text_of_parse (text : String) (p : Path) (h : parse text = .ok p) :
    (∀ key ∈ p.keys, IsKey key) ∧ p.text = Text.trim text := by
  simp only [parse] at h
  split at h
  · cases h
  · obtain ⟨names, last, hpieces, hparents, hleaf, hnames⟩ := exists_names_of_ofPieces _ _ _ p h
    rw [List.reverse_nil, List.nil_append] at hparents
    constructor
    · have hkeys : p.keys = (names ++ [last]).map String.ofList := by
        rw [keys, hparents, hleaf, List.map_append, List.map_singleton]
      intro key hkey
      rw [hkeys] at hkey
      obtain ⟨name, hname, rfl⟩ := List.mem_map.1 hkey
      rw [isKey_iff, String.toList_ofList]
      exact ⟨hnames name hname, no_point_of_pieces _ names last p.isArray hpieces name hname⟩
    · have hjoined := intercalate_pieces '.' (Text.dropBlankEnd (Text.dropBlank text.toList))
      rw [← String.toList_inj, toList_text, Text.toList_trim, ← hjoined, hpieces, hparents, hleaf]
      simp [Function.comp_def]

theorem kind_of_ofPieces_error (shown : String) (parents : List String)
    (texts : List (List Char)) (e : Error) (h : ofPieces shown parents texts = .error e) :
    e.kind = .path := by
  induction texts generalizing parents with
  | nil =>
    cases h
    rfl
  | cons piece rest ih =>
    cases rest with
    | nil =>
      simp only [ofPieces] at h
      split at h
      · cases h
      · cases h
        rfl
    | cons next rest =>
      simp only [ofPieces] at h
      split at h
      · cases h
        rfl
      · split at h
        · cases h
          rfl
        · exact ih _ h

theorem kind_of_parse_error (text : String) (e : Error) (h : parse text = .error e) :
    e.kind = .path := by
  simp only [parse] at h
  split at h
  · cases h
    rfl
  · exact kind_of_ofPieces_error text [] _ e h

/-- The texts that are read as a path are one or more names joined by points, perhaps with the mark
of an array behind them, white space around the whole apart; every other text is refused as a path.
The path that is read is written as the text without that white space, and names whose joined text
has no white space at its ends are read back. -/
theorem paths_are_joined_names :
    (∀ text, (∃ p, parse text = .ok p) ↔
      ∃ names marked, names ≠ [] ∧ (∀ name ∈ names, IsKey name) ∧
        Text.trim text = joined names marked) ∧
      (∀ text, (∃ p, parse text = .ok p) ∨ ∃ e, parse text = .error e ∧ e.kind = .path) ∧
      (∀ text p, parse text = .ok p →
        joined (p.parents ++ [p.leaf]) p.isArray = Text.trim text) ∧
      ∀ parents leaf marked, (∀ name ∈ parents ++ [leaf], IsKey name) →
        Text.trim (joined (parents ++ [leaf]) marked) = joined (parents ++ [leaf]) marked →
        parse (joined (parents ++ [leaf]) marked) = .ok ⟨parents, leaf, marked⟩ := by
  refine ⟨fun text => ⟨?_, ?_⟩, fun text => ?_, fun text p h => (text_of_parse text p h).2, ?_⟩
  · rintro ⟨p, h⟩
    obtain ⟨hkeys, htext⟩ := text_of_parse text p h
    exact ⟨p.keys, p.isArray, by simp [keys], hkeys, htext.symm⟩
  · rintro ⟨names, marked, hne, hnames, htext⟩
    obtain ⟨parents, leaf, rfl⟩ := (List.eq_nil_or_concat' names).resolve_left hne
    exact ⟨⟨parents, leaf, marked⟩, parse_of_text text _ hnames htext.symm⟩
  · cases h : parse text with
    | ok p => exact Or.inl ⟨p, rfl⟩
    | error e => exact Or.inr ⟨e, rfl, kind_of_parse_error text e h⟩
  · intro parents leaf marked hkeys htrim
    exact parse_of_text _ ⟨parents, leaf, marked⟩ hkeys htrim.symm

theorem white_space_inside_is_kept :
    let parents := ["holdings", " former ids"]
    let leaf := "id "
    let path := "holdings. former ids.id []"
    let padded := "\t" ++ path ++ "\n"
    (∀ name ∈ parents ++ [leaf], IsKey name) ∧
      Text.trim (joined (parents ++ [leaf]) true) = joined (parents ++ [leaf]) true ∧
      joined (parents ++ [leaf]) true = path ∧
      parse path = .ok ⟨parents, leaf, true⟩ ∧
      parse padded = .ok ⟨parents, leaf, true⟩ ∧
      joined (parents ++ [leaf]) true = Text.trim padded ∧
      ¬ ∃ names marked, names ≠ [] ∧ (∀ name ∈ names, IsKey name) ∧
        Text.trim "notes[].note" = joined names marked := by
  intro parents leaf path padded
  have hkeys : ∀ name ∈ parents ++ [leaf], IsKey name := by decide +kernel
  have htrim : Text.trim (joined (parents ++ [leaf]) true) = joined (parents ++ [leaf]) true := by
    decide +kernel
  have hpath : joined (parents ++ [leaf]) true = path := by decide +kernel
  have hpadded : parse padded = .ok ⟨parents, leaf, true⟩ := by decide +kernel
  obtain ⟨haccepts, -, hwritten, hread⟩ := paths_are_joined_names
  have hparse := hread parents leaf true hkeys htrim
  rw [hpath] at hparse
  refine ⟨hkeys, htrim, hpath, hparse, hpadded, hwritten padded _ hpadded, ?_⟩
  rw [← haccepts]
  rintro ⟨p, hp⟩
  have hearly : parse "notes[].note" = .error (.earlyMarker "notes[].note" "notes[]") := by
    decide +kernel
  rw [hearly] at hp
  cases hp

end Crosswalk.Path
