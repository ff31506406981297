import Crosswalk.Mapping
import Crosswalk.Marc.Exchange
import Crosswalk.Proofs.SingleOccurrence
import Crosswalk.Proofs.Success

/-!
# One document for each occurrence

A record that is mapped once for every occurrence of a tag makes as many documents
as the tag occurs, in the order of the occurrences, and each of them is what the
record with this occurrence alone maps to. The occurrences that are counted have to
be the first fields with the tag for this: where plain data stands under the tag of
a data field, it takes the place of an occurrence, and the last one is lost.
-/

namespace Crosswalk.Mapping

/-! ### Runs one after the other -/

theorem forall₂_of_mapM_filterMap {α β γ ε : Type} (find : α → Option β) (f : β → Except ε γ)
    (starts : List α) (results : List γ) (hfound : ∀ a ∈ starts, (find a).isSome = true)
    (h : (starts.filterMap find).mapM f = .ok results) :
    List.Forall₂ (fun a c => ∃ b, find a = some b ∧ f b = .ok c) starts results := by
  induction starts generalizing results with
  | nil =>
    cases h
    exact List.Forall₂.nil
  | cons first rest ih =>
    obtain ⟨b, hb⟩ := Option.isSome_iff_exists.1 (hfound first List.mem_cons_self)
    rw [List.filterMap_cons_some hb, mapM_eq_ok_iff] at h
    obtain ⟨c, others, hc, hothers, rfl⟩ := List.forall₂_cons_left_iff.1 h
    refine List.Forall₂.cons ⟨b, hb, hc⟩ ?_
    exact ih others (fun a ha => hfound a (List.mem_cons_of_mem first ha))
      ((mapM_eq_ok_iff _ _ _).2 hothers)

theorem gather_of_singles {α : Type} {R : α → Mapped → Prop} {starts : List α}
    {runs : List Mapped} (h : List.Forall₂ R starts runs)
    (hsingle : ∀ a run, R a run → ∃ document, run = ⟨[document], []⟩) :
    ∃ documents, gather runs = ⟨documents, []⟩ ∧
      List.Forall₂ (fun a document => R a ⟨[document], []⟩) starts documents := by
  induction h with
  | nil => exact ⟨[], rfl, List.Forall₂.nil⟩
  | cons hfirst _ ih =>
    obtain ⟨documents, hgather, hrest⟩ := ih
    obtain ⟨document, rfl⟩ := hsingle _ _ hfirst
    rw [gather, Mapped.mk.injEq] at hgather
    refine ⟨document :: documents, ?_, List.Forall₂.cons hfirst hrest⟩
    rw [gather, List.flatMap_cons, List.flatMap_cons, hgather.1, hgather.2]
    rfl

theorem exists_single_of_map (setting : Setting) (entity : Entity) (rules : List Rule)
    (record : Marc.Record) (document : Json) (mapped : Mapped) (hentity : entity ≠ .holdings)
    (h : map setting entity ⟨some rules⟩ record document = .ok mapped) :
    ∃ result, mapped = ⟨[result], []⟩ := by
  rw [map_of_ne_holdings setting entity rules record document hentity, map_eq_ok_iff] at h
  obtain ⟨result, -, hresult⟩ := h
  exact ⟨result, hresult.symm⟩

theorem runs_of_mapPerOccurrence (setting : Setting) (entity : Entity) (rules : List Rule)
    (record : Marc.Record) (document : Json) (tag : String) (mapped : Mapped)
    (hcount : 1 ≤ record.occurrences tag)
    (h : mapPerOccurrence setting entity ⟨some rules⟩ record document tag = .ok mapped) :
    ∃ runs, mapped = gather runs ∧
      List.Forall₂
        (fun index run => ∃ scope, record.withOccurrence? tag index = some scope ∧
          map setting entity ⟨some rules⟩ scope document = .ok run)
        (List.range (record.occurrences tag)) runs := by
  have hzero : ¬ record.occurrences tag = 0 := Nat.ne_of_gt hcount
  rw [mapPerOccurrence, Option.isNone_some, Bool.false_or, if_neg (by rwa [decide_eq_true_eq])] at h
  obtain ⟨runs, hruns, hmapped⟩ := (bind_eq_ok_iff _ _ _).1 h
  refine ⟨runs, (Except.ok.inj hmapped).symm, forall₂_of_mapM_filterMap _ _ _ runs ?_ hruns⟩
  intro index hindex
  rw [Marc.Record.withOccurrence?_isSome, decide_eq_true_eq]
  exact List.mem_range.1 hindex

/-! ### One document for each run -/

/-- Mapping a record once for every occurrence of a tag makes one document for each occurrence that
is counted, in order: the one that the record with this occurrence alone maps to. -/
theorem one_document_per_occurrence (setting : Setting) (entity : Entity) (rules : List Rule)
    (record : Marc.Record) (document : Json) (tag : String) (mapped : Mapped)
    (hentity : entity ≠ .holdings) (hcount : 1 ≤ record.occurrences tag)
    (hfirst : record.CountedFirst tag)
    (h : mapPerOccurrence setting entity ⟨some rules⟩ record document tag = .ok mapped) :
    mapped.documents.length = record.occurrences tag ∧ mapped.groupingValues = [] ∧
      List.Forall₂
        (fun index result => ∃ scope,
          Marc.Record.CountedOccurrence tag index record scope ∧
          map setting entity ⟨some rules⟩ scope document = .ok ⟨[result], []⟩)
        (List.range (record.occurrences tag)) mapped.documents := by
  obtain ⟨runs, rfl, hruns⟩ :=
    runs_of_mapPerOccurrence setting entity rules record document tag mapped hcount h
  obtain ⟨documents, hgather, hdocuments⟩ := gather_of_singles hruns (by
    rintro index run ⟨scope, -, hrun⟩
    exact exists_single_of_map setting entity rules scope document run hentity hrun)
  simp only [Marc.Record.withOccurrence?_eq_some_iff_counted record _ _ tag hfirst] at hdocuments
  rw [hgather]
  exact ⟨by rw [← hdocuments.length_eq, List.length_range], rfl, hdocuments⟩

theorem two_items_make_two_documents :
    let setting : Setting := ⟨default, {}, fun _ => "2000-01-01"⟩
    let rules : List Rule :=
      [Rule.ofExpression "item.title" "245$a", Rule.ofExpression "item.barcode" "945$a"]
    let record : Marc.Record := ⟨"", [⟨"001", "in1"⟩],
      [⟨"945", ' ', ' ', [⟨'a', "b1"⟩]⟩, ⟨"245", ' ', ' ', [⟨'a', "T"⟩]⟩,
        ⟨"945", ' ', ' ', [⟨'a', "b2"⟩]⟩]⟩
    let documents : List Json := ["b1", "b2"].map fun barcode =>
      .obj [("item", .obj [("title", .str "T"), ("barcode", .str barcode)])]
    record.occurrences "945" = 2 ∧ record.CountedFirst "945" ∧
      mapPerOccurrence setting .item ⟨some rules⟩ record .null "945" = .ok ⟨documents, []⟩ ∧
      List.Forall₂
        (fun index result => ∃ scope,
          Marc.Record.CountedOccurrence "945" index record scope ∧
          map setting .item ⟨some rules⟩ scope .null = .ok ⟨[result], []⟩)
        (List.range 2) documents := by
  intro setting rules record documents
  have hcount : record.occurrences "945" = 2 := by decide +kernel
  have hfirst : record.CountedFirst "945" := by
    right
    decide +kernel
  have hmapped : mapPerOccurrence setting .item ⟨some rules⟩ record .null "945"
      = .ok ⟨documents, []⟩ := by
    unfold documents record rules setting
    with_unfolding_all rfl
  obtain ⟨-, -, hdocuments⟩ := one_document_per_occurrence setting .item rules record .null "945" _
    (by decide) (by rw [hcount]; decide) hfirst hmapped
  rw [hcount] at hdocuments
  exact ⟨hcount, hfirst, hmapped, hdocuments⟩

/-- Plain data under the tag of the items takes the place of the first item, and the second item
gets lost: the second document is not what the record with the second item alone maps to. -/
theorem plain_data_displaces_item :
    let setting : Setting := ⟨default, {}, fun _ => "2000-01-01"⟩
    let rules : List Rule := [Rule.ofExpression "item.barcode" "945$a"]
    let item (barcode : String) : Marc.DataField := ⟨"945", ' ', ' ', [⟨'a', barcode⟩]⟩
    let exchanged : Json := .obj [("leader", .str ""), ("fields", .arr
      [.obj [("945", .str "x")], (item "b1").toExchange, (item "b2").toExchange])]
    let record : Marc.Record := ⟨"", [⟨"945", "x"⟩], [item "b1", item "b2"]⟩
    let second : Marc.Record := ⟨"", [], [item "b2"]⟩
    let document (barcode : String) : Json := .obj [("item", .obj [("barcode", .str barcode)])]
    Marc.Record.ofExchange exchanged = .ok record ∧ record.occurrences "945" = 2 ∧
      mapPerOccurrence setting .item ⟨some rules⟩ record .null "945"
        = .ok ⟨[.obj [], document "b1"], []⟩ ∧
      Marc.Record.CountedOccurrence "945" 1 record second ∧
      map setting .item ⟨some rules⟩ second .null = .ok ⟨[document "b2"], []⟩ ∧
      ¬ ∃ scope, Marc.Record.CountedOccurrence "945" 1 record scope ∧
        map setting .item ⟨some rules⟩ scope .null = .ok ⟨[document "b1"], []⟩ := by
  intro setting rules item exchanged record second document
  have hrecord : Marc.Record.ofExchange exchanged = .ok record := by
    unfold record exchanged item
    with_unfolding_all rfl
  have hmapped : mapPerOccurrence setting .item ⟨some rules⟩ record .null "945"
      = .ok ⟨[.obj [], document "b1"], []⟩ := by
    unfold document record item rules setting
    with_unfolding_all rfl
  have hsecond : Marc.Record.CountedOccurrence "945" 1 record second := by
    refine ⟨rfl, fun hcontrol => absurd hcontrol (by decide +kernel), fun _ => ⟨rfl, ?_⟩⟩
    exact ⟨[item "b1"], item "b2", [], rfl, rfl, rfl, rfl⟩
  have hmap : map setting .item ⟨some rules⟩ second .null = .ok ⟨[document "b2"], []⟩ := by
    unfold document second item rules setting
    with_unfolding_all rfl
  refine ⟨hrecord, by decide +kernel, hmapped, hsecond, hmap, ?_⟩
  rintro ⟨scope, hscope, hdocument⟩
  rw [← hsecond.unique hscope, hmap] at hdocument
  have hsame : document "b2" ≠ document "b1" := by decide +kernel
  rw [Except.ok.injEq, Mapped.mk.injEq, List.cons.injEq] at hdocument
  exact hsame hdocument.1.1

end Crosswalk.Mapping
