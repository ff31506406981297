import Crosswalk.Proofs.CleanDocuments
import Crosswalk.Proofs.Grouping
import Crosswalk.Proofs.NormalForm
import Mathlib.Logic.Relation

/-!
# Clean runs

What rules read has no blank texts, and grouping values are not blank either, so
every step of a run leaves a clean document clean. A run that starts from nothing
or from a clean document makes clean documents only, and the next run may start
from any of them.
-/

namespace Crosswalk.Mapping

theorem isCleanDocument_writeValue (head : RuleHead) (value : Value) (document result : Json)
    (hvalue : value.NoBlanks) (hdocument : document.isCleanDocument = true)
    (h : writeValue head value document = .ok result) : result.isCleanDocument = true := by
  rw [writeValue] at h
  split at h
  · cases h
    exact hdocument
  · simp only at h
    split at h
    · cases h
    · cases h
      exact Document.isCleanDocument_write head.path value _ document hvalue hdocument

theorem isCleanDocument_applyRule (setting : Setting) (record : Marc.Record) (rule : Rule)
    (document result : Json) (hdocument : document.isCleanDocument = true)
    (h : applyRule setting record document rule = .ok result) : result.isCleanDocument = true := by
  rw [applyRule] at h
  split at h
  · obtain ⟨value, hvalue, hwritten⟩ := (bind_eq_ok_iff _ _ _).1 h
    exact isCleanDocument_writeValue rule.head value document result
      (Reading.normalFor_of_readRule setting rule false record value hvalue).noBlanks hdocument
      hwritten
  · cases h
    exact hdocument

theorem isCleanDocument_applyRules (setting : Setting) (record : Marc.Record) (rules : List Rule)
    (document result : Json) (hdocument : document.isCleanDocument = true)
    (h : applyRules setting record rules document = .ok result) :
    result.isCleanDocument = true := by
  induction rules generalizing document with
  | nil =>
    cases h
    exact hdocument
  | cons rule rest ih =>
    rw [applyRules, List.foldlM_cons] at h
    obtain ⟨next, hnext, hrest⟩ := (bind_eq_ok_iff _ _ _).1 h
    have hclean := isCleanDocument_applyRule setting record rule document next hdocument hnext
    exact ih next hclean hrest

theorem isCleanDocument_split (entity : Entity) (field : String) (value : Value) (base : Json)
    (mapped : Mapped) (hbase : base.isCleanDocument = true)
    (h : split entity field (groupingValues field value) base = .ok mapped) :
    ∀ document ∈ mapped.documents, document.isCleanDocument = true := by
  obtain ⟨-, hnone, hsome⟩ := split_eq_ok entity field _ base mapped h
  intro document hdocument
  by_cases hvalues : groupingValues field value = []
  · rw [hnone hvalues, List.mem_singleton] at hdocument
    rwa [hdocument]
  · obtain ⟨distinct, hfirst, hstamped⟩ := (hsome hvalues).stamped
    obtain ⟨text, htext, hwritten⟩ := exists_of_mem_forall₂ hstamped document hdocument
    have hnotBlank := Reading.noBlankTexts_nonBlank _ text ((hfirst.1 text).1 htext)
    have hclean := Document.isCleanDocument_write (entity.rootKey ++ "." ++ field) (.string text)
      none base (Value.NoBlanks.string text hnotBlank) hbase
    rw [Stamped] at hwritten
    rwa [hwritten] at hclean

/-- A run makes one of its documents of the document that it starts from. -/
def Run (before after : Json) : Prop :=
  ∃ setting entity rules record mapped,
    map setting entity ⟨some rules⟩ record before = .ok mapped ∧ after ∈ mapped.documents

theorem isCleanDocument_start (document : Json)
    (h : document = .null ∨ document.isCleanDocument = true) :
    (Document.start document).isCleanDocument = true := by
  rcases h with rfl | hclean
  · rfl
  · obtain ⟨members, rfl, -⟩ := Json.exists_of_isCleanDocument document hclean
    exact hclean

theorem isCleanDocument_of_run (before after : Json)
    (hbefore : before = .null ∨ before.isCleanDocument = true) (h : Run before after) :
    after.isCleanDocument = true := by
  obtain ⟨setting, entity, rules, record, mapped, hmap, hafter⟩ := h
  have hstart := isCleanDocument_start before hbefore
  have hsingle : (applyRules setting record rules (Document.start before)
      >>= fun document => .ok ⟨[document], []⟩) = .ok mapped → after.isCleanDocument = true := by
    intro hrules
    obtain ⟨document, hdocument, hmapped⟩ := (bind_eq_ok_iff _ _ _).1 hrules
    cases hmapped
    rw [List.mem_singleton.1 hafter]
    exact isCleanDocument_applyRules setting record rules _ document hstart hdocument
  simp only [map, mapRules] at hmap
  split at hmap
  · split at hmap
    · exact hsingle hmap
    · rename_i earlier held later _
      obtain ⟨base, hbase, hrest⟩ := (bind_eq_ok_iff _ _ _).1 hmap
      obtain ⟨value, -, hsplit⟩ := (bind_eq_ok_iff _ _ _).1 hrest
      have hclean :=
        isCleanDocument_applyRules setting record (earlier ++ later) _ base hstart hbase
      exact isCleanDocument_split entity _ value base mapped hclean hsplit after hafter
  · exact hsingle hmap

/-- A run that starts from nothing or from a clean document makes clean documents only, and so does
every chain of runs. -/
theorem runs_make_clean_documents (before : Json)
    (hbefore : before = .null ∨ before.isCleanDocument = true) :
    (∀ setting entity rules record mapped,
      map setting entity ⟨some rules⟩ record before = .ok mapped →
        ∀ document ∈ mapped.documents, document.isCleanDocument = true) ∧
      ∀ after, Relation.TransGen Run before after → after.isCleanDocument = true := by
  constructor
  · intro setting entity rules record mapped hmap document hdocument
    exact isCleanDocument_of_run before document hbefore
      ⟨setting, entity, rules, record, mapped, hmap, hdocument⟩
  · intro after hruns
    induction hruns with
    | single hrun => exact isCleanDocument_of_run before _ hbefore hrun
    | tail _ hrun ih => exact isCleanDocument_of_run _ _ (Or.inr ih) hrun

theorem notes_come_and_go_cleanly :
    let setting : Setting := ⟨default, {}, fun _ => "2000-01-01"⟩
    let titles := [Rule.ofExpression "instance.title" "245$a",
      Rule.ofExpression "instance.notes[]" "500$a"]
    let head : RuleHead :=
      { path := "instance.notes[]", expression := some "500$a", policy := some .deleteIncoming }
    let record : Marc.Record := ⟨"", [], [⟨"245", ' ', ' ', [⟨'a', "T"⟩]⟩,
      ⟨"500", ' ', ' ', [⟨'a', " "⟩]⟩, ⟨"500", ' ', ' ', [⟨'a', "n"⟩]⟩]⟩
    let noted : Json := .obj [("instance", .obj [("title", .str "T"), ("notes", .arr [.str "n"])])]
    let bare : Json := .obj [("instance", .obj [("title", .str "T")])]
    map setting .resource ⟨some titles⟩ record .null = .ok ⟨[noted], []⟩ ∧
      map setting .resource ⟨some [⟨head, []⟩]⟩ record noted = .ok ⟨[bare], []⟩ ∧
      noted.isCleanDocument = true ∧ Relation.TransGen Run .null bare ∧
      bare.isCleanDocument = true := by
  intro setting titles head record noted bare
  have hfirst : map setting .resource ⟨some titles⟩ record .null = .ok ⟨[noted], []⟩ := by
    unfold noted record titles setting
    with_unfolding_all rfl
  have hsecond : map setting .resource ⟨some [⟨head, []⟩]⟩ record noted = .ok ⟨[bare], []⟩ := by
    unfold bare noted record head setting
    with_unfolding_all rfl
  have hruns : Relation.TransGen Run .null bare :=
    .tail (.single ⟨setting, .resource, titles, record, _, hfirst, List.mem_singleton.2 rfl⟩)
      ⟨setting, .resource, [⟨head, []⟩], record, _, hsecond, List.mem_singleton.2 rfl⟩
  obtain ⟨hrun, hchain⟩ := runs_make_clean_documents .null (Or.inl rfl)
  exact ⟨hfirst, hsecond, hrun setting .resource titles record _ hfirst noted
    (List.mem_singleton.2 rfl), hruns, hchain bare hruns⟩

end Crosswalk.Mapping
