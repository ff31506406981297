import Crosswalk.Mapping
import Crosswalk.Proofs.FirstAppearance
import Crosswalk.Proofs.Frame
import Crosswalk.Proofs.Success
import Mathlib.Data.List.Nodup

/-!
# Splitting holdings

A mapping to holdings holds one rule back. Without that rule it does what a
mapping of the same profile to a single document does in which the rule is
disabled; the values that the rule reads then make one document each, and these
differ along the path of the grouping field only.
-/

namespace Crosswalk

def Rule.disabled (rule : Rule) : Rule := ⟨{ rule.head with enabled := false }, rule.groups⟩

namespace Mapping

/-! ### The rule that is held back -/

theorem cutAtFirst?_of_findIdx? {α : Type} (test : α → Bool) (values : List α) (i : Nat)
    (h : values.findIdx? test = some i) :
    ∃ before found after, cutAtFirst? test values = some (before, found, after) ∧
      values = before ++ found :: after ∧ before.length = i := by
  induction values generalizing i with
  | nil => cases h
  | cons first rest ih =>
    rw [List.findIdx?_cons] at h
    by_cases htest : test first = true
    · rw [if_pos htest, Option.some.injEq] at h
      refine ⟨[], first, rest, ?_, rfl, h⟩
      rw [cutAtFirst?, if_pos htest]
    · rw [if_neg htest] at h
      obtain ⟨j, hj, hi⟩ := Option.map_eq_some_iff.1 h
      obtain ⟨before, found, after, hcut, hsplit, hlength⟩ := ih j hj
      refine ⟨first :: before, found, after, ?_, ?_, ?_⟩
      · rw [cutAtFirst?, if_neg htest, hcut]
        rfl
      · rw [hsplit, List.cons_append]
      · rw [List.length_cons, hlength, hi]

theorem modify_length_append {α : Type} (f : α → α) (before after : List α) (found : α) :
    (before ++ found :: after).modify before.length f = before ++ f found :: after := by
  induction before with
  | nil => rfl
  | cons first rest ih =>
    rw [List.cons_append, List.length_cons, List.modify_succ_cons, ih, List.cons_append]

theorem applyRules_disabled (setting : Setting) (record : Marc.Record) (before after : List Rule)
    (rule : Rule) (document : Json) :
    applyRules setting record (before ++ rule.disabled :: after) document
      = applyRules setting record (before ++ after) document := by
  rw [applyRules, applyRules, List.foldlM_append, List.foldlM_append]
  rfl

/-! ### Documents for grouping values -/

/-- The document is what the base becomes when the value is written at the path. -/
def Stamped (path : String) (base : Json) (value : String) (document : Json) : Prop :=
  Document.write path (.string value) none base = ⟨document, none⟩

theorem stamp_eq_ok_iff (entity : Entity) (field value : String) (base document : Json) :
    stamp entity field value base = .ok document ↔
      Stamped (entity.rootKey ++ "." ++ field) base value document := by
  rw [stamp, Stamped]
  generalize Document.write (entity.rootKey ++ "." ++ field) (.string value) none base = written
  obtain ⟨result, failure?⟩ := written
  cases failure? with
  | none =>
    constructor
    · intro h
      cases h
      rfl
    · intro h
      cases h
      rfl
  | some e =>
    constructor
    · intro h
      cases h
    · intro h
      cases h

theorem at?_of_stamped (path text : String) (base document : Json)
    (h : Stamped path base text document) :
    ∃ target, Path.parse path = .ok target ∧ document.at? target.keys = some (.str text) := by
  cases hpath : Path.parse path with
  | error e =>
    simp only [Stamped, Document.write, hpath, Written.mk.injEq, reduceCtorEq, and_false] at h
  | ok target =>
    refine ⟨target, rfl, ?_⟩
    simp only [Stamped, Document.write, hpath, Document.content, Document.store] at h
    split at h
    · cases h
    · have hat := Document.at?_changeAt_insert target path (fun _ => .str text) base
        (congrArg Written.failure? h)
      rw [h] at hat
      exact hat

theorem framed_of_stamped (path text : String) (target : Path) (base document : Json)
    (hpath : Path.parse path = .ok target) (h : Stamped path base text document) :
    Document.Framed [target.keys] base document := by
  rw [Stamped] at h
  have hframed := Document.framed_write ⟨path, .string text, none⟩ base
  simp only [Document.writtenKeys, List.filterMap_cons, hpath, Except.toOption, Option.map_some,
    List.filterMap_nil, h] at hframed
  exact hframed

theorem biUnique_stamped (path : String) (base : Json) : Relator.BiUnique (Stamped path base) := by
  constructor
  · intro first second document h₁ h₂
    obtain ⟨target, hpath, hfirst⟩ := at?_of_stamped path first base document h₁
    obtain ⟨target', hpath', hsecond⟩ := at?_of_stamped path second base document h₂
    rw [hpath, Except.ok.injEq] at hpath'
    rw [← hpath', hfirst, Option.some.injEq, Json.str.injEq] at hsecond
    exact hsecond
  · intro value first second h₁ h₂
    have hsame : Written.mk first none = ⟨second, none⟩ := h₁.symm.trans h₂
    rw [Written.mk.injEq] at hsame
    exact hsame.1

/-- The documents that a base is split into by the values that are written at the path. -/
structure SplitBy (path : String) (values : List String) (base : Json) (documents : List Json) :
    Prop where
  /-- There is one document for each distinct value, in the order of first appearance. -/
  stamped : ∃ distinct, FirstAppearances values distinct ∧
    List.Forall₂ (Stamped path base) distinct documents
  different : documents.Pairwise (· ≠ ·)
  framed : ∃ target, Path.parse path = .ok target ∧
    ∀ document ∈ documents, Document.Framed [target.keys] base document

theorem splitBy_of_forall₂ (path : String) (values distinct : List String) (base : Json)
    (documents : List Json) (hfirst : FirstAppearances values distinct) (hvalues : values ≠ [])
    (hstamped : List.Forall₂ (Stamped path base) distinct documents) :
    SplitBy path values base documents := by
  have hdifferent : documents.Nodup :=
    (List.rel_nodup (biUnique_stamped path base) hstamped).1 hfirst.nodup
  refine ⟨⟨distinct, hfirst, hstamped⟩, hdifferent, ?_⟩
  cases hstamped with
  | nil =>
    obtain ⟨value, hvalue⟩ := List.exists_mem_of_ne_nil values hvalues
    exact absurd ((hfirst.1 value).2 hvalue) List.not_mem_nil
  | cons hwritten hrest =>
    -- a value has been written, so the path can be read
    obtain ⟨target, hpath, -⟩ := at?_of_stamped path _ base _ hwritten
    refine ⟨target, hpath, ?_⟩
    intro document hdocument
    obtain ⟨value, -, hvalue⟩ := exists_of_mem_forall₂ (hrest.cons hwritten) document hdocument
    exact framed_of_stamped path value target base document hpath hvalue

/-! ### The whole run -/

theorem split_eq_ok (entity : Entity) (field : String) (values : List String) (base : Json)
    (mapped : Mapped) (h : split entity field values base = .ok mapped) :
    mapped.groupingValues = values ∧
      (values = [] → mapped.documents = [base]) ∧
      (values ≠ [] → SplitBy (entity.rootKey ++ "." ++ field) values base mapped.documents) := by
  rw [split] at h
  cases values with
  | nil =>
    cases h
    exact ⟨rfl, fun _ => rfl, fun hvalues => absurd rfl hvalues⟩
  | cons first rest =>
    rw [if_neg (by exact Bool.false_ne_true)] at h
    obtain ⟨documents, hdocuments, hmapped⟩ := (bind_eq_ok_iff _ _ _).1 h
    cases hmapped
    refine ⟨rfl, fun hvalues => ?_, fun hvalues => ?_⟩
    · cases hvalues
    · have hstamped := (mapM_eq_ok_iff _ _ _).1 hdocuments
      exact splitBy_of_forall₂ _ _ _ base documents (firstAppearances_eraseDups (first :: rest))
        hvalues (hstamped.imp fun value document => (stamp_eq_ok_iff entity field value base document).1)

theorem map_resource_of_disabled (setting : Setting) (record : Marc.Record)
    (before after : List Rule) (held : Rule) (document : Json) :
    map setting .resource ⟨some (before ++ held.disabled :: after)⟩ record document
      = (applyRules setting record (before ++ after) (Document.start document)
          >>= fun base => .ok ⟨[base], []⟩) := by
  simp only [map, mapRules, Entity.expansion, applyRules_disabled]

theorem map_holdings_of_heldBack? (setting : Setting) (rules : List Rule) (record : Marc.Record)
    (document : Json) (before after : List Rule) (held : Rule)
    (h : heldBack? setting.config.groupingField rules = some (before, held, after)) :
    map setting .holdings ⟨some rules⟩ record document
      = (applyRules setting record (before ++ after) (Document.start document)
          >>= fun base => Reading.readAll setting held record
          >>= fun value => split .holdings setting.config.groupingField
            (groupingValues setting.config.groupingField value) base) := by
  simp only [map, mapRules, Entity.expansion, h]

/-- A run for holdings whose profile has a rule about the grouping field, compared with the run of
the same profile for a single document in which that rule, the first one that is enabled, is
disabled. -/
theorem holdings_split_single_run (setting : Setting) (rules : List Rule) (record : Marc.Record)
    (document : Json) (i : Nat)
    (hfirst : rules.findIdx? (fun rule =>
      rule.head.enabled && isAbout setting.config.groupingField rule) = some i) :
    let single := map setting .resource ⟨some (rules.modify i Rule.disabled)⟩ record document
    let whole := map setting .holdings ⟨some rules⟩ record document
    (∀ e, single = .error e → whole = .error e) ∧
    ∀ mapped, whole = .ok mapped →
      ∃ base held value, single = .ok ⟨[base], []⟩ ∧ rules[i]? = some held ∧
        Reading.readAll setting held record = .ok value ∧
        mapped.groupingValues = groupingValues setting.config.groupingField value ∧
        (mapped.groupingValues = [] → mapped.documents = [base]) ∧
        (mapped.groupingValues ≠ [] →
          SplitBy ("holdings." ++ setting.config.groupingField) mapped.groupingValues base
            mapped.documents) := by
  obtain ⟨before, held, after, hcut, rfl, rfl⟩ := cutAtFirst?_of_findIdx? _ rules i hfirst
  have hsingle := map_resource_of_disabled setting record before after held document
  have hwhole := map_holdings_of_heldBack? setting _ record document before after held hcut
  intro single whole
  simp only [single, whole, modify_length_append, hsingle, hwhole]
  constructor
  · intro e he
    cases hbase : applyRules setting record (before ++ after) (Document.start document) with
    | error fault =>
      rw [hbase] at he
      cases he
      rfl
    | ok base =>
      rw [hbase] at he
      cases he
  · intro mapped hmapped
    obtain ⟨base, hbase, hrest⟩ := (bind_eq_ok_iff _ _ _).1 hmapped
    obtain ⟨value, hvalue, hsplit⟩ := (bind_eq_ok_iff _ _ _).1 hrest
    obtain ⟨hvalues, hnone, hsome⟩ := split_eq_ok _ _ _ _ _ hsplit
    refine ⟨base, held, value, ?_, ?_, hvalue, hvalues, ?_, ?_⟩
    · rw [hbase]
      rfl
    · rw [List.getElem?_append_right (Nat.le_refl _), Nat.sub_self, List.getElem?_cons_zero]
    · rw [hvalues]
      exact hnone
    · rw [hvalues]
      exact hsome

/-- Three fields with two locations make two documents. The location in the second rule is the one
that counts; the third rule, whose path below another object ends in the same name, is applied like
any other. -/
theorem two_locations_split_single_run :
    let setting : Setting := ⟨default, {}, fun _ => "2000-01-01"⟩
    let rules : List Rule :=
      [Rule.ofExpression "holdings.callNumber" "852$h",
        Rule.ofExpression "holdings.permanentLocationId" "852$b",
        Rule.ofExpression "holdings.copy.permanentLocationId" "852$t"]
    let record : Marc.Record := ⟨"", [],
      [⟨"852", ' ', ' ', [⟨'b', "main"⟩, ⟨'h', "Q 1"⟩, ⟨'t', "2"⟩]⟩,
        ⟨"852", ' ', ' ', [⟨'b', "annex"⟩]⟩, ⟨"852", ' ', ' ', [⟨'b', "main"⟩]⟩]⟩
    let base : Json := .obj [("holdings", .obj [("callNumber", .str "Q 1"),
      ("copy", .obj [("permanentLocationId", .str "2")])])]
    let documents : List Json := ["main", "annex"].map fun location =>
      .obj [("holdings", .obj [("callNumber", .str "Q 1"),
        ("copy", .obj [("permanentLocationId", .str "2")]), ("permanentLocationId", .str location)])]
    rules.findIdx? (fun rule =>
        rule.head.enabled && isAbout setting.config.groupingField rule) = some 1 ∧
      map setting .holdings ⟨some rules⟩ record .null
        = .ok ⟨documents, ["main", "annex", "main"]⟩ ∧
      map setting .resource ⟨some (rules.modify 1 Rule.disabled)⟩ record .null
        = .ok ⟨[base], []⟩ ∧
      SplitBy "holdings.permanentLocationId" ["main", "annex", "main"] base documents := by
  intro setting rules record base documents
  have hfirst : rules.findIdx? (fun rule =>
      rule.head.enabled && isAbout setting.config.groupingField rule) = some 1 := by rfl
  have hwhole : map setting .holdings ⟨some rules⟩ record .null
      = .ok ⟨documents, ["main", "annex", "main"]⟩ := by
    unfold documents record rules setting
    rfl
  have hsingle : map setting .resource ⟨some (rules.modify 1 Rule.disabled)⟩ record .null
      = .ok ⟨[base], []⟩ := by
    unfold base record rules setting
    rfl
  obtain ⟨base', _, _, hbase, -, -, -, -, hsplit⟩ :=
    (holdings_split_single_run setting rules record .null 1 hfirst).2 _ hwhole
  have hsame := hsingle.symm.trans hbase
  rw [Except.ok.injEq, Mapped.mk.injEq, List.cons.injEq] at hsame
  rw [← hsame.1.1] at hsplit
  exact ⟨hfirst, hwhole, hsingle, hsplit (List.cons_ne_nil _ _)⟩

end Mapping

end Crosswalk
