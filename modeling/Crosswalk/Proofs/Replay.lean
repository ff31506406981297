import Crosswalk.Proofs.Deeds
import Crosswalk.Proofs.Frame

/-!
# Runs that are repeated

When a record is mapped into the document that it was mapped to before, every
destination is there already and no walk makes anything new: values are
overwritten in their places. Overwriting forgets the value that was there, does
not see what happens at places apart, and changes nothing where the same value is
stored again; so a repeated run comes back to the document that it started from,
the order of keys included.
-/

namespace Crosswalk.Document

/-! ### Overwriting -/

/-- The document with another value at the end of the keys, if there is one. -/
def overwrite (value : Json) : List String → Json → Json
  | [], _ => value
  | key :: rest, .obj members => .obj (Entries.adjust key (overwrite value rest) members)
  | _ :: _, document => document

theorem at?_overwrite (value : Json) (keys : List String) (document old : Json)
    (h : document.at? keys = some old) : (overwrite value keys document).at? keys = some value := by
  induction keys generalizing document with
  | nil => exact Json.at?_nil value
  | cons key rest ih =>
    cases document with
    | obj members =>
      obtain ⟨inner, hget, hinner⟩ := Option.bind_eq_some_iff.1 h
      rw [overwrite, Json.at?_cons_obj, Entries.get?_adjust_self, hget, Option.map_some,
        Option.bind_some, ih inner hinner]
    | _ => cases h

theorem at?_overwrite_of_apart (value : Json) (place keys : List String) (document : Json)
    (h : Apart place keys) : (overwrite value keys document).at? place = document.at? place := by
  induction keys generalizing place document with
  | nil => exact absurd List.nil_prefix h.2
  | cons key rest ih =>
    cases place with
    | nil => exact absurd List.nil_prefix h.1
    | cons k place =>
      cases document with
      | obj members =>
        rw [overwrite, Json.at?_cons_obj, Json.at?_cons_obj]
        by_cases hk : k = key
        · subst hk
          simp only [Apart, List.cons_prefix_cons, true_and] at h
          rw [Entries.get?_adjust_self, Option.bind_map]
          exact Option.bind_congr fun inner _ => ih place inner h
        · rw [Entries.get?_adjust_of_ne hk]
      | _ => rfl

theorem overwrite_eq_self (value : Json) (keys : List String) (document : Json)
    (h : document.at? keys = some value) : overwrite value keys document = document := by
  induction keys generalizing document with
  | nil =>
    rw [Json.at?_nil, Option.some.injEq] at h
    exact h.symm
  | cons key rest ih =>
    cases document with
    | obj members =>
      obtain ⟨inner, hget, hinner⟩ := Option.bind_eq_some_iff.1 h
      rw [overwrite, Entries.adjust_eq_self]
      intro other hother
      cases hget.symm.trans hother
      exact ih inner hinner
    | _ => cases h

theorem overwrite_overwrite (first second : Json) (keys : List String) (document : Json) :
    overwrite second keys (overwrite first keys document) = overwrite second keys document := by
  induction keys generalizing document with
  | nil => rfl
  | cons key rest ih =>
    cases document with
    | obj members => simp only [overwrite, Entries.adjust_adjust, ih]
    | _ => rfl

theorem overwrite_comm (first second : Json) (keys others : List String) (document : Json)
    (h : Apart keys others) :
    overwrite first keys (overwrite second others document)
      = overwrite second others (overwrite first keys document) := by
  induction keys generalizing others document with
  | nil => exact absurd List.nil_prefix h.1
  | cons key rest ih =>
    cases others with
    | nil => exact absurd List.nil_prefix h.2
    | cons other others =>
      cases document with
      | obj members =>
        by_cases hsame : key = other
        · subst hsame
          simp only [Apart, List.cons_prefix_cons, true_and] at h
          simp only [overwrite, Entries.adjust_adjust, fun inner => ih others inner h]
        · simp only [overwrite, Entries.adjust_adjust_comm hsame]
      | _ => rfl

/-! ### Values that are placed where there are values -/

theorem exists_of_at?_concat_eq_some (parents : List String) (leaf : String) (document old : Json)
    (h : document.at? (parents ++ [leaf]) = some old) : ∃ members, document = .obj members := by
  obtain ⟨inner, hinner, -⟩ := Json.exists_of_at?_concat parents leaf document old h
  exact Json.exists_of_at?_obj parents document inner hinner

theorem changeWithin_insert_of_at? (leaf : String) (value : Json) (parents : List String)
    (members : List (String × Json)) (old : Json)
    (h : Json.at? (parents ++ [leaf]) (.obj members) = some old) :
    ∃ changed, changeWithin (Entries.insert leaf value) parents members = (changed, none) ∧
      Json.obj changed = overwrite value (parents ++ [leaf]) (.obj members) := by
  induction parents generalizing members with
  | nil =>
    obtain ⟨inner, hget, -⟩ := Option.bind_eq_some_iff.1 h
    refine ⟨_, rfl, ?_⟩
    rw [List.nil_append, overwrite, Entries.adjust_of_some leaf _ members inner hget, overwrite]
  | cons key rest ih =>
    obtain ⟨inner, hget, hinner⟩ := Option.bind_eq_some_iff.1 h
    obtain ⟨below, rfl⟩ := exists_of_at?_concat_eq_some rest leaf inner old hinner
    obtain ⟨changed, hchange, hresult⟩ := ih below hinner
    refine ⟨Entries.insert key (.obj changed) members, ?_, ?_⟩
    · simp only [changeWithin, hget, Option.getD_some, storage?, hchange]
    · rw [hresult, List.cons_append, overwrite, Entries.adjust_of_some key _ members _ hget]

theorem place?_of_at? (target : Path) (value document old : Json)
    (h : document.at? target.keys = some old) :
    place? target value document = some (overwrite value target.keys document) := by
  obtain ⟨members, rfl⟩ := exists_of_at?_concat_eq_some target.parents target.leaf document old h
  obtain ⟨changed, hchange, hresult⟩ :=
    changeWithin_insert_of_at? target.leaf value target.parents members old h
  simp only [place?, changeAt, storage?, hchange]
  exact congrArg some hresult

theorem at?_place? (target : Path) (value document after : Json)
    (h : place? target value document = some after) : after.at? target.keys = some value := by
  have hchange := changeAt_of_place? target value document after h
  have hvalue := at?_changeAt_insert target "" (fun _ => value) document
    (congrArg Written.failure? hchange)
  rw [hchange] at hvalue
  exact hvalue

theorem at?_place?_of_apart (target : Path) (value document after : Json) (place : List String)
    (hapart : Apart place target.keys) (h : place? target value document = some after) :
    after.at? place = document.at? place := by
  have hchange := changeAt_of_place? target value document after h
  have hframed := framed_changeAt_insert target "" value document
  rw [hchange] at hframed
  exact hframed.lookup place fun path hpath => List.mem_singleton.1 hpath ▸ hapart

/-! ### Values that are placed one after the other -/

structure Placement where
  target : Path
  value : Json

def placeAll? (placements : List Placement) (document : Json) : Option Json :=
  placements.foldlM (fun document p => place? p.target p.value document) document

def overwriteAll (placements : List Placement) (document : Json) : Json :=
  placements.foldl (fun document p => overwrite p.value p.target.keys document) document

/-- Values are placed at the same path, or at places apart. -/
def Placement.Compatible (p q : Placement) : Prop :=
  p.target = q.target ∨ Apart p.target.keys q.target.keys

/-- At every target the document holds the value that is placed there last. -/
def Settled (placements : List Placement) (document : Json) : Prop :=
  ∀ front p back, placements = front ++ p :: back →
    (∀ q ∈ back, Apart p.target.keys q.target.keys) → document.at? p.target.keys = some p.value

theorem Settled.tail {p : Placement} {rest : List Placement} {document : Json}
    (h : Settled (p :: rest) document) : Settled rest document := by
  intro front q back hsplit
  exact h (p :: front) q back (by rw [hsplit, List.cons_append])

theorem Settled.head {p : Placement} {rest : List Placement} {document : Json}
    (hcompatible : ∀ q ∈ rest, p.Compatible q) (h : Settled (p :: rest) document) :
    (∃ q ∈ rest, q.target = p.target) ∨ document.at? p.target.keys = some p.value := by
  by_cases hagain : ∃ q ∈ rest, q.target = p.target
  · exact Or.inl hagain
  · refine Or.inr (h [] p rest rfl fun q hq => ?_)
    exact (hcompatible q hq).resolve_left fun hsame => hagain ⟨q, hq, hsame.symm⟩

theorem at?_placeAll?_of_apart (placements : List Placement) (document after : Json)
    (place : List String) (hapart : ∀ p ∈ placements, Apart place p.target.keys)
    (h : placeAll? placements document = some after) : after.at? place = document.at? place := by
  induction placements generalizing document with
  | nil =>
    cases h
    rfl
  | cons p rest ih =>
    obtain ⟨next, hnext, hlater⟩ := Option.bind_eq_some_iff.1 h
    obtain ⟨hfirst, hothers⟩ := List.forall_mem_cons.1 hapart
    rw [ih next hothers hlater]
    exact at?_place?_of_apart p.target p.value document next place hfirst hnext

theorem settled_of_placeAll? (placements : List Placement) (document after : Json)
    (h : placeAll? placements document = some after) : Settled placements after := by
  rintro front p back rfl hapart
  rw [placeAll?, List.foldlM_append] at h
  obtain ⟨before, -, hrest⟩ := Option.bind_eq_some_iff.1 h
  obtain ⟨next, hnext, hlater⟩ := Option.bind_eq_some_iff.1 hrest
  rw [at?_placeAll?_of_apart back next after p.target.keys hapart hlater,
    at?_place? p.target p.value before next hnext]

theorem Settled.exists_at? {placements : List Placement} {document : Json}
    (hcompatible : placements.Pairwise Placement.Compatible) (h : Settled placements document)
    (p : Placement) (hp : p ∈ placements) :
    ∃ q ∈ placements, q.target = p.target ∧ document.at? p.target.keys = some q.value := by
  induction placements generalizing p with
  | nil => cases hp
  | cons first rest ih =>
    obtain ⟨hfirst, hrest⟩ := List.pairwise_cons.1 hcompatible
    rcases List.mem_cons.1 hp with rfl | hlater
    · rcases h.head hfirst with ⟨q, hq, hsame⟩ | hat
      · obtain ⟨last, hlast, htarget, hat⟩ := ih hrest h.tail q hq
        rw [hsame] at htarget hat
        exact ⟨last, List.mem_cons_of_mem p hlast, htarget, hat⟩
      · exact ⟨p, List.mem_cons_self, rfl, hat⟩
    · obtain ⟨q, hq, htarget, hat⟩ := ih hrest h.tail p hlater
      exact ⟨q, List.mem_cons_of_mem first hq, htarget, hat⟩

/-- A value that is overwritten later is of no consequence. -/
theorem overwriteAll_overwrite (p : Placement) (rest : List Placement) (document : Json)
    (hcompatible : ∀ q ∈ rest, p.Compatible q) (hagain : ∃ q ∈ rest, q.target = p.target) :
    overwriteAll rest (overwrite p.value p.target.keys document) = overwriteAll rest document := by
  induction rest generalizing document with
  | nil =>
    obtain ⟨q, hq, -⟩ := hagain
    cases hq
  | cons q rest ih =>
    obtain ⟨hfirst, hrest⟩ := List.forall_mem_cons.1 hcompatible
    simp only [overwriteAll, List.foldl_cons] at ih ⊢
    rcases hfirst with hsame | hapart
    · rw [hsame, overwrite_overwrite]
    · have hlater : ∃ r ∈ rest, r.target = p.target := by
        obtain ⟨r, hr, htarget⟩ := hagain
        rcases List.mem_cons.1 hr with rfl | hmem
        · rw [htarget] at hapart
          exact absurd List.prefix_rfl hapart.1
        · exact ⟨r, hmem, htarget⟩
      rw [← overwrite_comm _ _ _ _ document hapart]
      exact ih _ hrest hlater

theorem overwriteAll_of_settled (placements : List Placement) (document : Json)
    (hcompatible : placements.Pairwise Placement.Compatible) (h : Settled placements document) :
    overwriteAll placements document = document := by
  induction placements with
  | nil => rfl
  | cons p rest ih =>
    obtain ⟨hfirst, hrest⟩ := List.pairwise_cons.1 hcompatible
    have hlater := ih hrest h.tail
    rw [overwriteAll, List.foldl_cons]
    rcases h.head hfirst with hagain | hat
    · exact (overwriteAll_overwrite p rest document hfirst hagain).trans hlater
    · rw [overwrite_eq_self p.value _ document hat]
      exact hlater

/-! ### Repeated deeds -/

def SuitsArray (target : Path) (value : Json) : Prop :=
  target.isArray = true → ∃ items, value = .arr items

/-- At every target there is a value of the sort that the target is for. -/
def Holds (placements : List Placement) (document : Json) : Prop :=
  ∀ p ∈ placements, ∃ value, document.at? p.target.keys = some value ∧ SuitsArray p.target value

/-- A fixed deed keeps all documents, or it places the same value wherever it succeeds, as it does
where there is a value of the right sort. -/
theorem Deed.perform_of_fixed (deed : Deed) (target : Path) (document after : Json)
    (hfixed : deed.Fixed target) (h : deed.perform target document = some after) :
    (after = document ∧ ∀ other, deed.perform target other = some other) ∨
      ∃ value, place? target value document = some after ∧ SuitsArray target value ∧
        ∀ other old, other.at? target.keys = some old → SuitsArray target old →
          deed.perform target other = some (overwrite value target.keys other) := by
  cases deed with
  | refuse => cases h
  | keep =>
    cases h
    exact Or.inl ⟨rfl, fun _ => rfl⟩
  | extend elements => exact hfixed.elim
  | put value =>
    have hscalar : target.isArray = false := hfixed
    refine Or.inr ⟨value, h, fun harray => ?_, fun other old hold _ => ?_⟩
    · rw [hscalar] at harray
      cases harray
    · exact place?_of_at? target value other old hold
  | exchange elements =>
    refine Or.inr ⟨.arr elements, ?_, fun _ => ⟨elements, rfl⟩, fun other old hold hsuits => ?_⟩
    · rw [perform, stored?] at h
      cases hfound : arrayFound? (document.at? target.keys) with
      | none =>
        rw [hfound] at h
        cases h
      | some old =>
        rw [hfound] at h
        exact h
    · obtain ⟨items, rfl⟩ := hsuits hfixed
      rw [perform, hold]
      exact place?_of_at? target (.arr elements) other (.arr items) hold

theorem Holds.overwrite {p : Placement} {rest : List Placement} {document : Json}
    (hvalue : SuitsArray p.target p.value) (hcompatible : ∀ q ∈ rest, p.Compatible q)
    (h : Holds (p :: rest) document) :
    Holds rest (Document.overwrite p.value p.target.keys document) := by
  intro q hq
  rcases hcompatible q hq with hsame | hapart
  · obtain ⟨old, hold, -⟩ := h p List.mem_cons_self
    rw [← hsame]
    exact ⟨p.value, at?_overwrite p.value p.target.keys document old hold, hvalue⟩
  · obtain ⟨old, hold, hsuits⟩ := h q (List.mem_cons_of_mem p hq)
    refine ⟨old, ?_, hsuits⟩
    rw [at?_overwrite_of_apart p.value q.target.keys p.target.keys document ⟨hapart.2, hapart.1⟩]
    exact hold

theorem Settled.holds {placements : List Placement} {document : Json}
    (hcompatible : placements.Pairwise Placement.Compatible)
    (hvalues : ∀ p ∈ placements, SuitsArray p.target p.value) (h : Settled placements document) :
    Holds placements document := by
  intro p hp
  obtain ⟨q, hq, htarget, hat⟩ := h.exists_at? hcompatible p hp
  exact ⟨q.value, hat, htarget ▸ hvalues q hq⟩

theorem start_of_place? (target : Path) (value document after : Json)
    (h : place? target value document = some after) : start after = after := by
  have hvalue := at?_place? target value document after h
  obtain ⟨members, rfl⟩ :=
    exists_of_at?_concat_eq_some target.parents target.leaf after value hvalue
  rfl

theorem start_of_placeAll? (placements : List Placement) (document after : Json)
    (hstart : start document = document) (h : placeAll? placements document = some after) :
    start after = after := by
  induction placements generalizing document with
  | nil =>
    cases h
    exact hstart
  | cons p rest ih =>
    obtain ⟨next, hnext, hlater⟩ := Option.bind_eq_some_iff.1 h
    exact ih next (start_of_place? p.target p.value document next hnext) hlater

theorem start_start (document : Json) : start (start document) = start document := by
  cases document <;> rfl

end Crosswalk.Document

/-! ### Repeated runs -/

namespace Crosswalk

/-- The rule assigns a value: it sets a Boolean, or stores a text, or puts a list in the place of an
array. -/
inductive Rule.Assigning (rule : Rule) : Prop where
  | boolean (hkind : rule.kind = .boolean) (haction : rule.head.boolAction ≠ some .remove)
  | expression (hkind : rule.kind = .expression) (hremoves : rule.head.RemovesNothing)
      (hpolicy : Path.isMarked rule.head.path = true →
        rule.head.policy = some .exchangeExisting)

namespace Mapping

open Document (Deed Apart Placement placeAll? overwriteAll SuitsArray Holds)

variable (setting : Setting) (record : Marc.Record)

/-- The rules that are not passed over assign values, their paths can be read, and any two of them
have the same path or places apart. -/
structure Replayable (rules : List Rule) : Prop where
  assigning : ∀ rule ∈ rules, rule.head.enabled = true → rule.Assigning
  readable : ∀ rule ∈ rules, rule.head.enabled = true → ∃ p, Path.parse rule.head.path = .ok p
  apart : ∀ rule ∈ rules, ∀ other ∈ rules,
    rule.head.enabled = true → other.head.enabled = true →
    ∀ p q, Path.parse rule.head.path = .ok p → Path.parse other.head.path = .ok q →
      p = q ∨ Apart p.keys q.keys

theorem exists_deed_of_assigning {rule : Rule} {target : Path} (h : rule.Assigning)
    (hpath : Path.parse rule.head.path = .ok target) :
    ∃ deed : Deed, deed.Fixed target ∧ Performs setting record rule target deed := by
  cases h with
  | boolean hkind haction =>
    obtain ⟨deed, ⟨-, hfixed⟩, hperforms⟩ := exists_deed_of_boolean hkind haction hpath
    exact ⟨deed, hfixed, hperforms⟩
  | expression hkind hremoves hpolicy =>
    obtain ⟨deed, ⟨-, hfixed⟩, hperforms⟩ :=
      exists_deed_of_expression hkind hremoves hpath fun hmarked => Or.inr (hpolicy hmarked)
    exact ⟨deed, hfixed hpolicy, hperforms⟩

theorem applyRule_of_replayable {rules : List Rule} (hreplayable : Replayable rules) (rule : Rule)
    (hrule : rule ∈ rules) (document after : Json)
    (h : applyRule setting record document rule = .ok after) :
    (after = document ∧ ∀ other, applyRule setting record other rule = .ok other) ∨
      ∃ p : Placement, rule.head.enabled = true ∧ Path.parse rule.head.path = .ok p.target ∧
        Document.place? p.target p.value document = some after ∧ SuitsArray p.target p.value ∧
        ∀ other old, other.at? p.target.keys = some old → SuitsArray p.target old →
          applyRule setting record other rule
            = .ok (Document.overwrite p.value p.target.keys other) := by
  cases henabled : rule.head.enabled with
  | false =>
    have hkeeps := fun other => applyRule_of_disabled setting record other rule henabled
    rw [hkeeps document, Except.ok.injEq] at h
    exact Or.inl ⟨h.symm, hkeeps⟩
  | true =>
    obtain ⟨target, hpath⟩ := hreplayable.readable rule hrule henabled
    obtain ⟨deed, hfixed, hperforms⟩ :=
      exists_deed_of_assigning setting record (hreplayable.assigning rule hrule henabled) hpath
    have hperform : deed.perform target document = some after := by
      rw [← hperforms document, h]
      rfl
    have happly : ∀ other result, deed.perform target other = some result →
        applyRule setting record other rule = .ok result := by
      intro other result hresult
      exact eq_ok_of_toOption _ result ((hperforms other).trans hresult)
    rcases deed.perform_of_fixed target document after hfixed hperform with
      ⟨hsame, hkeeps⟩ | ⟨value, hplace, hsuits, hagain⟩
    · exact Or.inl ⟨hsame, fun other => happly other other (hkeeps other)⟩
    · refine Or.inr ⟨⟨target, value⟩, rfl, hpath, hplace, hsuits, ?_⟩
      intro other old hold holdSuits
      exact happly other _ (hagain other old hold holdSuits)

theorem Replayable.tail {rule : Rule} {rest : List Rule} (h : Replayable (rule :: rest)) :
    Replayable rest where
  assigning := fun other hother => h.assigning other (List.mem_cons_of_mem rule hother)
  readable := fun other hother => h.readable other (List.mem_cons_of_mem rule hother)
  apart := fun first hfirst second hsecond =>
    h.apart first (List.mem_cons_of_mem rule hfirst) second (List.mem_cons_of_mem rule hsecond)

def ComesFrom (rules : List Rule) (p : Placement) : Prop :=
  SuitsArray p.target p.value ∧
    ∃ rule ∈ rules, rule.head.enabled = true ∧ Path.parse rule.head.path = .ok p.target

theorem ComesFrom.cons {rest : List Rule} {p : Placement} (rule : Rule) (h : ComesFrom rest p) :
    ComesFrom (rule :: rest) p := by
  obtain ⟨hsuits, other, hother, henabled, hpath⟩ := h
  exact ⟨hsuits, other, List.mem_cons_of_mem rule hother, henabled, hpath⟩

/-- What a successful run places. On a document that holds values of the right sort at the targets,
the run overwrites these. -/
theorem exists_placements (rules : List Rule) (hreplayable : Replayable rules)
    (document after : Json) (h : applyRules setting record rules document = .ok after) :
    ∃ placements : List Placement,
      placeAll? placements document = some after ∧ (∀ p ∈ placements, ComesFrom rules p) ∧
      (placements.Pairwise Placement.Compatible → ∀ other, Holds placements other →
        applyRules setting record rules other = .ok (overwriteAll placements other)) := by
  induction rules generalizing document with
  | nil =>
    cases h
    exact ⟨[], rfl, List.forall_mem_nil _, fun _ _ _ => rfl⟩
  | cons rule rest ih =>
    rw [applyRules, List.foldlM_cons, bind_eq_ok_iff] at h
    obtain ⟨next, hnext, hlater⟩ := h
    obtain ⟨placements, hplaced, hcomes, hagain⟩ := ih hreplayable.tail next hlater
    rcases applyRule_of_replayable setting record hreplayable rule List.mem_cons_self document next
      hnext with ⟨rfl, hkeeps⟩ | ⟨p, henabled, hpath, hplace, hsuits, hrepeat⟩
    · refine ⟨placements, hplaced, fun q hq => (hcomes q hq).cons rule, ?_⟩
      intro hcompatible other hholds
      rw [applyRules, List.foldlM_cons, hkeeps other]
      exact hagain hcompatible other hholds
    · refine ⟨p :: placements, ?_, ?_, ?_⟩
      · rw [placeAll?, List.foldlM_cons, hplace]
        exact hplaced
      · have hfirst : ComesFrom (rule :: rest) p :=
          ⟨hsuits, rule, List.mem_cons_self, henabled, hpath⟩
        exact List.forall_mem_cons.2 ⟨hfirst, fun q hq => (hcomes q hq).cons rule⟩
      · intro hcompatible other hholds
        obtain ⟨hfirst, hrest⟩ := List.pairwise_cons.1 hcompatible
        obtain ⟨old, hold, holdSuits⟩ := hholds p List.mem_cons_self
        rw [applyRules, List.foldlM_cons, hrepeat other old hold holdSuits]
        exact hagain hrest _ (hholds.overwrite hsuits hfirst)

/-- Rules that assign values at the same path or at places apart: if a record is mapped with them,
then mapping it again, into the document that came out, yields that document once more. -/
theorem repeated_run_changes_nothing (entity : Entity) (profile : Profile) (document : Json)
    (mapped : Mapped) (hentity : entity ≠ .holdings)
    (hreplayable : Replayable (profile.rules?.getD []))
    (h : map setting entity profile record document = .ok mapped) :
    ∃ result, mapped = ⟨[result], []⟩ ∧ map setting entity profile record result = .ok mapped := by
  obtain ⟨rules?⟩ := profile
  cases rules? with
  | none =>
    cases h
    exact ⟨document, rfl, rfl⟩
  | some rules =>
    rw [map_of_ne_holdings _ _ _ _ _ hentity, map_eq_ok_iff] at h
    obtain ⟨result, hrun, rfl⟩ := h
    obtain ⟨placements, hplaced, hcomes, hagain⟩ :=
      exists_placements setting record rules hreplayable _ result hrun
    have hcompatible : placements.Pairwise Placement.Compatible := by
      refine List.pairwise_of_forall_mem_list fun p hp q hq => ?_
      obtain ⟨-, rule, hrule, henabled, hpath⟩ := hcomes p hp
      obtain ⟨-, other, hother, hotherEnabled, hotherPath⟩ := hcomes q hq
      exact hreplayable.apart rule hrule other hother henabled hotherEnabled _ _ hpath hotherPath
    have hsettled := Document.settled_of_placeAll? placements _ result hplaced
    have hholds := hsettled.holds hcompatible fun p hp => (hcomes p hp).1
    have hstart :=
      Document.start_of_placeAll? placements _ result (Document.start_start document) hplaced
    refine ⟨result, rfl, ?_⟩
    rw [map_of_ne_holdings _ _ _ _ _ hentity, hstart, hagain hcompatible result hholds,
      Document.overwriteAll_of_settled placements result hcompatible hsettled]
    rfl

theorem notes_are_exchanged_back :
    let setting : Setting := ⟨default, {}, fun _ => "2000-01-01"⟩
    let exchanged (tag : String) : Rule :=
      ⟨{ path := "item.notes[]", expression := some tag, policy := some .exchangeExisting }, []⟩
    let flag := Rule.ofBoolAction "item.status.lost" .allTrue
    let rules := [exchanged "500$a", flag, exchanged "501$a"]
    let record : Marc.Record := ⟨"", [],
      [⟨"501", ' ', ' ', [⟨'a', "m"⟩]⟩, ⟨"500", ' ', ' ', [⟨'a', "n"⟩]⟩]⟩
    let document : Json := .obj [("item", .obj [("status", .null), ("id", .str "1")])]
    let result : Json := .obj [("item", .obj [("status", .obj [("lost", .bool true)]),
      ("id", .str "1"), ("notes", .arr [.str "m"])])]
    Replayable rules ∧ map setting .item ⟨some rules⟩ record document = .ok ⟨[result], []⟩ ∧
      map setting .item ⟨some rules⟩ record result = .ok ⟨[result], []⟩ := by
  intro setting exchanged flag rules record document result
  have hnotes : Path.parse "item.notes[]" = .ok ⟨["item"], "notes", true⟩ := by decide +kernel
  have hflag : Path.parse "item.status.lost" = .ok ⟨["item", "status"], "lost", false⟩ := by
    decide +kernel
  have hassigning : ∀ rule ∈ rules, rule.Assigning := by
    have hfirst : Expression.parse "500$a" = .ok ⟨[[.field "500" ['a']]]⟩ := by decide +kernel
    have hsecond : Expression.parse "501$a" = .ok ⟨[[.field "501" ['a']]]⟩ := by decide +kernel
    have hremovesFirst :=
      (exchanged "500$a").head.removesNothing_of_parse _ _ rfl hfirst (by decide)
    have hremovesSecond :=
      (exchanged "501$a").head.removesNothing_of_parse _ _ rfl hsecond (by decide)
    simp only [rules, List.forall_mem_cons]
    exact ⟨.expression (by decide +kernel) hremovesFirst fun _ => rfl,
      .boolean (by decide +kernel) (by decide),
      .expression (by decide +kernel) hremovesSecond fun _ => rfl, List.forall_mem_nil _⟩
  let paths : List Path := [⟨["item"], "notes", true⟩, ⟨["item", "status"], "lost", false⟩]
  have hpaths : ∀ rule ∈ rules, ∃ p, Path.parse rule.head.path = .ok p ∧ p ∈ paths := by
    simp only [rules, List.forall_mem_cons]
    exact ⟨⟨_, hnotes, by decide⟩, ⟨_, hflag, by decide⟩, ⟨_, hnotes, by decide⟩,
      List.forall_mem_nil _⟩
  have hapart : ∀ p ∈ paths, ∀ q ∈ paths, p = q ∨ Apart p.keys q.keys := by decide
  have hreplayable : Replayable rules := by
    refine ⟨fun rule hrule _ => hassigning rule hrule, fun rule hrule _ => ?_, ?_⟩
    · obtain ⟨p, hp, -⟩ := hpaths rule hrule
      exact ⟨p, hp⟩
    · intro rule hrule other hother _ _ p q hp hq
      obtain ⟨p', hp', hfirst⟩ := hpaths rule hrule
      obtain ⟨q', hq', hsecond⟩ := hpaths other hother
      cases hp.symm.trans hp'
      cases hq.symm.trans hq'
      exact hapart p hfirst q hsecond
  have hmap : map setting .item ⟨some rules⟩ record document = .ok ⟨[result], []⟩ := by
    unfold result document record rules flag exchanged setting
    with_unfolding_all rfl
  obtain ⟨result', hmapped, hagain⟩ :=
    repeated_run_changes_nothing setting record .item ⟨some rules⟩ document _ (by decide)
      hreplayable hmap
  cases hmapped
  exact ⟨hreplayable, hmap, hagain⟩

end Mapping

end Crosswalk
