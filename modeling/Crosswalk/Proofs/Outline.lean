import Crosswalk.Proofs.Deeds
import Crosswalk.Proofs.Frame

/-!
# Outlines of documents

The outline of a document tells for every place what is there: nothing, an object,
or a value of another sort. It forgets the order of keys and nothing else. In an
outline a value is placed without a walk, and two values at unrelated places can be
placed in either order; documents follow their outlines in this as far as the order
of keys goes.
-/

namespace Crosswalk

/-- What is found at the end of any keys. -/
abbrev Outline := List String → Option Json

namespace Json

/-- The value itself, its members apart. -/
def surface : Json → Json
  | .obj _ => .obj []
  | value => value

def outline (document : Json) : Outline := fun place => (document.at? place).map surface

theorem surface_of_members? (value : Json) (h : value.members? = none) : value.surface = value := by
  cases value with
  | obj members => cases h
  | _ => rfl

theorem exists_of_surface (value : Json) (h : value.surface = .obj []) :
    ∃ members, value = .obj members := by
  cases value with
  | obj members => exact ⟨members, rfl⟩
  | _ => cases h

theorem outline_nil (value : Json) : value.outline [] = some value.surface := by
  rw [outline, at?_nil, Option.map_some]

end Json

namespace Document

theorem isSome_storage?_surface (value : Json) :
    (storage? value.surface).isSome = (storage? value).isSome := by
  cases value <;> rfl

theorem arrayFound?_surface (found : Option Json) :
    arrayFound? (found.map Json.surface) = arrayFound? found := by
  cases found with
  | none => rfl
  | some value => cases value <;> rfl

theorem Deed.stored?_surface (deed : Deed) (found : Option Json) :
    deed.stored? (found.map Json.surface) = deed.stored? found := by
  cases deed <;> simp only [stored?, arrayFound?_surface]

end Document

/-! ### Placing values -/

namespace Outline

open Document (storage? Deed Apart)

def isOpen (keys : List String) (outline : Outline) : Bool :=
  keys.inits.all fun place => (outline place).all fun value => (storage? value).isSome

/-- The outline with the value at the target, and with objects on the way to it. -/
def place (target : Path) (value : Json) (outline : Outline) : Outline := fun place =>
  if place <+: target.parents then some (.obj [])
  else if place = target.keys then some value
  else if target.keys <+: place then none
  else outline place

def place? (target : Path) (value : Json) (outline : Outline) : Option Outline :=
  if outline.isOpen target.parents then some (outline.place target value) else none

def settle (target : Path) (outline : Outline) : Option (Option Json) → Option Outline
  | none => none
  | some none => some outline
  | some (some value) => outline.place? target value

def perform (target : Path) (deed : Deed) (outline : Outline) : Option Outline :=
  outline.settle target (deed.stored? (outline target.keys))

variable {p q : Path} (outline : Outline)

theorem not_prefix_parents (h : ¬ q.keys <+: p.keys) : ¬ q.keys <+: p.parents :=
  fun hway => h (hway.trans (List.prefix_append _ _))

theorem place_of_apart (value : Json) (h : Apart p.keys q.keys) :
    outline.place q value p.keys = outline p.keys := by
  have hparents := not_prefix_parents h.1
  have hkeys : p.keys ≠ q.keys := fun he => h.1 (he ▸ List.prefix_rfl)
  simp only [place, hparents, hkeys, h.2, if_false]

/-- A value elsewhere does not get in the way, and the walk to it opens nothing that was not open
for it before. -/
theorem isOpen_place (value : Json) (h : Apart p.keys q.keys)
    (hopen : outline.isOpen q.parents = true) :
    (outline.place q value).isOpen p.parents = outline.isOpen p.parents := by
  rw [isOpen, isOpen, Bool.eq_iff_iff, List.all_eq_true, List.all_eq_true]
  refine forall₂_congr fun place hplace => ?_
  have hbefore : place <+: p.keys :=
    ((List.mem_inits _ _).1 hplace).trans (List.prefix_append _ _)
  by_cases hway : place <+: q.parents
  · have hwas := List.all_eq_true.1 hopen place ((List.mem_inits _ _).2 hway)
    have hobject : outline.place q value place = some (.obj []) := by
      simp only [Outline.place, hway, if_true]
    rw [hobject, hwas]
    exact Iff.rfl
  · have hkeys : place ≠ q.keys := fun he => h.2 (he ▸ hbefore)
    have hbelow : ¬ q.keys <+: place := fun he => h.2 (he.trans hbefore)
    simp only [Outline.place, hway, hkeys, hbelow, if_false]

theorem place_place (v w : Json) (h : Apart p.keys q.keys) :
    (outline.place p v).place q w = (outline.place q w).place p v := by
  funext place
  by_cases hp : place <+: p.parents
  · have hbefore : place <+: p.keys := hp.trans (List.prefix_append _ _)
    have hkeys : place ≠ q.keys := fun he => h.2 (he ▸ hbefore)
    have hbelow : ¬ q.keys <+: place := fun he => h.2 (he.trans hbefore)
    by_cases hq : place <+: q.parents
    · simp only [Outline.place, hp, hq, if_true]
    · simp only [Outline.place, hp, hq, hkeys, hbelow, if_true, if_false]
  · by_cases hat : p.keys <+: place
    · have hq : ¬ place <+: q.parents := fun he => not_prefix_parents h.1 (hat.trans he)
      have hkeys : place ≠ q.keys := fun he => h.1 (he ▸ hat)
      have hbelow : ¬ q.keys <+: place := fun he =>
        (List.prefix_or_prefix_of_prefix hat he).elim h.1 h.2
      simp only [Outline.place, hp, hq, hkeys, hbelow, if_false]
    · have hkeys : place ≠ p.keys := fun he => hat (he ▸ List.prefix_rfl)
      simp only [Outline.place, hp, hat, hkeys, if_false]

theorem place?_place? (v w : Json) (h : Apart p.keys q.keys) :
    (outline.place? p v).bind (place? q w) = (outline.place? q w).bind (place? p v) := by
  have hback : Apart q.keys p.keys := ⟨h.2, h.1⟩
  cases hp : outline.isOpen p.parents with
  | false =>
    cases hq : outline.isOpen q.parents with
    | false => simp [place?, hp, hq]
    | true => simp [place?, hp, hq, isOpen_place outline w h hq]
  | true =>
    cases hq : outline.isOpen q.parents with
    | false => simp [place?, hp, hq, isOpen_place outline v hback hp]
    | true =>
      simp [place?, hp, hq, isOpen_place outline w h hq, isOpen_place outline v hback hp,
        place_place outline v w h]

theorem settle_apart (stored : Option (Option Json)) (after : Outline)
    (h : Apart p.keys q.keys) (hsettle : outline.settle q stored = some after) :
    after p.keys = outline p.keys := by
  match stored with
  | none => cases hsettle
  | some none =>
    cases hsettle
    rfl
  | some (some value) =>
    rw [settle, place?] at hsettle
    split at hsettle
    · cases hsettle
      exact place_of_apart outline value h
    · cases hsettle

theorem settle_settle (first second : Option (Option Json)) (h : Apart p.keys q.keys) :
    (outline.settle p first).bind (fun after => after.settle q second)
      = (outline.settle q second).bind fun after => after.settle p first := by
  match first, second with
  | none, none => rfl
  | none, some none => rfl
  | some none, none => rfl
  | some none, some none => rfl
  | none, some (some w) => exact (Option.bind_fun_none _).symm
  | some (some v), none => exact Option.bind_fun_none _
  | some none, some (some w) => exact (Option.bind_fun_some _).symm
  | some (some v), some none => exact Option.bind_fun_some _
  | some (some v), some (some w) => exact place?_place? outline v w h

/-- Two deeds at unrelated places can be done in either order: neither gets in the way of the other,
and neither sees what the other has done. -/
theorem perform_perform (first second : Deed) (h : Apart p.keys q.keys) :
    (outline.perform p first).bind (perform q second)
      = (outline.perform q second).bind (perform p first) := by
  have hfirst : (outline.perform p first).bind (perform q second)
      = (outline.perform p first).bind fun after =>
          after.settle q (second.stored? (outline q.keys)) := by
    refine Option.bind_congr fun after hafter => ?_
    rw [perform, settle_apart outline _ after ⟨h.2, h.1⟩ hafter]
  have hsecond : (outline.perform q second).bind (perform p first)
      = (outline.perform q second).bind fun after =>
          after.settle p (first.stored? (outline p.keys)) := by
    refine Option.bind_congr fun after hafter => ?_
    rw [perform, settle_apart outline _ after h hafter]
  rw [hfirst, hsecond]
  exact settle_settle outline _ _ h

end Outline

/-! ### Walks that nothing stands in the way of -/

namespace Document

theorem isOpen_null (keys : List String) : Json.null.outline.isOpen keys = true := by
  refine List.all_eq_true.2 fun place _ => ?_
  cases place <;> rfl

theorem isOpen_cons_obj (key : String) (rest : List String) (members : List (String × Json)) :
    (Json.obj members).outline.isOpen (key :: rest)
      = ((Entries.get? key members).getD .null).outline.isOpen rest := by
  have hbelow : ∀ place, (Json.obj members).outline (key :: place)
      = ((Entries.get? key members).bind (Json.at? place)).map Json.surface := fun _ => rfl
  have hsplit : (Json.obj members).outline.isOpen (key :: rest)
      = rest.inits.all fun place => ((Json.obj members).outline (key :: place)).all
          fun value => (storage? value).isSome := by
    rw [Outline.isOpen, List.inits_cons, List.all_cons, List.all_map]
    rfl
  rw [hsplit]
  cases hget : Entries.get? key members with
  | none =>
    rw [Option.getD_none, isOpen_null]
    simp only [hbelow, hget, Option.bind_none, Option.map_none, Option.all_none, List.all_eq_true,
      implies_true]
  | some value =>
    simp only [hbelow, hget, Option.bind_some, Option.getD_some]
    rfl

theorem isOpen_of_storage? (keys : List String) (value : Json) (members : List (String × Json))
    (h : storage? value = some members) :
    value.outline.isOpen keys = (Json.obj members).outline.isOpen keys := by
  rcases storage?_eq_some value members h with rfl | ⟨rfl, rfl⟩
  · rfl
  · refine congrArg (keys.inits.all ·) (funext fun place => ?_)
    cases place <;> rfl

theorem isOpen_of_storage?_eq_none (keys : List String) (value : Json) (h : storage? value = none) :
    value.outline.isOpen keys = false := by
  have hroot := isSome_storage?_surface value
  rw [h, Option.isSome_none] at hroot
  refine List.all_eq_false.2 ⟨[], (List.mem_inits _ _).2 List.nil_prefix, ?_⟩
  rw [Json.outline_nil, Option.all_some, hroot]
  exact Bool.false_ne_true

theorem changeWithin_eq_none_iff (change : List (String × Json) → List (String × Json))
    (keys : List String) (members : List (String × Json)) :
    (changeWithin change keys members).2 = none ↔
      (Json.obj members).outline.isOpen keys = true := by
  induction keys generalizing members with
  | nil => exact ⟨fun _ => rfl, fun _ => rfl⟩
  | cons key rest ih =>
    rw [isOpen_cons_obj]
    cases hstored : storage? ((Entries.get? key members).getD .null) with
    | none =>
      rw [isOpen_of_storage?_eq_none rest _ hstored]
      simp only [changeWithin, hstored, reduceCtorEq, Bool.false_eq_true]
    | some inner =>
      rw [isOpen_of_storage? rest _ inner hstored, ← ih inner]
      simp only [changeWithin, hstored]

theorem failure?_changeAt_eq_none_iff (shown : String) (keys : List String)
    (change : List (String × Json) → List (String × Json)) (document : Json) :
    (changeAt shown keys change document).failure? = none ↔
      document.outline.isOpen keys = true := by
  cases hstored : storage? document with
  | none =>
    rw [isOpen_of_storage?_eq_none keys document hstored]
    simp only [changeAt, hstored, reduceCtorEq, Bool.false_eq_true]
  | some members =>
    rw [isOpen_of_storage? keys document members hstored, ← changeWithin_eq_none_iff change]
    simp only [changeAt, hstored, Option.map_eq_none_iff]

/-! ### Deeds in documents and in outlines -/

/-- The places on the way hold objects, the target holds the value, and what was below it has gone;
other places are apart from the target. -/
theorem outline_changeAt_insert (target : Path) (shown : String) (value document : Json)
    (hvalue : value.members? = none)
    (h : (changeAt shown target.parents (Entries.insert target.leaf value)
      document).failure? = none) :
    (changeAt shown target.parents (Entries.insert target.leaf value) document).document.outline
      = document.outline.place target value := by
  have hobject := at?_changeAt shown target.parents _ document h
  have hstored : (changeAt shown target.parents (Entries.insert target.leaf value)
      document).document.at? target.keys = some value :=
    at?_changeAt_insert target shown (fun _ => value) document h
  have hframed := framed_changeAt_insert target shown value document
  generalize (changeAt shown target.parents (Entries.insert target.leaf value)
    document).document = after at hobject hstored hframed ⊢
  funext place
  rw [Outline.place, Json.outline]
  split
  · rename_i hway
    obtain ⟨rest, hrest⟩ := hway
    have hwhole : (after.at? place).bind (Json.at? rest) = after.at? target.parents := by
      rw [← Json.at?_append, hrest]
    rw [hobject] at hwhole
    obtain ⟨inner, hinner, hend⟩ := Option.bind_eq_some_iff.1 hwhole
    obtain ⟨members, rfl⟩ := Json.exists_of_at?_obj rest inner _ hend
    rw [hinner]
    rfl
  · rename_i hway
    split
    · rename_i hkeys
      rw [hkeys, hstored, Option.map_some, Json.surface_of_members? value hvalue]
    · rename_i hkeys
      split
      · rename_i hbelow
        obtain ⟨rest, rfl⟩ := hbelow
        rw [Json.at?_append, hstored, Option.bind_some]
        cases rest with
        | nil => exact absurd (List.append_nil _) hkeys
        | cons key rest =>
          cases value with
          | obj members => cases hvalue
          | _ => rfl
      · rename_i hbelow
        have hapart : Apart place target.keys := by
          refine ⟨fun htoward => ?_, hbelow⟩
          rcases List.prefix_concat_iff.1 htoward with hwhole | hparents
          · exact hkeys hwhole
          · exact hway hparents
        rw [hframed.lookup place fun path hpath => List.mem_singleton.1 hpath ▸ hapart]
        rfl

theorem outline_place? (target : Path) (value document : Json) (hvalue : value.members? = none) :
    (place? target value document).map Json.outline
      = document.outline.place? target value := by
  rw [place?, Outline.place?]
  cases hfailure : (changeAt "" target.parents (Entries.insert target.leaf value)
      document).failure? with
  | none =>
    have hopen := (failure?_changeAt_eq_none_iff _ _ _ _).1 hfailure
    have houtline := outline_changeAt_insert target "" value document hvalue hfailure
    rw [Written.outcome, hfailure, if_pos hopen, ← houtline]
    rfl
  | some e =>
    have hblocked : ¬ document.outline.isOpen target.parents = true := by
      intro hopen
      rw [(failure?_changeAt_eq_none_iff "" _ _ _).2 hopen] at hfailure
      cases hfailure
    rw [Written.outcome, hfailure, if_neg hblocked]
    rfl

theorem Deed.outline_perform (deed : Deed) (target : Path) (document : Json) (h : deed.Plain) :
    (deed.perform target document).map Json.outline = document.outline.perform target deed := by
  rw [perform, Outline.perform, Json.outline, stored?_surface]
  cases hstored : deed.stored? (document.at? target.keys) with
  | none => rfl
  | some stored =>
    cases stored with
    | none => rfl
    | some value => exact outline_place? target value document (h _ value hstored)

end Document

/-! ### Documents with the same outline -/

namespace Json

/-- No object at the end of keys names a key twice. -/
def ObjectsDistinct (document : Json) : Prop :=
  ∀ place members, document.at? place = some (.obj members) → Entries.Distinct members

theorem ObjectsDistinct.of_distinctKeys (document : Json) (h : document.DistinctKeys) :
    document.ObjectsDistinct := by
  intro place members hat
  exact (distinctKeys_at? place document _ h hat).1

theorem ObjectsDistinct.of_members? (value : Json) (h : value.members? = none) :
    value.ObjectsDistinct := by
  intro place members hat
  obtain ⟨inner, rfl⟩ := exists_of_at?_obj place value members hat
  cases h

theorem ObjectsDistinct.of_get? (key : String) (members : List (String × Json)) (value : Json)
    (h : (Json.obj members).ObjectsDistinct) (hget : Entries.get? key members = some value) :
    value.ObjectsDistinct := by
  intro place inner hat
  refine h (key :: place) inner ?_
  rw [at?_cons_obj, hget, Option.bind_some, hat]

theorem ObjectsDistinct.insert (key : String) (value : Json) (members : List (String × Json))
    (h : (Json.obj members).ObjectsDistinct) (hvalue : value.ObjectsDistinct) :
    (Json.obj (Entries.insert key value members)).ObjectsDistinct := by
  intro place inner hat
  cases place with
  | nil =>
    rw [at?_nil] at hat
    cases hat
    exact Entries.distinct_insert key value (h [] members (at?_nil _))
  | cons k rest =>
    rw [at?_cons_obj] at hat
    by_cases hk : k = key
    · rw [hk, Entries.get?_insert_self, Option.bind_some] at hat
      exact hvalue rest inner hat
    · rw [Entries.get?_insert_of_ne hk] at hat
      exact h (k :: rest) inner hat

theorem ObjectsDistinct.of_storage? (value : Json) (members : List (String × Json))
    (h : value.ObjectsDistinct) (hstored : Document.storage? value = some members) :
    (Json.obj members).ObjectsDistinct := by
  rcases Document.storage?_eq_some value members hstored with rfl | ⟨rfl, rfl⟩
  · exact h
  · intro place inner hat
    cases place with
    | nil =>
      cases hat
      exact List.nodup_nil
    | cons key rest => cases hat

theorem ObjectsDistinct.changeWithin (leaf : String) (value : Json) (hvalue : value.members? = none)
    (keys : List String) (members : List (String × Json))
    (h : (Json.obj members).ObjectsDistinct) :
    (Json.obj
      (Document.changeWithin (Entries.insert leaf value) keys members).1).ObjectsDistinct := by
  induction keys generalizing members with
  | nil => exact h.insert leaf value members (.of_members? value hvalue)
  | cons key rest ih =>
    cases hstored : Document.storage? ((Entries.get? key members).getD .null) with
    | none =>
      simp only [Document.changeWithin, hstored]
      exact h
    | some inner =>
      have hbefore : ((Entries.get? key members).getD .null).ObjectsDistinct := by
        cases hget : Entries.get? key members with
        | none => exact .of_members? .null rfl
        | some old => exact h.of_get? key members old hget
      simp only [Document.changeWithin, hstored]
      exact h.insert key _ members (ih inner (hbefore.of_storage? _ inner hstored))

theorem ObjectsDistinct.place? (target : Path) (value document after : Json)
    (hvalue : value.members? = none) (h : document.ObjectsDistinct)
    (hplace : Document.place? target value document = some after) : after.ObjectsDistinct := by
  have hchange := Document.changeAt_of_place? target value document after hplace
  rw [Document.changeAt] at hchange
  cases hstored : Document.storage? document with
  | none =>
    rw [hstored] at hchange
    cases hchange
  | some members =>
    rw [hstored, Written.mk.injEq] at hchange
    rw [← hchange.1]
    exact (h.of_storage? document members hstored).changeWithin target.leaf value hvalue _ members

theorem ObjectsDistinct.perform (deed : Document.Deed) (target : Path) (document after : Json)
    (hplain : deed.Plain) (h : document.ObjectsDistinct)
    (hperform : deed.perform target document = some after) : after.ObjectsDistinct := by
  rw [Document.Deed.perform] at hperform
  split at hperform
  · cases hperform
  · cases hperform
    exact h
  · rename_i value hstored
    exact h.place? target value document after (hplain _ value hstored) hperform

theorem exists_get?_of_outline_eq (as bs : List (String × Json))
    (h : (Json.obj as).outline = (Json.obj bs).outline) (key : String) (value : Json)
    (hget : Entries.get? key as = some value) :
    ∃ other, Entries.get? key bs = some other ∧ value.outline = other.outline := by
  have hbelow : ∀ place, value.outline place
      = ((Entries.get? key bs).bind (at? place)).map surface := by
    intro place
    have hplace := congrFun h (key :: place)
    rw [outline, outline, at?_cons_obj, at?_cons_obj, hget, Option.bind_some] at hplace
    exact hplace
  cases hother : Entries.get? key bs with
  | none =>
    have hroot := hbelow []
    rw [outline_nil, hother] at hroot
    cases hroot
  | some other =>
    refine ⟨other, rfl, funext fun place => ?_⟩
    rw [hbelow, hother, Option.bind_some, outline]

def withValuesOf (bs as : List (String × Json)) : List (String × Json) :=
  as.map fun member => (member.1, (Entries.get? member.1 bs).getD .null)

theorem withValuesOf_perm (as bs : List (String × Json)) (has : Entries.Distinct as)
    (hbs : Entries.Distinct bs) (h : (Json.obj as).outline = (Json.obj bs).outline) :
    (withValuesOf bs as).Perm bs := by
  have hkeys : Entries.keys (withValuesOf bs as) = Entries.keys as := by
    rw [Entries.keys, withValuesOf, List.map_map]
    rfl
  have hdistinct : Entries.Distinct (withValuesOf bs as) := by
    rw [Entries.Distinct, hkeys]
    exact has
  refine (List.perm_ext_iff_of_nodup hdistinct.of_map hbs.of_map).2 ?_
  rintro ⟨key, other⟩
  constructor
  · intro hmem
    obtain ⟨⟨k, value⟩, hmember, hpair⟩ := List.mem_map.1 hmem
    cases hpair
    have hget := Entries.get?_of_mem k value as has hmember
    obtain ⟨found, hfound, -⟩ := exists_get?_of_outline_eq as bs h k value hget
    rw [hfound, Option.getD_some]
    exact Entries.mem_of_get? k found bs hfound
  · intro hmem
    have hget := Entries.get?_of_mem key other bs hbs hmem
    obtain ⟨value, hvalue, -⟩ := exists_get?_of_outline_eq bs as h.symm key other hget
    refine List.mem_map.2 ⟨(key, value), Entries.mem_of_get? key value as hvalue, ?_⟩
    rw [hget, Option.getD_some]

mutual

/-- Documents with the same outline are the same up to the order of keys. -/
theorem reordered_of_outline_eq (a b : Json) (ha : a.ObjectsDistinct) (hb : b.ObjectsDistinct)
    (h : a.outline = b.outline) : Reordered a b := by
  have hroot := congrFun h []
  rw [outline_nil, outline_nil, Option.some.injEq] at hroot
  cases a with
  | obj as =>
    obtain ⟨bs, rfl⟩ := exists_of_surface b hroot.symm
    have has := ha [] as (at?_nil _)
    have hbs := hb [] bs (at?_nil _)
    refine .obj (reorderedMembers_of_outlines as bs fun key value hmem => ?_)
      (withValuesOf_perm as bs has hbs h)
    have hget := Entries.get?_of_mem key value as has hmem
    obtain ⟨other, hother, hsame⟩ := exists_get?_of_outline_eq as bs h key value hget
    rw [hother, Option.getD_some]
    exact ⟨ha.of_get? key as value hget, hb.of_get? key bs other hother, hsame⟩
  | _ =>
    cases b with
    | obj bs => cases hroot
    | _ => exact Eq.mp (congrArg (Reordered _) hroot) (.same _)

theorem reorderedMembers_of_outlines (as bs : List (String × Json))
    (h : ∀ key value, (key, value) ∈ as → value.ObjectsDistinct ∧
      ((Entries.get? key bs).getD .null).ObjectsDistinct ∧
      value.outline = ((Entries.get? key bs).getD .null).outline) :
    ReorderedMembers as (withValuesOf bs as) := by
  cases as with
  | nil => exact .nil
  | cons member rest =>
    obtain ⟨key, value⟩ := member
    obtain ⟨ha, hb, hsame⟩ := h key value List.mem_cons_self
    have hrest := reorderedMembers_of_outlines rest bs fun k v hmem =>
      h k v (List.mem_cons_of_mem _ hmem)
    exact .cons key (reordered_of_outline_eq value _ ha hb hsame) hrest

end

end Json

end Crosswalk
