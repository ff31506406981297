import Crosswalk.Proofs.Effect

/-!
# What writes leave alone

A write changes a document along its path only. A place that the path neither
leads to nor leads through holds the same value afterwards, and the keys of an
object that are not on the path stay, in their order. Both are said of a list of
paths by `Framed`, shown for the four effects of a write, and carried along a
sequence of writes.
-/

namespace Crosswalk.Document

/-- Neither of the two places lies at or below the other. -/
def Apart (p q : List String) : Prop := ¬ p <+: q ∧ ¬ q <+: p

instance (p q : List String) : Decidable (Apart p q) :=
  inferInstanceAs (Decidable (_ ∧ _))

/-- The keys of the object at the place that are on none of the paths, in their order. -/
def keysOff (paths : List (List String)) (place : List String) (document : Json) : List String :=
  (Entries.keys (document.membersAt place)).filter fun key =>
    decide (∀ path ∈ paths, ¬ place ++ [key] <+: path)

/-- The two documents differ along the paths only. -/
structure Framed (paths : List (List String)) (before after : Json) : Prop where
  lookup : ∀ place, (∀ path ∈ paths, Apart place path) → after.at? place = before.at? place
  order : ∀ place, (∀ path ∈ paths, ¬ path <+: place) →
    keysOff paths place after = keysOff paths place before

namespace Framed

theorem refl (paths : List (List String)) (document : Json) : Framed paths document document :=
  ⟨fun _ _ => rfl, fun _ _ => rfl⟩

theorem trans {paths : List (List String)} {first second third : Json}
    (h₁ : Framed paths first second) (h₂ : Framed paths second third) : Framed paths first third :=
  ⟨fun place h => (h₂.lookup place h).trans (h₁.lookup place h),
    fun place h => (h₂.order place h).trans (h₁.order place h)⟩

theorem keysOff_of_subset {paths more : List (List String)} (h : paths ⊆ more)
    (place : List String) (document : Json) :
    keysOff more place document = (keysOff paths place document).filter fun key =>
      decide (∀ path ∈ more, ¬ place ++ [key] <+: path) := by
  simp only [keysOff, List.filter_filter, ← Bool.decide_and]
  apply List.filter_congr
  intro key _
  apply decide_eq_decide.2
  exact ⟨fun hmore => ⟨hmore, fun path hpath => hmore path (h hpath)⟩, And.left⟩

theorem mono {paths more : List (List String)} {before after : Json} (h : paths ⊆ more)
    (hframed : Framed paths before after) : Framed more before after := by
  refine ⟨fun place hplace => hframed.lookup place fun path hpath => hplace path (h hpath), ?_⟩
  intro place hplace
  rw [keysOff_of_subset h place after, keysOff_of_subset h place before]
  rw [hframed.order place fun path hpath => hplace path (h hpath)]

theorem root (before after : Json) : Framed [[]] before after := by
  constructor
  · intro place h
    exact absurd List.nil_prefix (h [] List.mem_cons_self).2
  · intro place h
    exact absurd List.nil_prefix (h [] List.mem_cons_self)

/-- An object without members and null are the same but for the place itself. -/
theorem memberless (path : List String) (before after : Json)
    (hbefore : ∀ place, before.membersAt place = []) (hafter : ∀ place, after.membersAt place = [])
    (hlookup : ∀ key rest, after.at? (key :: rest) = before.at? (key :: rest)) :
    Framed [path] before after := by
  constructor
  · intro place h
    cases place with
    | nil => exact absurd List.nil_prefix (h path List.mem_cons_self).1
    | cons key rest => exact hlookup key rest
  · intro place _
    simp only [keysOff, hbefore, hafter]

theorem of_null (path : List String) : Framed [path] .null (.obj []) := by
  apply memberless
  · intro place
    cases place <;> rfl
  · intro place
    cases place <;> rfl
  · exact fun _ _ => rfl

theorem to_null (path : List String) : Framed [path] (.obj []) .null := by
  apply memberless
  · intro place
    cases place <;> rfl
  · intro place
    cases place <;> rfl
  · exact fun _ _ => rfl

/-- One step of a walk: the objects agree but for the key, and its values differ along the rest of
the path only. Below the key an absent value counts as null. -/
theorem node {key : String} {rest : List String} {before after : List (String × Json)}
    (h : Entries.SameBut key before after)
    (hinner : Framed [rest] ((Entries.get? key before).getD .null)
      ((Entries.get? key after).getD .null)) :
    Framed [key :: rest] (.obj before) (.obj after) := by
  constructor
  · intro place hplace
    have hapart := hplace _ List.mem_cons_self
    cases place with
    | nil => exact absurd List.nil_prefix hapart.1
    | cons k place =>
      by_cases hk : k = key
      · subst hk
        simp only [Apart, List.cons_prefix_cons, true_and] at hapart
        cases place with
        | nil => exact absurd List.nil_prefix hapart.1
        | cons next place =>
          rw [Json.at?_cons_cons_obj, Json.at?_cons_cons_obj]
          apply hinner.lookup
          intro path hpath
          rw [List.mem_singleton.1 hpath]
          exact hapart
      · rw [Json.at?_cons_obj, Json.at?_cons_obj, h.lookup k hk]
  · intro place hplace
    have hbelow := hplace _ List.mem_cons_self
    cases place with
    | nil =>
      apply h.order
      simp only [List.mem_singleton, forall_eq, List.nil_append, List.cons_prefix_cons,
        List.nil_prefix, and_self, not_true_eq_false, decide_false]
    | cons k place =>
      simp only [keysOff, Json.membersAt_cons_obj]
      by_cases hk : k = key
      · subst hk
        simp only [List.cons_prefix_cons, true_and] at hbelow
        simp only [List.mem_singleton, forall_eq, List.cons_append, List.cons_prefix_cons, true_and]
        have horder := hinner.order place fun path hpath => by
          rw [List.mem_singleton.1 hpath]
          exact hbelow
        simp only [keysOff, List.mem_singleton, forall_eq] at horder
        exact horder
      · rw [h.lookup k hk]

theorem leaf {key : String} {before after : List (String × Json)}
    (h : Entries.SameBut key before after) : Framed [[key]] (.obj before) (.obj after) :=
  node h (root _ _)

end Framed

/-! ### The walks -/

theorem framed_changeWithin {change : List (String × Json) → List (String × Json)}
    {rest : List String} (h : ∀ members, Framed [rest] (.obj members) (.obj (change members)))
    (keys : List String) (members : List (String × Json)) :
    Framed [keys ++ rest] (.obj members) (.obj (changeWithin change keys members).1) := by
  induction keys generalizing members with
  | nil => exact h members
  | cons key keys ih =>
    cases hstored : storage? ((Entries.get? key members).getD .null) with
    | none =>
      simp only [changeWithin, hstored]
      exact Framed.refl _ _
    | some inner =>
      simp only [changeWithin, hstored, List.cons_append]
      apply Framed.node (Entries.sameBut_insert key _ members)
      rw [Entries.get?_insert_self, Option.getD_some]
      rcases storage?_eq_some _ inner hstored with hvalue | ⟨hvalue, rfl⟩
      · rw [hvalue]
        exact ih inner
      · rw [hvalue]
        exact (Framed.of_null _).trans (ih [])

theorem framed_changeAt {change : List (String × Json) → List (String × Json)}
    {rest : List String} (h : ∀ members, Framed [rest] (.obj members) (.obj (change members)))
    (shown : String) (keys : List String) (document : Json) :
    Framed [keys ++ rest] document (changeAt shown keys change document).document := by
  cases hstored : storage? document with
  | none =>
    simp only [changeAt, hstored]
    exact Framed.refl _ _
  | some members =>
    simp only [changeAt, hstored]
    have hwithin := framed_changeWithin h keys members
    rcases storage?_eq_some document members hstored with rfl | ⟨rfl, rfl⟩
    · exact hwithin
    · exact (Framed.of_null _).trans hwithin

theorem framed_changeAt_insert (target : Path) (shown : String) (value document : Json) :
    Framed [target.keys] document
      (changeAt shown target.parents (Entries.insert target.leaf value) document).document :=
  framed_changeAt (fun members => Framed.leaf (Entries.sameBut_insert target.leaf value members))
    shown target.parents document

theorem framed_adjustAt {change : List (String × Json) → List (String × Json)}
    {rest : List String} (h : ∀ members, Framed [rest] (.obj members) (.obj (change members)))
    (keys : List String) (document : Json) :
    Framed [keys ++ rest] document (adjustAt change keys document) := by
  induction keys generalizing document with
  | nil =>
    cases document with
    | obj members => exact h members
    | _ => exact Framed.refl _ _
  | cons key keys ih =>
    cases document with
    | obj outer =>
      cases hget : Entries.get? key outer with
      | none =>
        simp only [adjustAt, hget]
        exact Framed.refl _ _
      | some inner =>
        simp only [adjustAt, hget, List.cons_append]
        apply Framed.node (Entries.sameBut_insert key _ outer)
        rw [Entries.get?_insert_self, Option.getD_some, hget, Option.getD_some]
        exact ih inner
    | _ => exact Framed.refl _ _

/-! ### Removing an array -/

/-- An empty object has nothing below it, so its key can go without a loss below any path through
it. -/
theorem framed_eraseIfEmpty (key : String) (rest : List String) (members : List (String × Json)) :
    Framed [key :: rest] (.obj members) (.obj (eraseIfEmpty key members)) := by
  by_cases hempty : (Entries.get? key members).any isEmptyObject = true
  · simp only [eraseIfEmpty, hempty, if_true]
    apply Framed.node (Entries.sameBut_erase key members)
    obtain ⟨value, hget, hvalue⟩ := Option.any_eq_true _ _ |>.1 hempty
    rw [isEmptyObject_eq] at hvalue
    have hobject : value = .obj [] := of_decide_eq_true hvalue
    rw [hget, hobject, Entries.get?_erase_self, Option.getD_some, Option.getD_none]
    exact Framed.to_null rest
  · simp only [eraseIfEmpty, hempty, Bool.false_eq_true, if_false]
    exact Framed.refl _ _

theorem framed_removeArray (target : Path) (document : Json) :
    Framed [target.keys] document (removeArray target document) := by
  have hleaf : Framed [target.keys] document
      (adjustAt (Entries.erase target.leaf) target.parents document) :=
    framed_adjustAt (fun members => Framed.leaf (Entries.sameBut_erase target.leaf members))
      target.parents document
  simp only [removeArray]
  split
  · exact Framed.refl _ _
  · split
    · exact hleaf
    · rename_i parent above hparents
      have hkeys : target.keys = above.reverse ++ [parent, target.leaf] := by
        rw [Path.keys, ← List.reverse_reverse target.parents, hparents, List.reverse_cons,
          List.append_assoc, List.singleton_append]
      have hparent := framed_adjustAt (framed_eraseIfEmpty parent [target.leaf]) above.reverse
        (adjustAt (Entries.erase target.leaf) target.parents document)
      rw [← hkeys] at hparent
      exact hleaf.trans hparent

/-! ### Writing -/

theorem Effect.framed {target : Path} {shown : String} {document : Json} {written : Written}
    (h : Effect target shown document written) :
    Framed [target.keys] document written.document := by
  cases h with
  | kept => exact Framed.refl _ _
  | stored change hchange =>
    exact framed_changeAt (fun members => Framed.leaf (hchange members)) shown target.parents document
  | adjusted change hchange =>
    exact framed_adjustAt (fun members => Framed.leaf (hchange members)) target.parents document
  | removed => exact framed_removeArray target document

structure Call where
  path : String
  value : Value
  policy : Option Policy := none

/-- The document after the calls, one after the other. A call that fails hands on its document like
any other. -/
def writeAll (calls : List Call) (document : Json) : Json :=
  calls.foldl (fun document call => (write call.path call.value call.policy document).document)
    document

def writtenKeys (calls : List Call) : List (List String) :=
  calls.filterMap fun call => (Path.parse call.path).toOption.map Path.keys

theorem framed_write (call : Call) (document : Json) :
    Framed (writtenKeys [call]) document
      (write call.path call.value call.policy document).document := by
  rcases write_effect call.path call.value call.policy document with
    ⟨failure?, hkept⟩ | ⟨target, hparse, heffect⟩
  · rw [hkept]
    exact Framed.refl _ _
  · have hkeys : writtenKeys [call] = [target.keys] := by
      simp only [writtenKeys, List.filterMap_cons, hparse, Except.toOption, Option.map_some,
        List.filterMap_nil]
    rw [hkeys]
    exact heffect.framed

theorem framed_writeAll (calls : List Call) (document : Json) :
    Framed (writtenKeys calls) document (writeAll calls document) := by
  induction calls generalizing document with
  | nil => exact Framed.refl _ _
  | cons call calls ih =>
    have happend : writtenKeys (call :: calls) = writtenKeys [call] ++ writtenKeys calls := by
      rw [writtenKeys, writtenKeys, writtenKeys, ← List.filterMap_append, List.singleton_append]
    rw [happend]
    exact ((framed_write call document).mono (List.subset_append_left _ _)).trans
      ((ih _).mono (List.subset_append_right _ _))

/-- A place apart from all written paths holds the same value, or none, before and after any
sequence of writes; and in an object that lies below none of them the keys that are on no written
path are the same, in the same order. -/
theorem writes_keep_places_apart (calls : List Call) (document : Json) :
    (∀ place, (∀ path ∈ writtenKeys calls, Apart place path) →
      (writeAll calls document).at? place = document.at? place) ∧
    (∀ place before after, (∀ path ∈ writtenKeys calls, ¬ path <+: place) →
      document.at? place = some (.obj before) →
      (writeAll calls document).at? place = some (.obj after) →
      (Entries.keys after).filter (fun key => ∀ path ∈ writtenKeys calls, ¬ place ++ [key] <+: path)
        = (Entries.keys before).filter
          (fun key => ∀ path ∈ writtenKeys calls, ¬ place ++ [key] <+: path)) := by
  have hframed := framed_writeAll calls document
  refine ⟨hframed.lookup, ?_⟩
  intro place before after hplace hbefore hafter
  have horder := hframed.order place hplace
  simp only [keysOff, Json.membersAt_of_at? place _ _ hbefore,
    Json.membersAt_of_at? place _ _ hafter] at horder
  exact horder

/-- The array of the first call goes together with its parent, the second call walks through null,
and the third removes a key; what is beside them stays. -/
theorem writes_keep_siblings :
    let calls : List Call :=
      [⟨"holdings.notes.ids[]", .list [] .deleteExisting, some .deleteExisting⟩,
        ⟨"holdings.status.name", .string "new", none⟩, ⟨"holdings.hrid", .removal "", none⟩]
    let document : Json := .obj [("holdings", .obj [("first", .str "1"),
      ("notes", .obj [("ids", .arr [.str "n"])]), ("hrid", .str "h"), ("status", .null),
      ("last", .str "2")])]
    let after := [("first", Json.str "1"), ("status", .obj [("name", .str "new")]),
      ("last", .str "2")]
    (∀ path ∈ writtenKeys calls, Apart ["holdings", "last"] path) ∧
      (writeAll calls document).at? ["holdings", "last"] = document.at? ["holdings", "last"] ∧
      (∀ path ∈ writtenKeys calls, ¬ path <+: ["holdings"]) ∧
      (writeAll calls document).at? ["holdings"] = some (.obj after) ∧
      (Entries.keys after).filter
          (fun key => ∀ path ∈ writtenKeys calls, ¬ ["holdings"] ++ [key] <+: path)
        = ["first", "last"] := by
  intro calls document after
  have hapart : ∀ path ∈ writtenKeys calls, Apart ["holdings", "last"] path := by decide +kernel
  have hbelow : ∀ path ∈ writtenKeys calls, ¬ path <+: ["holdings"] := by decide +kernel
  have hafter : (writeAll calls document).at? ["holdings"] = some (.obj after) := by decide +kernel
  refine ⟨hapart, (writes_keep_places_apart calls document).1 _ hapart, hbelow, hafter, ?_⟩
  rw [(writes_keep_places_apart calls document).2 ["holdings"] _ after hbelow rfl hafter]
  decide +kernel

end Crosswalk.Document
