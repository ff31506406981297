import Crosswalk.Proofs.Forms
import Crosswalk.Proofs.Invariants

/-!
# Finished documents are read back

The text of a document tells all of it if its numbers are integers of 64 bits and no
object in it names a key twice. Both are invariants of writing: values bring no numbers
at all, and a key that is there already gets its new value in its place. So a document
that has been written from null is read back from its text as it is, the order of keys
included, as long as it does not nest too deep for reading.
-/

namespace Crosswalk

namespace Json

/-! ### Distinct keys -/

theorem distinctKeysItems_iff (items : List Json) :
    DistinctKeysItems items ↔ ∀ item ∈ items, item.DistinctKeys := by
  induction items with
  | nil => simp [DistinctKeysItems]
  | cons item rest ih => rw [DistinctKeysItems, ih, List.forall_mem_cons]

theorem distinctKeysMembers_iff (members : List (String × Json)) :
    DistinctKeysMembers members ↔ ∀ m ∈ members, m.2.DistinctKeys := by
  induction members with
  | nil => simp [DistinctKeysMembers]
  | cons m rest ih => rw [DistinctKeysMembers, ih, List.forall_mem_cons]

mutual

theorem merged_of_distinctKeys (v : Json) (h : v.DistinctKeys) : v.merged = v := by
  match v with
  | .null | .bool _ | .num _ | .str _ => rfl
  | .arr items => rw [merged, mergedItems_of_distinctKeys items h]
  | .obj members =>
    rw [merged, mergedMembers_of_distinctKeys members h.2, Entries.ofPairs_of_distinct members h.1]

theorem mergedItems_of_distinctKeys (items : List Json) (h : DistinctKeysItems items) :
    mergedItems items = items := by
  match items with
  | [] => rfl
  | item :: rest =>
    rw [mergedItems, merged_of_distinctKeys item h.1, mergedItems_of_distinctKeys rest h.2]

theorem mergedMembers_of_distinctKeys (members : List (String × Json))
    (h : DistinctKeysMembers members) : mergedMembers members = members := by
  match members with
  | [] => rfl
  | (key, value) :: rest =>
    rw [mergedMembers, merged_of_distinctKeys value h.1, mergedMembers_of_distinctKeys rest h.2]

end

/-! ### Values that their texts tell all of -/

/-- Every number is an integer of 64 bits, and no key occurs twice. -/
structure Faithful (value : Json) : Prop where
  legible : value.Legible
  distinct : value.DistinctKeys

theorem faithful_arr_iff (items : List Json) :
    (Json.arr items).Faithful ↔ ∀ item ∈ items, item.Faithful := by
  constructor
  · rintro ⟨hlegible, hdistinct⟩ item hitem
    exact ⟨(legibleItems_iff items).1 hlegible item hitem,
      (distinctKeysItems_iff items).1 hdistinct item hitem⟩
  · intro h
    exact ⟨(legibleItems_iff items).2 fun item hitem => (h item hitem).legible,
      (distinctKeysItems_iff items).2 fun item hitem => (h item hitem).distinct⟩

theorem faithful_obj_iff (members : List (String × Json)) :
    (Json.obj members).Faithful ↔ Entries.Distinct members ∧ ∀ m ∈ members, m.2.Faithful := by
  constructor
  · rintro ⟨hlegible, hkeys, hdistinct⟩
    exact ⟨hkeys, fun m hm => ⟨(legibleMembers_iff members).1 hlegible m hm,
      (distinctKeysMembers_iff members).1 hdistinct m hm⟩⟩
  · rintro ⟨hkeys, h⟩
    exact ⟨(legibleMembers_iff members).2 fun m hm => (h m hm).legible, hkeys,
      (distinctKeysMembers_iff members).2 fun m hm => (h m hm).distinct⟩

theorem parse?_text (v : Json) (hv : v.Faithful) (hdepth : v.depth ≤ depthLimit) :
    parse? v.text = some v := by
  rw [parse?, ofText?_text v hv.legible hdepth, Option.map_some,
    merged_of_distinctKeys v hv.distinct]

end Json

namespace Document

open Json

theorem invariant_faithful : Invariant Faithful Faithful where
  empty := (faithful_obj_iff []).2 ⟨List.nodup_nil, List.forall_mem_nil _⟩
  insert := by
    intro key value members hmembers hvalue
    obtain ⟨hkeys, hall⟩ := (faithful_obj_iff members).1 hmembers
    refine (faithful_obj_iff _).2 ⟨Entries.distinct_insert key value hkeys, fun m hm => ?_⟩
    rcases Entries.mem_insert key value members m hm with rfl | hold
    · exact hvalue
    · exact hall m hold
  erase := by
    intro key members hmembers
    obtain ⟨hkeys, hall⟩ := (faithful_obj_iff members).1 hmembers
    refine (faithful_obj_iff _).2 ⟨?_, fun m hm => hall m (List.mem_of_mem_filter hm)⟩
    exact hkeys.sublist (List.filter_sublist.map _)
  member := by
    intro key value members hmembers hget
    exact ((faithful_obj_iff members).1 hmembers).2 _ (Entries.mem_of_get? key value members hget)
  array := fun items _ hitems => (faithful_arr_iff items).2 hitems
  element := fun items item harray hitem => (faithful_arr_iff items).1 harray item hitem
  object := fun _ _ hobject => hobject

theorem admits_faithful : Admits Faithful Faithful fun _ => True where
  string := fun _ _ => ⟨trivial, trivial⟩
  bool := fun _ _ => ⟨trivial, trivial⟩
  list := fun _ _ _ _ _ => ⟨trivial, trivial⟩
  repeatable := fun _ _ _ _ _ _ _ _ => trivial

/-- A document that has been written from null, by any calls and with any texts, is read back from
its text, every object with its keys in their order; and a writer that starts from what has been
read finishes with the same text. The depth of the document must be within the limit of reading. -/
theorem finished_document_is_read_back (calls : List Call)
    (hdepth : (writeAll calls (start .null)).depth ≤ depthLimit) :
    let document := writeAll calls (start .null)
    ∃ reloaded, parse? document.text = some reloaded ∧ reloaded = document ∧
      (start reloaded).text = document.text := by
  intro document
  obtain ⟨members, hobject, hfaithful⟩ := invariant_faithful.rooted_writeAll admits_faithful calls
    (start .null) (fun _ _ => trivial) ⟨[], rfl, invariant_faithful.empty⟩
  rw [← hobject] at hfaithful
  have hstart : start document = document := by
    rw [show document = .obj members from hobject]
    rfl
  exact ⟨document, parse?_text document hfaithful hdepth, rfl, congrArg text hstart⟩

/-- Quotes, a backslash, control characters and other scripts stand in keys and texts; the second
call fails, and the last one makes room for its array in an object that is there. -/
theorem unusual_texts_are_read_back :
    let calls : List Call :=
      [⟨"item.\"ключ\t\\", .string "say \"ж\" \\ /\n\x01\x7f", none⟩,
        ⟨"item.\"ключ\t\\.more", .bool true, none⟩,
        ⟨"item.notes[]", .repeatable [[("note", .string ""), ("codes[]", .list ["\r", "€"]
          .extendExisting)], []] .extendExisting "", some .exchangeExisting⟩]
    let document : Json := .obj [("item", .obj [("\"ключ\t\\", .str "say \"ж\" \\ /\n\x01\x7f"),
      ("notes", .arr [.obj [("note", .str ""), ("codes", .arr [.str "\r", .str "€"])]])])]
    writeAll calls (start .null) = document ∧ document.depth ≤ depthLimit ∧
      parse? document.text = some document := by
  intro calls document
  have hdocument : writeAll calls (start .null) = document := by decide +kernel
  have hdepth : document.depth ≤ depthLimit := by decide +kernel
  obtain ⟨reloaded, hread, hsame, -⟩ := finished_document_is_read_back calls
    (by rw [hdocument]; exact hdepth)
  rw [hsame, hdocument] at hread
  exact ⟨hdocument, hdepth, hread⟩

end Document

end Crosswalk
