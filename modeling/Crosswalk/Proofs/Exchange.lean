import Crosswalk.Marc.Exchange
import Crosswalk.Proofs.Success

/-!
# Records in exchange form

Reading the exchange form passes over much that it does not understand, and over nothing
that writing produces: every field is written as an object with one member, a text for a
control field and an object for a data field, every indicator and code as a text of one
character. So a record is read back as it was, and a value that is read as a record can
be written anew from that record without a change to what is read.
-/

namespace Crosswalk.Marc

/-! ### Fields -/

namespace Exchange

theorem indicator_of_get? (key : String) (content : List (String × Json)) (c : Char)
    (h : Entries.get? key content = some (.str c.toString)) : indicator key content = c := by
  simp [indicator, h, Json.string?]

theorem subfields_of_get? (content : List (String × Json)) (written : List Subfield)
    (h : Entries.get? "subfields" content = some (.arr (written.map Subfield.toExchange))) :
    subfields content = written := by
  rw [subfields, h, Option.bind_some, Json.items?, Option.getD_some]
  clear h
  induction written with
  | nil => rfl
  | cons s rest ih =>
    have hs : (s.toExchange.members?.getD []).filterMap subfield? = [s] := by
      simp [Subfield.toExchange, Json.members?, subfield?]
    rw [List.map_cons, List.flatMap_cons, hs, ih, List.singleton_append]

theorem entry_control (written : ControlField) :
    entry written.toExchange = .ok [.control written] := rfl

theorem entry_data (written : DataField) : entry written.toExchange = .ok [.data written] := by
  obtain ⟨tag, first, second, parts⟩ := written
  have hfirst := indicator_of_get? "ind1"
    [("ind1", .str first.toString), ("ind2", .str second.toString),
      ("subfields", .arr (parts.map Subfield.toExchange))] first rfl
  have hsecond := indicator_of_get? "ind2"
    [("ind1", .str first.toString), ("ind2", .str second.toString),
      ("subfields", .arr (parts.map Subfield.toExchange))] second rfl
  have hparts := subfields_of_get?
    [("ind1", .str first.toString), ("ind2", .str second.toString),
      ("subfields", .arr (parts.map Subfield.toExchange))] parts rfl
  simp only [DataField.toExchange, entry, List.mapM_cons, List.mapM_nil, field, hfirst, hsecond,
    hparts]
  rfl

end Exchange

/-! ### Records -/

namespace Record

theorem mapM_entry (controls : List ControlField) (datas : List DataField) :
    (controls.map ControlField.toExchange ++ datas.map DataField.toExchange).mapM Exchange.entry
      = .ok (controls.map (fun f => [.control f]) ++ datas.map fun f => [.data f]) := by
  refine (mapM_eq_ok_iff _ _ _).2 (List.rel_append ?_ ?_)
  · refine List.forall₂_map_left_iff.2 (List.forall₂_map_right_iff.2 (List.forall₂_same.2 ?_))
    exact fun f _ => Exchange.entry_control f
  · refine List.forall₂_map_left_iff.2 (List.forall₂_map_right_iff.2 (List.forall₂_same.2 ?_))
    exact fun f _ => Exchange.entry_data f

theorem ofExchange_toExchange (record : Record) :
    ofExchange record.toExchange = .ok record := by
  obtain ⟨leader, controls, datas⟩ := record
  have hflatten : (controls.map (fun f => [Field.control f])
      ++ datas.map fun f => [Field.data f]).flatten
        = controls.map Field.control ++ datas.map Field.data := by
    rw [List.flatten_append, ← List.flatMap_def, ← List.flatMap_def, ← List.map_eq_flatMap,
      ← List.map_eq_flatMap]
  have hcontrols : (controls.map Field.control ++ datas.map Field.data).filterMap Field.control?
      = controls := by
    simp [List.filterMap_append, List.filterMap_map, Function.comp_def, Field.control?]
  have hdatas : (controls.map Field.control ++ datas.map Field.data).filterMap Field.data?
      = datas := by
    simp [List.filterMap_append, List.filterMap_map, Function.comp_def, Field.data?]
  have hread : ofExchange (toExchange ⟨leader, controls, datas⟩)
      = (do
          let fields := (← (controls.map ControlField.toExchange
            ++ datas.map DataField.toExchange).mapM Exchange.entry).flatten
          .ok ⟨leader, fields.filterMap Field.control?, fields.filterMap Field.data?⟩) := rfl
  rw [hread, mapM_entry controls datas]
  simp only [bind, Except.bind, hflatten, hcontrols, hdatas]

/-- A record is read back from the form in which it is written. Whatever is read as a record, the
record can be written and read again without a difference, and what is no record stays none. -/
theorem exchange_form_keeps_record :
    (∀ record : Record, ofExchange record.toExchange = .ok record) ∧
      ∀ value : Json, (ofExchange value).bind (fun record => ofExchange record.toExchange)
        = ofExchange value := by
  refine ⟨ofExchange_toExchange, fun value => ?_⟩
  cases ofExchange value with
  | error e => rfl
  | ok record => exact ofExchange_toExchange record

end Record

end Crosswalk.Marc
