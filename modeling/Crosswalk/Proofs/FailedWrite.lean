import Crosswalk.Proofs.Effect

/-!
# Writes that fail

A write answers with a document and perhaps a failure. Where there is a failure
the document is the one that was there before, the order of its members included.
-/

namespace Crosswalk.Document

theorem Effect.document_of_failure {target : Path} {shown : String} {document : Json}
    {written : Written} (h : Effect target shown document written) (e : Error)
    (hfailure : written.failure? = some e) : written.document = document := by
  cases h with
  | kept => rfl
  | stored change => exact document_changeAt_of_failure shown target.parents change document e hfailure
  | adjusted => cases hfailure
  | removed => cases hfailure

/-- A write that fails leaves the document as it was, whatever the value, however deep its items
nest, and whatever the policy. -/
theorem failed_write_keeps_document (path : String) (value : Value) (policy : Option Policy)
    (document : Json) (e : Error) (h : (write path value policy document).failure? = some e) :
    (write path value policy document).document = document := by
  rcases write_effect path value policy document with ⟨failure?, hkept⟩ | ⟨target, -, heffect⟩
  · rw [hkept]
  · exact heffect.document_of_failure e h

theorem blocked_write_keeps_document :
    let document : Json := .obj [("notes", .null), ("instance", .obj [("title", .str "t")])]
    let written := write "instance.title.ids[]" (.list ["1"] .extendExisting)
      (some .extendExisting) document
    written.failure? = some (.segmentNotObject "instance.title.ids[]" "title") ∧
      written.document = document := by
  intro document written
  have hfailure : written.failure? = some (.segmentNotObject "instance.title.ids[]" "title") := by
    decide +kernel
  exact ⟨hfailure, failed_write_keeps_document _ _ _ document _ hfailure⟩

end Crosswalk.Document
