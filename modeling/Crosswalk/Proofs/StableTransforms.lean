import Crosswalk.Accepted
import Crosswalk.Proofs.IsoDates
import Crosswalk.Proofs.StrictFields

/-!
# Transforms of values are stable

A value that a transform has made is left alone by the same transform. A date that has
been read is written in ISO form, and the ISO pattern, where it is tried first, reads
that date again. An identifier that has been looked up stands for itself before any
text of an entry is considered, whether or not it matches one.
-/

namespace Crosswalk

namespace Date

theorem normalize_cases (patterns : List String) (text : String) :
    (normalize patterns text = text ∧
      ∀ pattern ∈ patterns, parse? pattern (Text.trim text) = none) ∨
    ∃ date : Date, normalize patterns text = date.iso ∧
      ∃ pattern ∈ patterns, parse? pattern (Text.trim text) = some date := by
  cases hread : patterns.findSome? fun pattern => parse? pattern (Text.trim text) with
  | none =>
    refine Or.inl ⟨?_, List.findSome?_eq_none_iff.1 hread⟩
    rw [normalize, hread]
  | some date =>
    refine Or.inr ⟨date, ?_, List.exists_of_findSome?_eq_some hread⟩
    rw [normalize, hread]

theorem normalize_iso (others : List String) (date : Date) :
    normalize ("%Y-%m-%d" :: others) date.iso = date.iso := by
  rw [normalize, trim_iso, List.findSome?_cons, parse?_iso]

theorem normalize_normalize (others : List String) (text : String) :
    normalize ("%Y-%m-%d" :: others) (normalize ("%Y-%m-%d" :: others) text) =
      normalize ("%Y-%m-%d" :: others) text := by
  rcases normalize_cases ("%Y-%m-%d" :: others) text with ⟨hsame, -⟩ | ⟨date, hiso, -⟩
  · rw [hsame, hsame]
  · rw [hiso, normalize_iso]

end Date

namespace Accepted

theorem substitute_identifier (strict : Bool) (accepted : List (String × String)) (id : String)
    (hid : id ∈ Entries.keys accepted) (htrim : Text.trim id = id) (hne : id ≠ "") :
    substitute strict accepted id = id := by
  have hfound : find? id accepted = some id := by
    rw [find?, htrim, if_neg hne, if_pos ((Entries.contains_iff id accepted).2 hid)]
  rw [substitute, hfound]
  split
  · rfl
  · rfl

theorem find?_empty (accepted : List (String × String)) : find? "" accepted = none := rfl

theorem substitute_empty (strict : Bool) (accepted : List (String × String)) :
    substitute strict accepted "" = "" := by
  rw [substitute, find?_empty]
  cases strict <;> simp

theorem substitute_cases (strict : Bool) (accepted : List (String × String)) (value : String) :
    substitute strict accepted value = value ∨ substitute strict accepted value = "" ∨
      substitute strict accepted value ∈ Entries.keys accepted := by
  rw [substitute]
  split
  · exact Or.inl rfl
  · split
    · rename_i id hid
      exact Or.inr (Or.inr (Reading.mem_keys_of_find? hid))
    · cases strict with
      | true => exact Or.inr (Or.inl rfl)
      | false => exact Or.inl rfl

theorem substitute_substitute (strict : Bool) (accepted : List (String × String)) (value : String)
    (h : ∀ entry ∈ accepted, Text.trim entry.1 = entry.1) :
    substitute strict accepted (substitute strict accepted value) =
      substitute strict accepted value := by
  rcases substitute_cases strict accepted value with hsame | hempty | hid
  · rw [hsame, hsame]
  · rw [hempty, substitute_empty]
  · by_cases hempty : substitute strict accepted value = ""
    · rw [hempty, substitute_empty]
    · obtain ⟨entry, hentry, hkey⟩ := List.mem_map.1 hid
      refine substitute_identifier strict accepted _ hid ?_ hempty
      rw [← hkey]
      exact h entry hentry

end Accepted

/-- To apply a transform to what it has made changes nothing. With the ISO pattern tried first,
whatever patterns follow, a text is left alone if no pattern fits it, and else becomes the ISO text
of a date of the calendar that some pattern reads from it and that the ISO pattern reads back. With
accepted values whose identifiers have no white space around them, an identifier stays what it is,
whatever texts of entries it matches, and so does anything else that a value is replaced by. -/
theorem transforms_keep_their_results (others : List String) (strict : Bool)
    (accepted : List (String × String)) (value : String) :
    let patterns := "%Y-%m-%d" :: others
    Date.normalize patterns (Date.normalize patterns value) = Date.normalize patterns value ∧
    (Date.normalize patterns value = value ∨
      ∃ date : Date, Date.normalize patterns value = date.iso ∧
        (∃ pattern ∈ patterns, Date.parse? pattern (Text.trim value) = some date) ∧
        Date.parse? "%Y-%m-%d" date.iso = some date) ∧
    ((∀ entry ∈ accepted, Text.trim entry.1 = entry.1) →
      Accepted.substitute strict accepted (Accepted.substitute strict accepted value) =
        Accepted.substitute strict accepted value ∧
      ∀ id ∈ Entries.keys accepted, id ≠ "" → Accepted.substitute strict accepted id = id) := by
  intro patterns
  refine ⟨Date.normalize_normalize others value, ?_, fun haccepted =>
    ⟨Accepted.substitute_substitute strict accepted value haccepted, fun id hid hne => ?_⟩⟩
  · rcases Date.normalize_cases patterns value with ⟨hsame, -⟩ | ⟨date, hiso, hread⟩
    · exact Or.inl hsame
    · exact Or.inr ⟨date, hiso, hread, Date.parse?_iso date⟩
  · obtain ⟨entry, hentry, rfl⟩ := List.mem_map.1 hid
    exact Accepted.substitute_identifier strict accepted _ hid (haccepted entry hentry) hne

theorem odd_values_settle_at_once :
    let patterns := ["%Y-%m-%d", "%d.%m.%Y"]
    let accepted := [("loc-1", "Annex"), ("Annex", "Main Library (MAIN)")]
    Date.normalize patterns " 4. 3.-12345 " = "-12345-03-04" ∧
    Date.normalize patterns "-12345-03-04" = "-12345-03-04" ∧
    Accepted.substitute true accepted "ANNEX" = "loc-1" ∧
    Accepted.substitute true accepted "(main)" = "Annex" ∧
    Accepted.substitute true accepted "Annex" = "Annex" := by
  intro patterns accepted
  have haccepted : ∀ entry ∈ accepted, Text.trim entry.1 = entry.1 := by decide +kernel
  have hdate : Date.normalize patterns " 4. 3.-12345 " = "-12345-03-04" := by decide +kernel
  have hother : Accepted.substitute true accepted "ANNEX" = "loc-1" := by decide +kernel
  have hid : Accepted.substitute true accepted "(main)" = "Annex" := by decide +kernel
  obtain ⟨hagain, -, -⟩ := transforms_keep_their_results ["%d.%m.%Y"] true accepted " 4. 3.-12345 "
  obtain ⟨-, -, hstable⟩ := transforms_keep_their_results ["%d.%m.%Y"] true accepted "(main)"
  refine ⟨hdate, ?_, hother, hid, ?_⟩
  · rw [hdate] at hagain
    exact hagain
  · rw [← hid]
    exact (hstable haccepted).1

end Crosswalk
