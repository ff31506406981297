import Crosswalk.Proofs.Language
import Crosswalk.Reading.Clause
import Mathlib.Data.List.ReduceOption
import Mathlib.Data.Nat.PSub

/-!
# Positions of characters

A byte range reads the characters of a text from one position to another, and how many
there are is a difference of positions. Here differences are exact, so that there is
none below zero. The first position of a range that has been read is never beyond the
last one; that is settled where the range is read and is all that its evaluation needs,
whatever the length of the text.
-/

namespace Crosswalk

namespace Expression

/-! ### Ranges in the text of an expression -/

def words (text : String) : List (List Char) :=
  match marked? none text.toList with
  | none => []
  | some ms => (clauseTexts 0 ms).flatMap tokenTexts

/-- One of the tokens in the text has the form of a range with this tag and these digits. -/
structure HasRange (text : String) (tag first : List Char) (last : Option (List Char)) :
    Prop where
  tag_form : IsRangeTag tag
  first_digits : AreDigits first
  last_digits : ∀ digits, last = some digits → AreDigits digits
  mem_words : tag ++ '/' :: (first ++ lastText last) ∈ words text

/-- No character has a position in the range that the digits stand for: it starts at zero or ends
before its start. Digits of other scripts stand for no position at all. -/
def HoldsNone (first last : List Char) : Prop :=
  Text.decimalValue 0 first = 0 ∨ Text.decimalValue 0 last < Text.decimalValue 0 first ∨
    ∃ c ∈ first ++ last, c.isDigit = false

theorem spelled_words (text : String) (e : Expression) (h : parse text = .ok e) :
    List.Forall₂ Token.Spelled (words text) e.clauses.flatten := by
  rw [parse] at h
  split at h
  · cases h
  · rename_i ms hmarked
    obtain ⟨clauses, hclauses, hall⟩ := (bind_eq_ok_iff _ _ _).1 h
    cases hall
    simp only [words, hmarked, List.flatMap_def]
    refine List.rel_flatten (List.forall₂_map_left_iff.2 ?_)
    refine ((mapM_eq_ok_iff _ _ _).1 hclauses).imp fun ms clause hclause => ?_
    exact ((mapM_eq_ok_iff _ _ _).1 hclause).imp spelled_of_classify

theorem Token.Spelled.range_parts {word : List Char} {tag : String} {start stop : Nat}
    (h : Token.Spelled word (.range tag start stop)) :
    ∃ first last, word = tag.toList ++ '/' :: (first ++ lastText last) ∧ IsRangeTag tag.toList ∧
      IsNumeral first (start + 1) ∧ (∀ digits, last = some digits → AreDigits digits) ∧
      IsNumeral (last.getD first) stop ∧ start < stop := by
  cases h with
  | position tag digits _ htag hdigits hn =>
    have hstart : stop - 1 + 1 = stop := by omega
    refine ⟨digits, none, ?_, ?_, by rwa [hstart], fun _ h => (by cases h), hdigits, by omega⟩
    · rw [String.toList_ofList, lastText, List.append_nil]
    · rwa [String.toList_ofList]
  | range tag first last m _ htag hfirst hlast hm hn =>
    have hstart : m - 1 + 1 = m := by omega
    refine ⟨first, some last, ?_, ?_, by rwa [hstart], fun _ h => ?_, hlast, by omega⟩
    · rw [String.toList_ofList, lastText]
    · rwa [String.toList_ofList]
    · cases h
      exact hlast.areDigits

theorem range_of_parse (text : String) (e : Expression) (h : parse text = .ok e)
    (clause : Clause) (hclause : clause ∈ e.clauses) (tag : String) (start stop : Nat)
    (hrange : Token.range tag start stop ∈ clause) :
    ∃ first last, HasRange text tag.toList first last ∧ IsNumeral first (start + 1) ∧
      IsNumeral (last.getD first) stop ∧ start < stop := by
  have hmem : Token.range tag start stop ∈ e.clauses.flatten :=
    List.mem_flatten.2 ⟨clause, hclause, hrange⟩
  obtain ⟨word, hword, hspelled⟩ := exists_of_mem_forall₂ (spelled_words text e h) _ hmem
  obtain ⟨first, last, rfl, htag, hfirst, hdigits, hlast, hlt⟩ := hspelled.range_parts
  exact ⟨first, last, ⟨htag, hfirst.areDigits, hdigits, hword⟩, hfirst, hlast, hlt⟩

theorem HasRange.parse_ne_ok {text : String} {tag first : List Char} {last : Option (List Char)}
    (h : HasRange text tag first last) (hnone : HoldsNone first (last.getD first))
    (e : Expression) : parse text ≠ .ok e := by
  intro hparse
  obtain ⟨token, -, hspelled⟩ :=
    exists_of_mem_forall₂ (spelled_words text e hparse).flip _ h.mem_words
  have hclassify := classify_of_spelled _ token hspelled
  obtain ⟨m, n, hm, hn, hpos, hle, -⟩ := (classify_range_eq_ok_iff tag first last h.tag_form
    h.first_digits h.last_digits token).1 hclassify
  have hfirst : Text.decimalValue 0 first = m := hm.2.2.1
  have hlast : Text.decimalValue 0 (last.getD first) = n := hn.2.2.1
  rcases hnone with hzero | hless | ⟨c, hc, hdigit⟩
  · omega
  · omega
  · rcases List.mem_append.1 hc with hin | hin
    · rw [hm.2.1 c hin] at hdigit
      cases hdigit
    · rw [hn.2.1 c hin] at hdigit
      cases hdigit

end Expression

/-- The texts that a byte range with the tag counts the characters of, in the order of the record:
the leader alone, or the data of the control fields. -/
inductive Marc.Record.RangeTexts (record : Marc.Record) : String → List String → Prop where
  | leader : RangeTexts record Expression.leaderTag [record.leader]
  | control (tag : String) (htag : Marc.isControlTag tag = true) :
    RangeTexts record tag
      ((record.controlFields.filter fun field => field.tag = tag).map Marc.ControlField.data)

theorem Marc.Record.RangeTexts.positioned {record : Marc.Record} {tag : String}
    {texts : List String} (h : record.RangeTexts tag texts) :
    record.positioned tag = .ok texts := by
  cases h with
  | leader => rfl
  | control tag htag =>
    have hne : tag ≠ Expression.leaderTag := by
      rintro rfl
      revert htag
      decide
    rw [Marc.Record.positioned, if_neg hne, if_pos htag, Marc.Record.controlWith]

namespace Reading

/-! ### Stretches of characters -/

/-- The piece is what the text holds from the character with the number `first` to the one with the
number `last`, or to its end where that comes before; characters are counted from one. -/
def IsStretch (first last : Nat) (text piece : String) : Prop :=
  ∃ before behind, text.toList = before ++ piece.toList ++ behind ∧ before.length + 1 = first ∧
    before.length + piece.toList.length = min last text.toList.length

/-- The characters from `start` up to before `stop`, with their number computed as a difference;
the outer option is empty if the difference is below zero. -/
def measuredSlice? (start stop : Nat) (text : String) : Option (Option String) :=
  if text.toList.length ≤ start then some none
  else
    (Nat.psub (min stop text.toList.length) start).map fun count =>
      some (String.ofList ((text.toList.drop start).take count))

def measuredSlices? (start stop : Nat) (texts : List String) : Option (List String) :=
  (texts.mapM (measuredSlice? start stop)).map List.reduceOption

variable {start stop : Nat}

theorem measuredSlice?_eq (h : start < stop) (text : String) :
    measuredSlice? start stop text = some (slice? start stop text) := by
  rw [measuredSlice?, slice?]
  split
  · rfl
  · rename_i hlength
    have hle : start ≤ min stop text.toList.length := by omega
    -- Behind the end of the text there is nothing to take, so capping the end changes nothing.
    have htake : (text.toList.drop start).take (min stop text.toList.length - start)
        = (text.toList.drop start).take (stop - start) := by
      rw [List.take_eq_take_iff, List.length_drop]
      omega
    rw [Nat.psub_eq_sub hle, Option.map_some, htake]

theorem measuredSlices?_eq (h : start < stop) (texts : List String) :
    measuredSlices? start stop texts = some (texts.filterMap (slice? start stop)) := by
  have hall : texts.mapM (measuredSlice? start stop) = some (texts.map (slice? start stop)) := by
    induction texts with
    | nil => rfl
    | cons text rest ih => simp [measuredSlice?_eq h text, ih]
  rw [measuredSlices?, hall, Option.map_some, List.reduceOption, List.filterMap_map,
    Function.id_comp]

theorem exists_stretch (h : start < stop) (text : String) (hlength : start < text.toList.length) :
    ∃ piece, slice? start stop text = some piece ∧ IsStretch (start + 1) stop text piece := by
  refine ⟨_, if_neg (Nat.not_le.2 hlength), text.toList.take start,
    (text.toList.drop start).drop (stop - start), ?_, ?_, ?_⟩
  · rw [String.toList_ofList, List.append_assoc, List.take_append_drop, List.take_append_drop]
  · rw [List.length_take]
    omega
  · rw [String.toList_ofList, List.length_take, List.length_take, List.length_drop]
    omega

theorem stretches_filterMap (h : start < stop) (texts : List String) :
    List.Forall₂ (IsStretch (start + 1) stop)
      (texts.filter fun text => start + 1 ≤ text.toList.length)
      (texts.filterMap (slice? start stop)) := by
  induction texts with
  | nil => exact .nil
  | cons text rest ih =>
    by_cases hlength : start + 1 ≤ text.toList.length
    · obtain ⟨piece, hpiece, hstretch⟩ := exists_stretch h text hlength
      rw [List.filter_cons_of_pos (by simpa using hlength), List.filterMap_cons_some hpiece]
      exact .cons hstretch ih
    · have hnone : slice? start stop text = none := if_pos (by omega)
      rw [List.filter_cons_of_neg (by simpa using hlength), List.filterMap_cons_none hnone]
      exact ih

/-! ### What ranges read -/

/-- The range reads the pieces from the texts: no difference of positions is below zero, every text
that reaches the first position has its stretch among the pieces, in the order of the texts, and the
values of the token are made of the pieces. -/
structure RangeReads (record : Marc.Record) (tag : String) (start stop : Nat)
    (texts pieces : List String) : Prop where
  measured : measuredSlices? start stop texts = some pieces
  stretches : List.Forall₂ (IsStretch (start + 1) stop)
    (texts.filter fun text => start + 1 ≤ text.toList.length) pieces
  values : ∀ setting head, tokenValues setting head record (.range tag start stop)
    = .ok (nonBlank (pieces.map (settled setting head)))

theorem exists_rangeReads (record : Marc.Record) (tag : String) (texts : List String)
    (h : start < stop) (htexts : record.RangeTexts tag texts) :
    ∃ pieces, RangeReads record tag start stop texts pieces :=
  ⟨texts.filterMap (slice? start stop), measuredSlices?_eq h texts, stretches_filterMap h texts,
    fun setting head => tokenValues_range setting head htexts.positioned start stop⟩

/-- In every expression that is read the positions of a range are those that its text gives, the
first one before the last one. So on no record does its evaluation need a difference below zero, and
it reads from each text that reaches its first position the characters from there to its last
position. A range that holds no position is never read. -/
theorem ranges_read_their_positions :
    (∀ text e, Expression.parse text = .ok e → ∀ clause ∈ e.clauses, ∀ tag start stop,
      Expression.Token.range tag start stop ∈ clause →
        start < stop ∧ stop < Text.wordLimit ∧
        (∃ first last, Expression.HasRange text tag.toList first last ∧
          Expression.IsNumeral first (start + 1) ∧
          Expression.IsNumeral (last.getD first) stop) ∧
        ∀ (record : Marc.Record) texts, record.RangeTexts tag texts →
          ∃ pieces, RangeReads record tag start stop texts pieces) ∧
      ∀ text tag first last, Expression.HasRange text tag first last →
        Expression.HoldsNone first (last.getD first) →
        ∃ error, Expression.parse text = .error error := by
  constructor
  · intro text e hparse clause hclause tag start stop hrange
    obtain ⟨first, last, hword, hfirst, hlast, hlt⟩ :=
      Expression.range_of_parse text e hparse clause hclause tag start stop hrange
    exact ⟨hlt, hlast.2.2.2, ⟨first, last, hword, hfirst, hlast⟩,
      fun record texts htexts => exists_rangeReads record tag texts hlt htexts⟩
  · intro text tag first last hrange hnone
    cases hparse : Expression.parse text with
    | error error => exact ⟨error, rfl⟩
    | ok e => exact absurd hparse (hrange.parse_ne_ok hnone e)

theorem last_position_lies_behind_the_end :
    let top := 18446744073709551615
    let text := "\"v. \" LDR/07-9; else 008/002-18446744073709551615 008/3"
    let clause : Expression.Clause := [.range "008" 1 top, .range "008" 2 3]
    let record : Marc.Record :=
      ⟨"00000nam", [⟨"008", "né–ß"⟩, ⟨"001", "id"⟩, ⟨"008", "x"⟩, ⟨"008", "ab"⟩], []⟩
    let texts := ["né–ß", "x", "ab"]
    let pieces := ["é–ß", "b"]
    Expression.parse text = .ok ⟨[[.literal "v. ", .range "LDR" 6 9], clause]⟩ ∧
      record.RangeTexts "008" texts ∧ 1 < top ∧ RangeReads record "008" 1 top texts pieces ∧
      Expression.HasRange "245$a 008/05-4" ['0', '0', '8'] ['0', '5'] (some ['4']) ∧
      ∃ error, Expression.parse "245$a 008/05-4" = .error error := by
  intro top text clause record texts pieces
  have hparse : Expression.parse text
      = .ok ⟨[[.literal "v. ", .range "LDR" 6 9], clause]⟩ := by decide +kernel
  have htexts : record.RangeTexts "008" texts := .control "008" (by decide)
  have hpieces : measuredSlices? 1 top texts = some pieces := by decide +kernel
  obtain ⟨hread, hnone⟩ := ranges_read_their_positions
  obtain ⟨hlt, -, -, hrecord⟩ := hread text _ hparse clause (by simp) "008" 1 top (by simp [clause])
  obtain ⟨found, hfound⟩ := hrecord record texts htexts
  cases hpieces.symm.trans hfound.measured
  have htag := (Expression.isRangeTag_iff '0' '0' '8').2 (by decide +kernel)
  have hfirst := (Expression.areDigits_iff ['0', '5']).2 (by decide +kernel)
  have hlast := (Expression.areDigits_iff ['4']).2 (by decide +kernel)
  have hrange : Expression.HasRange "245$a 008/05-4" ['0', '0', '8'] ['0', '5'] (some ['4']) :=
    ⟨htag, hfirst, fun _ hdigits => Option.some.inj hdigits ▸ hlast, by decide +kernel⟩
  exact ⟨hparse, htexts, hlt, hfound, hrange,
    hnone _ _ _ _ hrange (Or.inr (Or.inl (by decide)))⟩

end Reading

end Crosswalk
