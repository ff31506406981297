import Crosswalk.Path
import Mathlib.Data.List.Basic
import Mathlib.Data.List.TakeWhile
import Mathlib.Data.List.Infix

/-!
# Trimming and array marks

Trimming takes blank characters off both ends and nothing else. A text that ends
in a character that is not blank keeps its end, so it has an array mark there
exactly when the trimmed text has one, and then the path that is read from it is
the path of an array.
-/

namespace Crosswalk.Text

def Blanks (cs : List Char) : Prop := ∀ c ∈ cs, isBlank c = true

def EndsBlank (cs : List Char) : Prop := ∃ c, cs.getLast? = some c ∧ isBlank c = true

theorem exists_dropBlank (cs : List Char) : ∃ lead, Blanks lead ∧ cs = lead ++ dropBlank cs :=
  ⟨cs.takeWhile isBlank, fun _ hc => List.mem_takeWhile_imp hc,
    List.takeWhile_append_dropWhile.symm⟩

theorem exists_dropBlankEnd (cs : List Char) :
    ∃ trail, Blanks trail ∧ cs = dropBlankEnd cs ++ trail := by
  obtain ⟨lead, hlead, hsplit⟩ := exists_dropBlank cs.reverse
  refine ⟨lead.reverse, fun c hc => hlead c (List.mem_reverse.1 hc), ?_⟩
  rw [dropBlankEnd, ← List.reverse_append]
  exact (List.reverse_reverse cs).symm.trans (congrArg List.reverse hsplit)

theorem exists_trimmed (cs : List Char) :
    ∃ lead trail, Blanks lead ∧ Blanks trail ∧
      cs = lead ++ dropBlankEnd (dropBlank cs) ++ trail := by
  obtain ⟨lead, hlead, hfront⟩ := exists_dropBlank cs
  obtain ⟨trail, htrail, hend⟩ := exists_dropBlankEnd (dropBlank cs)
  refine ⟨lead, trail, hlead, htrail, ?_⟩
  rw [List.append_assoc, ← hend, ← hfront]

theorem toList_trim (text : String) :
    (trim text).toList = dropBlankEnd (dropBlank text.toList) := by
  rw [trim, String.toList_ofList]

theorem dropBlankEnd_concat (cs : List Char) (c : Char) (h : isBlank c = false) :
    dropBlankEnd (cs ++ [c]) = cs ++ [c] := by
  simp [dropBlankEnd, h]

theorem dropBlankEnd_append (cs trail : List Char) (htrail : Blanks trail) :
    dropBlankEnd (cs ++ trail) = dropBlankEnd cs := by
  have hreverse : ∀ c ∈ trail.reverse, isBlank c = true :=
    fun c hc => htrail c (List.mem_reverse.1 hc)
  rw [dropBlankEnd, List.reverse_append, List.dropWhile_append_of_pos hreverse, dropBlankEnd]

theorem trimmed_append (cs trail : List Char) (htrail : Blanks trail) :
    dropBlankEnd (dropBlank (cs ++ trail)) = dropBlankEnd (dropBlank cs) := by
  rw [dropBlank, List.dropWhile_append]
  split
  · rename_i hall
    rw [List.dropWhile_eq_nil_iff.2 htrail, dropBlank, List.isEmpty_iff.1 hall]
  · rw [dropBlankEnd_append _ trail htrail, dropBlank]

theorem trim_of_no_blank (text : String) (h : ∀ c ∈ text.toList, isBlank c = false) :
    trim text = text := by
  have hnone {cs : List Char} (hblank : Blanks cs) (hsub : ∀ c ∈ cs, c ∈ text.toList) : cs = [] :=
    List.eq_nil_iff_forall_not_mem.2 fun c hc =>
      Bool.false_ne_true ((h c (hsub c hc)).symm.trans (hblank c hc))
  obtain ⟨lead, trail, hlead, htrail, hsplit⟩ := exists_trimmed text.toList
  rw [hnone hlead (fun c hc => by rw [hsplit]; simp [hc]),
    hnone htrail (fun c hc => by rw [hsplit]; simp [hc]), List.nil_append,
    List.append_nil] at hsplit
  exact String.toList_inj.1 ((toList_trim text).trans hsplit.symm)

theorem trim_ne_empty (text : String) (c : Char) (hc : c ∈ text.toList) (h : isBlank c = false) :
    trim text ≠ "" := by
  intro hempty
  obtain ⟨lead, trail, hlead, htrail, hsplit⟩ := exists_trimmed text.toList
  rw [← toList_trim, hempty, String.toList_empty, List.append_nil] at hsplit
  rw [hsplit, List.mem_append] at hc
  rcases hc with hc | hc
  · exact Bool.false_ne_true (h.symm.trans (hlead c hc))
  · exact Bool.false_ne_true (h.symm.trans (htrail c hc))

theorem endsBlank_append (front trail : List Char) (htrail : Blanks trail) (hne : trail ≠ []) :
    EndsBlank (front ++ trail) := by
  refine ⟨trail.getLast hne, ?_, htrail _ (List.getLast_mem hne)⟩
  rw [List.getLast?_append_of_ne_nil _ hne, List.getLast?_eq_some_getLast hne]

end Crosswalk.Text

namespace Crosswalk.Path

/-! ### Marks -/

theorem isMarked_iff (text : String) : isMarked text = true ↔ arrayMark <:+ text.toList :=
  List.isSuffixOf_iff_suffix

theorem not_endsBlank_of_marked (cs : List Char) (h : arrayMark <:+ cs) : ¬ Text.EndsBlank cs := by
  rintro ⟨c, hlast, hblank⟩
  obtain ⟨front, rfl⟩ := h
  rw [List.getLast?_append_of_ne_nil _ (by decide)] at hlast
  cases hlast
  exact absurd hblank (by decide)

theorem marked_append_cons_iff (front cs : List Char) (c : Char) (hc : c ∉ arrayMark) :
    arrayMark <:+ front ++ c :: cs ↔ arrayMark <:+ cs := by
  induction front with
  | nil =>
    rw [List.nil_append, List.suffix_cons_iff]
    refine or_iff_right fun hmark => hc ?_
    rw [hmark]
    exact List.mem_cons_self
  | cons first rest ih =>
    rw [List.cons_append, List.suffix_cons_iff, ih]
    refine or_iff_right fun hmark => hc ?_
    rw [hmark]
    exact List.mem_cons_of_mem _ (List.mem_append_right rest List.mem_cons_self)

theorem marked_append_iff_of_blanks (lead cs : List Char) (hlead : Text.Blanks lead) :
    arrayMark <:+ lead ++ cs ↔ arrayMark <:+ cs := by
  induction lead with
  | nil => rfl
  | cons c rest ih =>
    have hc : c ∉ arrayMark := by
      intro hmem
      have hblank := hlead c List.mem_cons_self
      simp only [arrayMark, List.mem_cons, List.not_mem_nil, or_false] at hmem
      rcases hmem with rfl | rfl <;> exact absurd hblank (by decide)
    refine (marked_append_cons_iff [] (rest ++ cs) c hc).trans ?_
    exact ih fun d hd => hlead d (List.mem_cons_of_mem c hd)

theorem marked_iff_trimmed (cs : List Char) :
    arrayMark <:+ cs
      ↔ arrayMark <:+ Text.dropBlankEnd (Text.dropBlank cs) ∧ ¬ Text.EndsBlank cs := by
  obtain ⟨lead, trail, hlead, htrail, hsplit⟩ := Text.exists_trimmed cs
  constructor
  · intro h
    have hend := not_endsBlank_of_marked cs h
    refine ⟨?_, hend⟩
    by_cases hnil : trail = []
    · rw [hsplit, hnil, List.append_nil, marked_append_iff_of_blanks _ _ hlead] at h
      exact h
    · rw [hsplit] at hend
      exact absurd (Text.endsBlank_append _ trail htrail hnil) hend
  · rintro ⟨hmark, hend⟩
    by_cases hnil : trail = []
    · rw [hsplit, hnil, List.append_nil, marked_append_iff_of_blanks _ _ hlead]
      exact hmark
    · rw [hsplit] at hend
      exact absurd (Text.endsBlank_append _ trail htrail hnil) hend

/-! ### The pieces of a path -/

theorem pieces_eq_splitOn (cut : Char) (cs : List Char) : pieces cut cs = cs.splitOn cut := by
  induction cs with
  | nil => rfl
  | cons c rest ih =>
    rw [pieces, ih, List.splitOn_eq_splitOnP, List.splitOn_eq_splitOnP,
      List.splitOnP_cons_eq_if_modifyHead]
    by_cases hc : c = cut
    · simp only [hc, if_true, BEq.rfl]
    · obtain ⟨piece, others, hpieces⟩ :=
        List.exists_cons_of_ne_nil (List.splitOnP_ne_nil (· == cut) rest)
      simp only [hc, if_false, beq_eq_false_iff_ne.2 hc, Bool.false_eq_true, hpieces,
        List.modifyHead_cons]

theorem pieces_ne_nil (cut : Char) (cs : List Char) : pieces cut cs ≠ [] := by
  rw [pieces_eq_splitOn]
  exact List.splitOn_ne_nil cut cs

theorem intercalate_pieces (cut : Char) (cs : List Char) :
    List.intercalate [cut] (pieces cut cs) = cs := by
  rw [pieces_eq_splitOn]
  exact List.intercalate_splitOn cut

theorem pieces_append_cut (cut : Char) (front rest : List Char) :
    pieces cut (front ++ cut :: rest) = pieces cut front ++ pieces cut rest := by
  simp only [pieces_eq_splitOn, List.splitOn_eq_splitOnP]
  exact List.splitOnP_append_cons front rest BEq.rfl

theorem pieces_of_not_mem (cut : Char) (cs : List Char) (h : cut ∉ cs) : pieces cut cs = [cs] := by
  rw [pieces_eq_splitOn, List.splitOn_eq_splitOnP]
  refine List.splitOnP_eq_singleton fun c hc => beq_eq_false_iff_ne.2 ?_
  rintro rfl
  exact h hc

theorem not_mem_of_mem_pieces (cut : Char) (cs piece : List Char) (h : piece ∈ pieces cut cs) :
    cut ∉ piece := by
  induction cs generalizing piece with
  | nil =>
    rw [List.mem_singleton.1 h]
    exact List.not_mem_nil
  | cons c rest ih =>
    obtain ⟨first, others, hpieces⟩ := List.exists_cons_of_ne_nil (pieces_ne_nil cut rest)
    rw [hpieces] at ih
    rw [pieces, hpieces] at h
    split at h
    · rcases List.mem_cons.1 h with rfl | hrest
      · exact List.not_mem_nil
      · exact ih piece hrest
    · rename_i hc
      rcases List.mem_cons.1 h with rfl | hothers
      · rw [List.mem_cons, not_or]
        exact ⟨Ne.symm hc, ih first List.mem_cons_self⟩
      · exact ih piece (List.mem_cons_of_mem first hothers)

/-! ### The mark of a path -/

theorem marked_intercalate_iff (cut : Char) (hcut : cut ∉ arrayMark) (texts : List (List Char)) :
    arrayMark <:+ List.intercalate [cut] texts ↔ arrayMark <:+ texts.getLastD [] := by
  induction texts with
  | nil => rfl
  | cons first rest ih =>
    cases rest with
    | nil =>
      rw [List.intercalate_singleton]
      rfl
    | cons next rest =>
      rw [List.intercalate_cons_cons, List.append_assoc]
      exact (marked_append_cons_iff first _ cut hcut).trans ih

theorem marked_last_piece_iff (cs : List Char) :
    arrayMark <:+ (pieces '.' cs).getLastD [] ↔ arrayMark <:+ cs := by
  rw [← marked_intercalate_iff '.' (by decide), intercalate_pieces]

theorem isArray_of_ofPieces (shown : String) (parents : List String) (texts : List (List Char))
    (p : Path) (h : ofPieces shown parents texts = .ok p) :
    p.isArray = true ↔ arrayMark <:+ texts.getLastD [] := by
  induction texts generalizing parents with
  | nil => cases h
  | cons piece rest ih =>
    cases rest with
    | nil =>
      simp only [ofPieces] at h
      split at h
      · cases h
        simp only [unmark]
        split
        · rename_i hmark
          exact iff_of_true rfl (List.isSuffixOf_iff_suffix.1 hmark)
        · rename_i hmark
          exact iff_of_false Bool.false_ne_true fun hsuffix =>
            hmark (List.isSuffixOf_iff_suffix.2 hsuffix)
      · cases h
    | cons next rest =>
      simp only [ofPieces] at h
      split at h
      · cases h
      · split at h
        · cases h
        · exact ih _ h

theorem isArray_of_parse (text : String) (p : Path) (h : parse text = .ok p) :
    p.isArray = true ↔ arrayMark <:+ Text.dropBlankEnd (Text.dropBlank text.toList) := by
  simp only [parse] at h
  split at h
  · cases h
  · rw [isArray_of_ofPieces text [] _ p h, marked_last_piece_iff]

/-- The mark behind a text and the path that is read from it agree, but for white space that the
text ends in. -/
theorem isMarked_of_parse (text : String) (p : Path) (h : parse text = .ok p) :
    isMarked text = true ↔ p.isArray = true ∧ ¬ Text.EndsBlank text.toList := by
  rw [isMarked_iff, marked_iff_trimmed, isArray_of_parse text p h]

end Crosswalk.Path
