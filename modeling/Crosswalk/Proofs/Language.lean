import Crosswalk.Proofs.Marking

/-!
# Reading and writing expressions

Reading accepts the texts of the grammar, each as the expression that it is a form
of, and no others. A text is cut where its grammar says: literals are marked
throughout, so that nothing in them is taken for white space or a separator, and
outside of literals a semicolon belongs to nothing but a separator. It follows that
the written form of an expression is read as that expression.
-/

namespace Crosswalk.Expression

/-! ### What is read is in the language -/

theorem clauseSpelled_of_piece (piece tail : List Char) (more : List (List Char)) (tokens : Clause)
    (hapart : StartsApart tail)
    (htail : ∀ tokens, (more.filter fun p => !p.isEmpty).mapM classify = .ok tokens →
      ClauseSpelled tail tokens)
    (h : ((piece :: more).filter fun p => !p.isEmpty).mapM classify = .ok tokens) :
    ClauseSpelled (piece ++ tail) tokens := by
  cases piece with
  | nil => exact htail tokens h
  | cons c rest =>
    rw [List.filter_cons_of_pos rfl, List.mapM_cons] at h
    obtain ⟨token, htoken, hothers⟩ := (bind_eq_ok_iff _ _ _).1 h
    obtain ⟨others, hrest, hall⟩ := (bind_eq_ok_iff _ _ _).1 hothers
    cases hall
    have hblanks : Text.Blanks [] := List.forall_mem_nil _
    exact ClauseSpelled.token [] (c :: rest) tail token others hblanks
      ((classify_eq_ok_iff _ token).1 htoken) hapart (htail others hrest)

/-- The first of the pieces is followed by white space or nothing, and what follows it is spelled
if the other pieces are tokens. -/
theorem exists_first_piece (ms : List Marked) :
    ∃ first more tail, cutAtBlanks ms = first :: more ∧ ms.map Prod.fst = first ++ tail ∧
      StartsApart tail ∧
      ∀ tokens, (more.filter fun p => !p.isEmpty).mapM classify = .ok tokens →
        ClauseSpelled tail tokens := by
  induction ms with
  | nil =>
    refine ⟨[], [], [], rfl, rfl, fun c hc => (by cases hc), fun tokens h => ?_⟩
    cases h
    exact ClauseSpelled.done [] (List.forall_mem_nil _)
  | cons m rest ih =>
    obtain ⟨c, inside⟩ := m
    obtain ⟨first, more, tail, hcut, htext, hapart, htail⟩ := ih
    by_cases hblank : (!inside && Text.isBlank c) = true
    · -- A cut: the piece that was the first one now belongs to what follows an empty piece.
      have hc : Text.isBlank c = true := (Bool.and_eq_true_iff.1 hblank).2
      refine ⟨[], first :: more, c :: (first ++ tail), ?_, ?_, ?_, fun tokens h => ?_⟩
      · rw [cutAtBlanks, if_pos hblank, hcut]
      · rw [List.map_cons, htext]
        rfl
      · intro d hd
        cases hd
        exact hc
      · exact (clauseSpelled_of_piece first tail more tokens hapart htail h).cons_blank c hc
    · refine ⟨c :: first, more, tail, ?_, ?_, hapart, htail⟩
      · rw [cutAtBlanks, if_neg hblank, hcut]
        rfl
      · rw [List.map_cons, htext]
        rfl

theorem clauseSpelled_of_tokenTexts (ms : List Marked) (tokens : Clause)
    (h : (tokenTexts ms).mapM classify = .ok tokens) :
    ClauseSpelled (ms.map Prod.fst) tokens := by
  obtain ⟨first, more, tail, hcut, htext, hapart, htail⟩ := exists_first_piece ms
  rw [tokenTexts, hcut] at h
  rw [htext]
  exact clauseSpelled_of_piece first tail more tokens hapart htail h

theorem clauseTexts_ne_nil (skip : Nat) (ms : List Marked) : clauseTexts skip ms ≠ [] := by
  induction ms generalizing skip with
  | nil => exact List.cons_ne_nil _ _
  | cons m rest ih =>
    cases skip with
    | succ skip => exact ih skip
    | zero =>
      rw [clauseTexts]
      split
      · exact List.cons_ne_nil _ _
      · cases clauseTexts 0 rest <;> exact List.cons_ne_nil _ _

theorem intercalate_clauseTexts (skip : Nat) (ms : List Marked) :
    List.intercalate separator (clauseTexts skip ms) = ms.drop skip := by
  -- For every `skip`, because behind a separator the induction goes on inside of it.
  induction ms generalizing skip with
  | nil =>
    rw [List.drop_nil]
    cases skip <;> rfl
  | cons m rest ih =>
    cases skip with
    | succ skip => exact ih skip
    | zero =>
      obtain ⟨piece, pieces, hpieces⟩ := List.exists_cons_of_ne_nil (clauseTexts_ne_nil 0 rest)
      rw [clauseTexts]
      split
      · rename_i hsep
        obtain ⟨after, hafter⟩ := List.isPrefixOf_iff_prefix.1 hsep
        have hrest : rest.drop (separator.length - 1) = after := by
          have hdrop := congrArg (List.drop separator.length) hafter
          rw [List.drop_left] at hdrop
          exact hdrop.symm
        obtain ⟨next, others, hnext⟩ :=
          List.exists_cons_of_ne_nil (clauseTexts_ne_nil (separator.length - 1) rest)
        have hjoin := ih (separator.length - 1)
        rw [hnext, hrest] at hjoin
        rw [hnext, List.intercalate_cons_cons, hjoin, List.nil_append, hafter, List.drop_zero]
      · have hjoin := ih 0
        rw [hpieces, List.drop_zero] at hjoin
        rw [hpieces, consFirst, List.drop_zero, ← hjoin]
        cases pieces with
        | nil => rw [List.intercalate_singleton, List.intercalate_singleton]
        | cons next others =>
          rw [List.intercalate_cons_cons, List.intercalate_cons_cons, List.cons_append,
            List.cons_append]

theorem map_intercalate {α β : Type} (f : α → β) (cut : List α) (pieces : List (List α)) :
    (List.intercalate cut pieces).map f
      = List.intercalate (cut.map f) (pieces.map (List.map f)) := by
  induction pieces with
  | nil => rfl
  | cons first rest ih =>
    cases rest with
    | nil => rw [List.map_singleton, List.intercalate_singleton, List.intercalate_singleton]
    | cons next others =>
      rw [List.map_cons] at ih
      rw [List.intercalate_cons_cons, List.map_append, List.map_append, ih, List.map_cons,
        List.map_cons, List.intercalate_cons_cons]

theorem spelled_of_parse (text : String) (e : Expression) (h : parse text = .ok e) :
    Spelled text.toList e := by
  rw [parse] at h
  split at h
  · cases h
  · rename_i ms hmarked
    obtain ⟨clauses, hclauses, hall⟩ := (bind_eq_ok_iff _ _ _).1 h
    cases hall
    refine ⟨(clauseTexts 0 ms).map (List.map Prod.fst), ?_, ?_, ?_⟩
    · exact fun hnil => clauseTexts_ne_nil 0 ms (List.map_eq_nil_iff.1 hnil)
    · refine List.forall₂_map_left_iff.2 (((mapM_eq_ok_iff _ _ _).1 hclauses).imp ?_)
      exact clauseSpelled_of_tokenTexts
    · rw [← map_fst_marked? hmarked]
      have hjoin := congrArg (List.map Prod.fst) (intercalate_clauseTexts 0 ms)
      rw [map_intercalate] at hjoin
      exact hjoin.symm

/-! ### What is in the language is read -/

theorem tokenTexts_of_blank (c : Char) (rest : List Marked) (hc : Text.isBlank c = true) :
    tokenTexts ((c, false) :: rest) = tokenTexts rest := by
  rw [tokenTexts, cutAtBlanks, hc]
  rfl

theorem tokenTexts_of_blanks (lead : List Char) (rest : List Marked) (hlead : Text.Blanks lead) :
    tokenTexts (withMark false lead ++ rest) = tokenTexts rest := by
  induction lead with
  | nil => rfl
  | cons c lead ih =>
    obtain ⟨hc, hrest⟩ := List.forall_mem_cons.1 hlead
    rw [← ih hrest]
    exact tokenTexts_of_blank c _ hc

theorem cutAtBlanks_append (ms rest : List Marked) (more : List (List Char)) (h : Uncut ms)
    (hrest : cutAtBlanks rest = [] :: more) :
    cutAtBlanks (ms ++ rest) = ms.map Prod.fst :: more := by
  induction ms with
  | nil => exact hrest
  | cons m ms ih =>
    obtain ⟨c, inside⟩ := m
    obtain ⟨hm, hms⟩ := List.forall_mem_cons.1 h
    have hkeep : (!inside && Text.isBlank c) = false := by
      cases inside with
      | true => rfl
      | false => exact (hm rfl).1
    rw [List.cons_append, cutAtBlanks, hkeep, if_neg Bool.false_ne_true, ih hms]
    rfl

theorem exists_cutAtBlanks (cs : List Char) (ms : List Marked) (hapart : StartsApart cs)
    (h : marked? none cs = some ms) : ∃ more, cutAtBlanks ms = [] :: more := by
  cases cs with
  | nil =>
    cases h
    exact ⟨[], rfl⟩
  | cons c rest =>
    have hc := hapart c rfl
    rw [marked?, isQuote_of_isBlank c hc] at h
    obtain ⟨tail, -, rfl⟩ := Option.map_eq_some_iff.1 h
    refine ⟨cutAtBlanks tail, ?_⟩
    rw [cutAtBlanks, hc]
    rfl

theorem tokenTexts_of_token (word : List Char) (inside : Bool) (cs : List Char)
    (ms : List Marked) (hne : word ≠ []) (huncut : Uncut (withMark inside word))
    (hapart : StartsApart cs) (h : marked? none cs = some ms) :
    tokenTexts (withMark inside word ++ ms) = word :: tokenTexts ms := by
  obtain ⟨more, hmore⟩ := exists_cutAtBlanks cs ms hapart h
  obtain ⟨c, rest, rfl⟩ := List.exists_cons_of_ne_nil hne
  rw [tokenTexts, tokenTexts, cutAtBlanks_append _ ms more huncut hmore, hmore, map_fst_withMark]
  rfl

theorem ClauseSpelled.marks {cs : List Char} {clause : Clause} (h : ClauseSpelled cs clause) :
    ∃ ms, marked? none cs = some ms ∧ (';', false) ∉ ms ∧
      (tokenTexts ms).mapM classify = .ok clause := by
  have hblank (cs : List Char) (hcs : Text.Blanks cs) : (';', false) ∉ withMark false cs := by
    intro hmem
    obtain ⟨c, hc, heq⟩ := List.mem_map.1 hmem
    have hsemicolon := hcs c hc
    rw [(Prod.mk.inj heq).1] at hsemicolon
    exact absurd hsemicolon (by decide)
  induction h with
  | done blanks hblanks =>
    refine ⟨withMark false blanks, marked?_of_blanks blanks hblanks, hblank blanks hblanks, ?_⟩
    have htexts := tokenTexts_of_blanks blanks [] hblanks
    rw [List.append_nil] at htexts
    rw [htexts]
    rfl
  | token lead word rest token tokens hlead hword hrest htokens ih =>
    obtain ⟨ms, hms, hsemicolon, hmap⟩ := ih
    obtain ⟨inside, hinside, huncut⟩ := hword.marks
    refine ⟨withMark false lead ++ (withMark inside word ++ ms), ?_, ?_, ?_⟩
    · rw [List.append_assoc, marked?_append none lead _ _ (marked?_of_blanks lead hlead),
        marked?_append none word rest _ hinside, hms]
      rfl
    · rw [List.mem_append, List.mem_append, not_or, not_or]
      exact ⟨hblank lead hlead, fun hmem => (huncut _ hmem rfl).2 rfl, hsemicolon⟩
    · rw [tokenTexts_of_blanks lead _ hlead,
        tokenTexts_of_token word inside rest ms hword.ne_nil huncut hrest hms, List.mapM_cons,
        (classify_eq_ok_iff word token).2 hword, hmap]
      rfl

theorem clauseTexts_of_clause (ms : List Marked) (h : (';', false) ∉ ms) :
    clauseTexts 0 ms = [ms] := by
  induction ms with
  | nil => rfl
  | cons m rest ih =>
    obtain ⟨hm, hrest⟩ := not_or.1 fun hmem => h (List.mem_cons.2 hmem)
    have hsep : separator.isPrefixOf (m :: rest) = false := by
      rw [separator, List.isPrefixOf, beq_eq_false_iff_ne.2 hm, Bool.false_and]
    rw [clauseTexts, hsep, if_neg Bool.false_ne_true, ih hrest]
    rfl

theorem clauseTexts_append_separator (ms rest : List Marked) (h : (';', false) ∉ ms) :
    clauseTexts 0 (ms ++ separator ++ rest) = ms :: clauseTexts 0 rest := by
  induction ms with
  | nil =>
    have hsep : separator.isPrefixOf (separator ++ rest) = true :=
      List.isPrefixOf_iff_prefix.2 (List.prefix_append separator rest)
    change clauseTexts 0 ((';', false) :: (separator.tail ++ rest)) = [] :: clauseTexts 0 rest
    rw [clauseTexts]
    exact if_pos hsep
  | cons m ms ih =>
    obtain ⟨hm, hms⟩ := not_or.1 fun hmem => h (List.mem_cons.2 hmem)
    have hsep : separator.isPrefixOf (m :: (ms ++ separator ++ rest)) = false := by
      rw [separator, List.isPrefixOf, beq_eq_false_iff_ne.2 hm, Bool.false_and]
    rw [List.cons_append, List.cons_append, clauseTexts, hsep, if_neg Bool.false_ne_true, ih hms]
    rfl

theorem clauseTexts_intercalate (clauses : List (List Marked)) (hne : clauses ≠ [])
    (h : ∀ ms ∈ clauses, (';', false) ∉ ms) :
    clauseTexts 0 (List.intercalate separator clauses) = clauses := by
  induction clauses with
  | nil => exact absurd rfl hne
  | cons first rest ih =>
    obtain ⟨hfirst, hrest⟩ := List.forall_mem_cons.1 h
    cases rest with
    | nil =>
      rw [List.intercalate_singleton]
      exact clauseTexts_of_clause first hfirst
    | cons next rest =>
      rw [List.intercalate_cons_cons, clauseTexts_append_separator first _ hfirst,
        ih (List.cons_ne_nil _ _) hrest]

theorem marked?_intercalate (texts : List (List Char)) (clauses : List (List Marked))
    (h : List.Forall₂ (fun cs ms => marked? none cs = some ms) texts clauses) :
    marked? none (List.intercalate "; else ".toList texts)
      = some (List.intercalate separator clauses) := by
  induction h with
  | nil => rfl
  | @cons first ms texts clauses hfirst hrest ih =>
    cases hrest with
    | nil =>
      rw [List.intercalate_singleton, List.intercalate_singleton]
      exact hfirst
    | cons hnext hothers =>
      have hsep : marked? none "; else ".toList = some separator := by decide
      rw [List.intercalate_cons_cons, List.intercalate_cons_cons, List.append_assoc,
        marked?_append none first _ ms hfirst, marked?_append none _ _ separator hsep, ih,
        List.append_assoc]
      rfl

theorem exists_marks_of_clauses (texts : List (List Char)) (clauses : List Clause)
    (h : List.Forall₂ ClauseSpelled texts clauses) :
    ∃ marks : List (List Marked),
      List.Forall₂ (fun cs ms => marked? none cs = some ms) texts marks ∧
      (∀ ms ∈ marks, (';', false) ∉ ms) ∧
      List.Forall₂ (fun ms clause => (tokenTexts ms).mapM classify = .ok clause) marks
        clauses := by
  induction h with
  | nil => exact ⟨[], List.Forall₂.nil, List.forall_mem_nil _, List.Forall₂.nil⟩
  | cons hfirst _ ih =>
    obtain ⟨ms, hms, hsemicolon, hread⟩ := hfirst.marks
    obtain ⟨marks, hmarks, hothers, hreads⟩ := ih
    exact ⟨ms :: marks, List.Forall₂.cons hms hmarks,
      List.forall_mem_cons.2 ⟨hsemicolon, hothers⟩, List.Forall₂.cons hread hreads⟩

theorem parse_of_spelled (text : String) (e : Expression) (h : Spelled text.toList e) :
    parse text = .ok e := by
  obtain ⟨texts, hne, htexts, htext⟩ := h
  obtain ⟨clauses, hmarks, hsemicolon, hread⟩ := exists_marks_of_clauses texts e.clauses htexts
  have hclauses : clauses ≠ [] := by
    rintro rfl
    cases hmarks
    exact hne rfl
  rw [parse, htext, marked?_intercalate texts clauses hmarks]
  simp only [clauseTexts_intercalate clauses hclauses hsemicolon]
  exact (bind_eq_ok_iff _ _ _).2 ⟨e.clauses, (mapM_eq_ok_iff _ _ _).2 hread, rfl⟩

/-- The texts that are read as an expression are the texts of the grammar. An expression that can be
written is read back from its written form, and only such expressions are read. -/
theorem parse_accepts_language :
    (∀ text e, parse text = .ok e ↔ Spelled text.toList e) ∧
      (∀ e : Expression, e.WellFormed → parse e.text = .ok e) ∧
      ∀ text e, parse text = .ok e → e.WellFormed := by
  refine ⟨fun text e => ⟨spelled_of_parse text e, parse_of_spelled text e⟩, fun e h => ?_,
    fun text e h => ?_⟩
  · exact parse_of_spelled e.text e (spelled_text e h)
  · exact (spelled_of_parse text e h).wellFormed

theorem separator_in_literal_is_text :
    let e : Expression :=
      ⟨[[.field "245" ['a', 'b'], .literal "; else \" "], [], [.range "LDR" 5 7, .range "008" 0 1],
        [.today, .remove]]⟩
    let written :=
      "245$a$b \x60; else \" \x60; else ; else LDR/6-7 008/1-1; else ###TODAY### ###REMOVE###"
    let other :=
      "\t245$a$b  \x60; else \" \x60 ; else ; else LDR/06-7 008/1; else ###TODAY### ###REMOVE###"
    e.text = written ∧ parse written = .ok e ∧ parse other = .ok e ∧
      Spelled other.toList e ∧ e.WellFormed := by
  intro e written other
  have htext : e.text = written := by decide +kernel
  have hother : parse other = .ok e := by decide +kernel
  have hwellFormed := parse_accepts_language.2.2 other e hother
  have hwritten := parse_accepts_language.2.1 e hwellFormed
  rw [htext] at hwritten
  exact ⟨htext, hwritten, hother, (parse_accepts_language.1 other e).1 hother, hwellFormed⟩

end Crosswalk.Expression
