import Crosswalk.Proofs.FailedWrite
import Crosswalk.Proofs.Outline

/-!
# Writes to one path

Two writes to the same path come to one. A text or truth value forgets the one that was
written before it; elements that are added, or taken out, in two portions are added or
taken out as a whole; and to put elements in the place of others, to take elements out
or to delete the array has nothing more to do the second time. The walk of the second
write finds the objects that the first one has made, so the change at its end can be
made together with the first change; and where an array has been removed, with its
parent or without, the second write finds nothing and stops.
-/

namespace Crosswalk

namespace Document

/-! ### Two changes at the end of one walk -/

theorem storage?_obj (members : List (String × Json)) :
    storage? (.obj members) = some members := rfl

theorem changeWithin_changeWithin (first second : List (String × Json) → List (String × Json))
    (keys : List String) (members : List (String × Json)) :
    changeWithin second keys (changeWithin first keys members).1
      = changeWithin (fun inner => second (first inner)) keys members := by
  induction keys generalizing members with
  | nil => rfl
  | cons key rest ih =>
    cases hstored : storage? ((Entries.get? key members).getD .null) with
    | none => simp only [changeWithin, hstored]
    | some inner =>
      -- what the second walk finds at the key is the object that the first one has left there
      simp only [changeWithin, hstored, Entries.get?_insert_self, Option.getD_some, storage?_obj,
        ih, Entries.insert_insert]

theorem changeAt_changeAt (shown : String) (keys : List String)
    (first second : List (String × Json) → List (String × Json)) (document : Json) :
    changeAt shown keys second (changeAt shown keys first document).document
      = changeAt shown keys (fun members => second (first members)) document := by
  cases hstored : storage? document with
  | none => simp only [changeAt, hstored]
  | some members => simp only [changeAt, hstored, storage?_obj, changeWithin_changeWithin]

variable (target : Path) (shown : String) (document : Json)

theorem removeArray_removeArray :
    removeArray target (removeArray target document) = removeArray target document := by
  have hgone := (removed_removeArray target document).gone
  exact (removed_removeArray target (removeArray target document)).absent hgone

/-! ### Elements merged in two portions -/

theorem without_append (first second old : List Json) :
    without (first ++ second) old = without second (without first old) := by
  rw [without, without, without, List.filter_filter]
  apply List.filter_congr
  intro element _
  rw [List.map_append, List.contains_append, Bool.not_or, Bool.and_comm]

theorem mergeArray_deleteIncoming (elements old : List Json)
    (hold : document.at? target.keys = some (.arr old)) :
    mergeArray target shown .deleteIncoming elements document
      = ⟨if without elements old = [] then removeArray target document
          else adjustAt (Entries.insert target.leaf (.arr (without elements old))) target.parents
            document, none⟩ := by
  simp only [mergeArray, hold, List.isEmpty_iff]
  split
  · rw [removeArray_adjustAt_insert target document _ (.arr old) hold]
  · rfl

theorem mergeArray_deleteIncoming_of_none (elements : List Json)
    (h : document.at? target.keys = none) :
    mergeArray target shown .deleteIncoming elements document = ⟨document, none⟩ := by
  simp only [mergeArray, h]

theorem at?_adjustAt_insert (value old : Json) (hold : document.at? target.keys = some old) :
    (adjustAt (Entries.insert target.leaf value) target.parents document).at? target.keys
      = some value := by
  obtain ⟨members, hparents, -⟩ :=
    Json.exists_of_at?_concat target.parents target.leaf document old hold
  have hchanged := at?_adjustAt (Entries.insert target.leaf value) target.parents document members
    hparents
  rw [Path.keys, Json.at?_concat_of_at? _ _ _ _ hchanged, Entries.get?_insert_self]

theorem mergeArray_deleteIncoming_append (first second : List Json) :
    mergeArray target shown .deleteIncoming second
        (mergeArray target shown .deleteIncoming first document).document
      = mergeArray target shown .deleteIncoming (first ++ second) document := by
  cases hat : document.at? target.keys with
  | none => simp only [mergeArray_deleteIncoming_of_none target shown document _ hat]
  | some value =>
    cases value with
    | arr old =>
      rw [mergeArray_deleteIncoming target shown document first old hat,
        mergeArray_deleteIncoming target shown document (first ++ second) old hat, without_append]
      by_cases hfirst : without first old = []
      · rw [if_pos hfirst, if_pos (by rw [hfirst]; rfl)]
        exact mergeArray_deleteIncoming_of_none target shown _ second
          (removed_removeArray target document).gone
      · rw [if_neg hfirst]
        have hleft := at?_adjustAt_insert target document (.arr (without first old)) _ hat
        rw [mergeArray_deleteIncoming target shown _ second _ hleft,
          removeArray_adjustAt_insert target document _ _ hat, adjustAt_adjustAt]
        simp only [Entries.insert_insert]
    | _ => simp only [mergeArray, hat]

theorem mergeArray_extend_append (first second : List Json)
    (h : (mergeArray target shown .extendExisting first document).failure? = none) :
    mergeArray target shown .extendExisting second
        (mergeArray target shown .extendExisting first document).document
      = mergeArray target shown .extendExisting (first ++ second) document := by
  cases first with
  | nil => rfl
  | cons a as =>
    cases second with
    | nil =>
      rw [List.append_nil]
      exact congrArg (Written.mk _) h.symm
    | cons b bs =>
      simp only [mergeArray, List.cons_append, List.isEmpty_cons, Bool.false_eq_true, if_false,
        changeAt_changeAt]
      congr 1
      funext members
      rw [elementsAt, Entries.get?_insert_self, Entries.insert_insert]
      simp only [List.append_assoc, List.cons_append]

def Portionwise (policy : Policy) : Prop := policy = .extendExisting ∨ policy = .deleteIncoming

variable {policy : Policy}

theorem mergeArray_append (first second : List Json) (hpolicy : Portionwise policy)
    (h : (mergeArray target shown policy first document).failure? = none) :
    mergeArray target shown policy second (mergeArray target shown policy first document).document
      = mergeArray target shown policy (first ++ second) document := by
  rcases hpolicy with rfl | rfl
  · exact mergeArray_extend_append target shown document first second h
  · exact mergeArray_deleteIncoming_append target shown document first second

theorem failure?_mergeArray_of_append (first second : List Json) (hpolicy : Portionwise policy)
    (h : (mergeArray target shown policy (first ++ second) document).failure? = none) :
    (mergeArray target shown policy first document).failure? = none := by
  rcases hpolicy with rfl | rfl
  · cases first with
    | nil => rfl
    | cons a as =>
      simp only [mergeArray, List.cons_append, List.isEmpty_cons, Bool.false_eq_true, if_false,
        failure?_changeAt_eq_none_iff] at h ⊢
      exact h
  · simp only [mergeArray]
    split <;> rfl

theorem holdsArray_iff :
    HoldsArray target document ↔ (arrayFound? (document.at? target.keys)).isSome = true := by
  rw [HoldsArray, oldElements]
  cases document.at? target.keys with
  | none => simp [arrayFound?]
  | some value => cases value <;> simp [arrayFound?, Json.items?]

theorem holdsArray_of_arr (items : List Json)
    (h : document.at? target.keys = some (.arr items)) : HoldsArray target document := by
  rw [holdsArray_iff, h]
  rfl

theorem holdsArray_mergeArray (elements : List Json) (hholds : HoldsArray target document)
    (h : (mergeArray target shown policy elements document).failure? = none) :
    HoldsArray target (mergeArray target shown policy elements document).document := by
  have hgone : HoldsArray target (removeArray target document) :=
    Or.inl (removed_removeArray target document).gone
  cases policy with
  | extendExisting =>
    simp only [mergeArray] at h ⊢
    split at h
    · rw [if_pos ‹_›]
      exact hholds
    · rw [if_neg ‹_›]
      exact holdsArray_of_arr target _ _ (at?_changeAt_insert target shown _ document h)
  | exchangeExisting =>
    simp only [mergeArray] at h ⊢
    split at h
    · rw [if_pos ‹_›]
      exact hgone
    · rw [if_neg ‹_›]
      exact holdsArray_of_arr target _ _
        (at?_changeAt_insert target shown (fun _ => .arr elements) document h)
  | deleteExisting => exact hgone
  | deleteIncoming =>
    rcases hholds with hat | hat | hat
    · rw [mergeArray_deleteIncoming_of_none target shown document elements hat]
      exact Or.inl hat
    · simp only [mergeArray, hat]
      exact Or.inr (Or.inl hat)
    · rw [mergeArray_deleteIncoming target shown document elements _ hat]
      dsimp only
      split
      · exact hgone
      · exact holdsArray_of_arr target _ _ (at?_adjustAt_insert target document _ _ hat)

theorem toOption_store_append (policy? : Option Policy) (kind : String) (first second : List Json)
    (hpolicy : Portionwise (policy?.getD default)) :
    (store target shown policy? document (.elements kind (first ++ second))).outcome.toOption
      = (store target shown policy? document (.elements kind first)).outcome.toOption.bind
          fun between =>
            (store target shown policy? between (.elements kind second)).outcome.toOption := by
  cases harray : target.isArray with
  | false =>
    simp only [toOption_store_elements_of_not_isArray _ _ _ _ _ _ harray, Deed.perform,
      Deed.stored?, Option.bind_none]
  | true =>
    simp only [toOption_store_elements _ _ _ _ _ _ harray]
    generalize policy?.getD default = policy at hpolicy
    cases hfound : arrayFound? (document.at? target.keys) with
    | none => rfl
    | some old =>
      simp only [Option.bind_some]
      cases hfirst : (mergeArray target shown policy first document).failure? with
      | some e =>
        have hboth :
            (mergeArray target shown policy (first ++ second) document).failure? ≠ none := by
          intro hnone
          rw [failure?_mergeArray_of_append target shown document first second hpolicy hnone]
            at hfirst
          cases hfirst
        obtain ⟨e', he'⟩ := Option.ne_none_iff_exists'.1 hboth
        rw [Written.outcome, Written.outcome, hfirst, he']
        rfl
      | none =>
        have hholds := holdsArray_mergeArray target shown document first
          ((holdsArray_iff target document).2 (by rw [hfound]; rfl)) hfirst
        obtain ⟨new, hnew⟩ := Option.isSome_iff_exists.1 ((holdsArray_iff target _).1 hholds)
        have hboth := mergeArray_append target shown document first second hpolicy hfirst
        rw [Written.outcome.eq_def (mergeArray target shown policy first document), hfirst]
        simp only [Except.toOption, Option.bind_some, hnew, hboth]

/-! ### Writes that are repeated -/

theorem mergeArray_again (elements : List Json) (hpolicy : policy ≠ .extendExisting) :
    mergeArray target shown policy elements
        (mergeArray target shown policy elements document).document
      = mergeArray target shown policy elements document := by
  cases policy with
  | extendExisting => exact absurd rfl hpolicy
  | exchangeExisting =>
    simp only [mergeArray]
    split
    · rw [removeArray_removeArray]
    · rw [changeAt_changeAt]
      simp only [Entries.insert_insert]
  | deleteExisting => simp only [mergeArray, removeArray_removeArray]
  | deleteIncoming =>
    have hsame : without (elements ++ elements) = without elements := by
      funext old
      rw [without_append, without, without, List.filter_filter]
      simp only [Bool.and_self]
    rw [mergeArray_deleteIncoming_append]
    simp only [mergeArray, hsame]

theorem store_again (amount : Content) (hpolicy : policy ≠ .extendExisting) :
    store target shown (some policy) (store target shown (some policy) document amount).document
        amount
      = store target shown (some policy) document amount := by
  cases hfailure : (store target shown (some policy) document amount).failure? with
  | some e =>
    have hkept := (store_effect target shown (some policy) document amount).document_of_failure e
      hfailure
    rw [hkept]
  | none =>
    cases amount with
    | nothing => rfl
    | deletion =>
      simp only [store, adjustAt_adjustAt, Entries.erase_erase]
    | scalar value =>
      simp only [store]
      split
      · rfl
      · rw [changeAt_changeAt]
        simp only [Entries.insert_insert]
    | elements kind elements =>
      have harray := isArray_of_store_elements target shown _ document kind elements hfailure
      have hholds := holdsArray_of_store_elements target shown _ document kind elements hfailure
      rw [store_elements target shown _ document kind elements harray hholds] at hfailure ⊢
      have hagain := holdsArray_mergeArray target shown document elements hholds hfailure
      rw [store_elements target shown _ _ kind elements harray hagain]
      exact mergeArray_again target shown document elements hpolicy

end Document

/-! ### Values written in two calls -/

inductive Value.Scalar : Value → Prop where
  | string (text : String) : Scalar (.string text)
  | bool (flag : Bool) : Scalar (.bool flag)

inductive Value.Joined : Value → Value → Value → Prop where
  | list (front back : List String) (p q r : Policy) :
      Joined (.list front p) (.list back q) (.list (front ++ back) r)
  | repeatable (front back : List Item) (p q r : Policy) (root other whole : String) :
      Joined (.repeatable front p root) (.repeatable back q other)
        (.repeatable (front ++ back) r whole)

namespace Document

theorem content_of_scalar {value : Value} (h : value.Scalar) :
    ∃ scalar, content value = .ok (.scalar scalar) := by
  cases h with
  | string text => exact ⟨.str text, rfl⟩
  | bool flag => exact ⟨.bool flag, rfl⟩

theorem built_append (front back : List Item) :
    built (front ++ back) = (do
      let objects ← built front
      let others ← built back
      .ok (objects ++ others)) := by
  induction front with
  | nil => cases hback : built back <;> simp [built, hback, bind, Except.bind]
  | cons item rest ih =>
    rw [List.cons_append, built, built, ih]
    cases builtOn (.obj []) item with
    | error e => rfl
    | ok object =>
      cases built rest with
      | error e => rfl
      | ok objects =>
        cases built back with
        | error e => rfl
        | ok others =>
          simp only [bind, Except.bind]
          split <;> rfl

/-- The parts bring the elements of the whole; if the whole cannot be built, a part cannot. -/
theorem content_of_joined {first second both : Value} (h : Value.Joined first second both) :
    (∃ kind front back, content first = .ok (.elements kind front) ∧
      content second = .ok (.elements kind back) ∧
      content both = .ok (.elements kind (front ++ back))) ∨
    ∃ e, content both = .error e ∧ (content first = .error e ∨ content second = .error e) := by
  cases h with
  | list front back p q r =>
    refine Or.inl ⟨"list", front.map .str, back.map .str, rfl, rfl, ?_⟩
    rw [content, List.map_append]
  | repeatable front back p q r root other whole =>
    simp only [content, built_append]
    cases built front with
    | error e => exact Or.inr ⟨e, rfl, Or.inl rfl⟩
    | ok objects =>
      cases built back with
      | error e => exact Or.inr ⟨e, rfl, Or.inr rfl⟩
      | ok others => exact Or.inl ⟨"repeatable", objects, others, rfl, rfl, rfl⟩

variable (path : String) (document : Json)

theorem write_scalar (first second : Value) (policy? again? : Option Policy)
    (hfirst : first.Scalar) (hsecond : second.Scalar) :
    write path second again? (write path first policy? document).document
      = write path second again? document := by
  obtain ⟨scalar, hscalar⟩ := content_of_scalar hfirst
  obtain ⟨other, hother⟩ := content_of_scalar hsecond
  simp only [write, hscalar, hother]
  cases Path.parse path with
  | error e => rfl
  | ok target =>
    simp only [store]
    split
    · rfl
    · rw [changeAt_changeAt]
      simp only [Entries.insert_insert]

theorem toOption_write_joined (first second both : Value) (policy? : Option Policy)
    (hjoined : Value.Joined first second both) (hpolicy : Portionwise (policy?.getD default)) :
    (write path both policy? document).outcome.toOption
      = (write path first policy? document).outcome.toOption.bind fun between =>
          (write path second policy? between).outcome.toOption := by
  simp only [outcome_write]
  cases Path.parse path with
  | error e => rfl
  | ok target =>
    rcases content_of_joined hjoined with
      ⟨kind, front, back, hfront, hback, hboth⟩ | ⟨e, hboth, hfirst | hsecond⟩
    · rw [hfront, hback, hboth]
      exact toOption_store_append target path document policy? kind front back hpolicy
    · rw [hboth, hfirst]
      rfl
    · rw [hboth, hsecond]
      exact (Option.bind_fun_none _).symm

theorem write_again (value : Value) (policy : Policy) (hpolicy : policy ≠ .extendExisting) :
    write path value (some policy) (write path value (some policy) document).document
      = write path value (some policy) document := by
  simp only [write]
  cases Path.parse path with
  | error e => rfl
  | ok target =>
    cases content value with
    | error e => rfl
    | ok amount => exact store_again target path document amount hpolicy

/-- Writes to one path compose, from every document, the order of keys and a failure included: of
two texts or truth values the last one counts; to add or to take out two lists, or the items of two
groups, one after the other is to add or take out all of them, and succeeds just where that does;
and a value that is taken out, put in the place of others or deleted for once is not there to be
dealt with another time. -/
theorem writes_to_one_path_compose (path : String) (document : Json) :
    (∀ (first second : Value) (policy again : Option Policy), first.Scalar → second.Scalar →
      write path second again (write path first policy document).document
        = write path second again document) ∧
    (∀ (first second both : Value) (policy : Option Policy), Value.Joined first second both →
      policy.getD default = .extendExisting ∨ policy.getD default = .deleteIncoming →
      (write path both policy document).outcome.toOption
        = (write path first policy document).outcome.toOption.bind fun between =>
            (write path second policy between).outcome.toOption) ∧
    (∀ (value : Value) (policy : Policy),
      policy = .deleteIncoming ∨ policy = .deleteExisting ∨ policy = .exchangeExisting →
      write path value (some policy) (write path value (some policy) document).document
        = write path value (some policy) document) := by
  refine ⟨?_, ?_, ?_⟩
  · intro first second policy again hfirst hsecond
    exact write_scalar path document first second policy again hfirst hsecond
  · intro first second both policy hjoined hpolicy
    exact toOption_write_joined path document first second both policy hjoined hpolicy
  · intro value policy hpolicy
    refine write_again path document value policy ?_
    rcases hpolicy with rfl | rfl | rfl <;> simp

/-- The first portion empties the array, so that it goes with its parent; the second one finds
nothing. The text that a truth value replaces has made its way through null before. -/
theorem notes_are_taken_out_in_portions :
    let document : Json := .obj [("holdings", .obj [("status", .null),
      ("notes", .obj [("ids", .arr [.str "a", .str "b"])]), ("hrid", .str "h")])]
    let taken : Json := .obj [("holdings", .obj [("status", .null), ("hrid", .str "h")])]
    let first : Value := .list ["b", "c", "a"] .extendExisting
    let second : Value := .list ["a", "d"] .extendExisting
    let both : Value := .list ["b", "c", "a", "a", "d"] .extendExisting
    let ids := "holdings.notes.ids[]"
    let flag := "holdings.status.flag"
    Value.Joined first second both ∧
      (write ids both (some .deleteIncoming) document).outcome.toOption = some taken ∧
      ((write ids first (some .deleteIncoming) document).outcome.toOption.bind fun between =>
        (write ids second (some .deleteIncoming) between).outcome.toOption) = some taken ∧
      (write ids first (some .deleteIncoming)
        (write ids first (some .deleteIncoming) document).document).document = taken ∧
      write flag (.bool true) none (write flag (.string "no") none document).document
        = write flag (.bool true) none document := by
  intro document taken first second both ids flag
  have hjoined : Value.Joined first second both :=
    .list ["b", "c", "a"] ["a", "d"] .extendExisting .extendExisting .extendExisting
  obtain ⟨-, hportions, hagain⟩ := writes_to_one_path_compose ids document
  obtain ⟨hlast, -, -⟩ := writes_to_one_path_compose flag document
  have hboth : (write ids both (some .deleteIncoming) document).outcome.toOption = some taken := by
    decide +kernel
  have honce : (write ids first (some .deleteIncoming) document).document = taken := by
    decide +kernel
  refine ⟨hjoined, hboth, ?_, ?_, ?_⟩
  · rw [← hboth]
    exact (hportions first second both (some .deleteIncoming) hjoined (Or.inr rfl)).symm
  · rw [hagain first .deleteIncoming (Or.inl rfl), honce]
  · exact hlast (.string "no") (.bool true) none none (.string "no") (.bool true)

end Document

end Crosswalk
