import Crosswalk.Proofs.Outline

/-!
# Rules in another order

Rules that only add to documents can be brought into another order, as long as two
rules stay in their order if the destination of one lies on the way to that of the
other or at the same place. Any such order is reached by exchanging neighbours, and
neighbours with unrelated destinations do the same to the outline of a document
either way around.
-/

namespace Crosswalk

/-! ### Rearranged lists -/

section

variable {α : Type} {related : α → α → Prop}

/-- The second list has the elements of the first, each with its position in the first, in another
order that does not part from the first one where elements are related. -/
def KeepsOrder (related : α → α → Prop) (before after : List α) : Prop :=
  ∃ numbered : List (α × Nat), numbered.Perm before.zipIdx ∧ after = numbered.map Prod.fst ∧
    numbered.Pairwise fun a b => related a.1 b.1 → a.2 < b.2

/-- The second list is reached from the first by exchanging neighbours that are not related. -/
inductive Exchanged (related : α → α → Prop) : List α → List α → Prop where
  | refl (as : List α) : Exchanged related as as
  | cons (a : α) {as bs : List α} (h : Exchanged related as bs) :
      Exchanged related (a :: as) (a :: bs)
  | swap (a b : α) (rest : List α) (h : ¬ related a b) :
      Exchanged related (b :: a :: rest) (a :: b :: rest)
  | trans {as bs cs : List α} (h : Exchanged related as bs) (hnext : Exchanged related bs cs) :
      Exchanged related as cs

theorem exchanged_front (a : α) (front back : List α) (h : ∀ b ∈ front, ¬ related a b) :
    Exchanged related (front ++ a :: back) (a :: (front ++ back)) := by
  induction front with
  | nil => exact .refl _
  | cons b rest ih =>
    have hrest := ih fun c hc => h c (List.mem_cons_of_mem b hc)
    exact (hrest.cons b).trans (.swap a b _ (h b List.mem_cons_self))

/-- What comes first in the end stands behind unrelated elements only, those with smaller numbers,
and is moved to the front; the rest follows in the same way. -/
theorem exchanged_of_perm (sorted numbered : List (α × Nat))
    (hsorted : sorted.Pairwise fun a b => a.2 < b.2) (hperm : numbered.Perm sorted)
    (hkept : numbered.Pairwise fun a b => related a.1 b.1 → a.2 < b.2) :
    Exchanged related (sorted.map Prod.fst) (numbered.map Prod.fst) := by
  induction numbered generalizing sorted with
  | nil =>
    rw [hperm.nil_eq]
    exact .refl _
  | cons first rest ih =>
    obtain ⟨front, back, rfl⟩ := List.append_of_mem (hperm.subset List.mem_cons_self)
    have hrest : rest.Perm (front ++ back) := (hperm.trans List.perm_middle).cons_inv
    obtain ⟨hfirst, hlater⟩ := List.pairwise_cons.1 hkept
    obtain ⟨hfront, -, hcross⟩ := List.pairwise_append.1 hsorted
    have hunrelated : ∀ b ∈ front.map Prod.fst, ¬ related first.1 b := by
      intro b hb hrelated
      obtain ⟨other, hother, rfl⟩ := List.mem_map.1 hb
      have hsmaller := hcross other hother first List.mem_cons_self
      have hgreater := hfirst other (hrest.mem_iff.2 (List.mem_append_left _ hother)) hrelated
      omega
    have hsublist : (front ++ back).Sublist (front ++ first :: back) :=
      (List.sublist_cons_self first back).append_left front
    have hnext := ih (front ++ back) (hsorted.sublist hsublist) hrest hlater
    rw [List.map_append] at hnext
    rw [List.map_append, List.map_cons, List.map_cons]
    exact (exchanged_front first.1 _ _ hunrelated).trans (hnext.cons first.1)

theorem KeepsOrder.exchanged {before after : List α} (h : KeepsOrder related before after) :
    Exchanged related before after := by
  obtain ⟨numbered, hperm, rfl, hkept⟩ := h
  have hsorted : before.zipIdx.Pairwise fun a b => a.2 < b.2 := by
    rw [← List.pairwise_map, List.zipIdx_map_snd]
    exact List.pairwise_lt_range'
  have hexchanged := exchanged_of_perm before.zipIdx numbered hsorted hperm hkept
  rw [List.zipIdx_map_fst] at hexchanged
  exact hexchanged

theorem Exchanged.perm {before after : List α} (h : Exchanged related before after) :
    before.Perm after := by
  induction h with
  | refl as => exact .refl as
  | cons a _ ih => exact ih.cons a
  | swap a b rest _ => exact .swap a b rest
  | trans _ _ ih ihnext => exact ih.trans ihnext

theorem Exchanged.foldlM_eq {β : Type} {step : β → α → Option β} {good : α → Prop}
    (hcommute : ∀ a b, good a → good b → ¬ related a b →
      ∀ s, (step s a).bind (step · b) = (step s b).bind (step · a))
    {before after : List α} (h : Exchanged related before after) (hgood : ∀ a ∈ before, good a)
    (s : β) : before.foldlM step s = after.foldlM step s := by
  induction h generalizing s with
  | refl as => rfl
  | cons a _ ih =>
    have hrest := ih fun b hb => hgood b (List.mem_cons_of_mem a hb)
    rw [List.foldlM_cons, List.foldlM_cons]
    exact congrArg (step s a >>= ·) (funext hrest)
  | swap a b rest hunrelated =>
    have ha := hgood a (List.mem_cons_of_mem b List.mem_cons_self)
    have hb := hgood b List.mem_cons_self
    have hpair := hcommute a b ha hb hunrelated s
    simp only [List.foldlM_cons, ← bind_assoc]
    exact congrArg (· >>= fun next => rest.foldlM step next) hpair.symm
  | trans hfirst _ ih ihnext =>
    have hmiddle := fun a ha => hgood a (hfirst.perm.mem_iff.2 ha)
    exact (ih hgood s).trans (ihnext hmiddle s)

end

/-! ### Runs on outlines -/

namespace Mapping

open Document (Deed Apart)

/-- The destination of one of the rules is that of the other, or lies on the way to it. -/
def Related (rule other : Rule) : Prop :=
  ∃ p q, Path.parse rule.head.path = .ok p ∧ Path.parse other.head.path = .ok q ∧
    (p.keys <+: q.keys ∨ q.keys <+: p.keys)

/-- The rule is passed over, or it only adds to documents and has a path that can be read. -/
def Movable (rule : Rule) : Prop :=
  rule.head.enabled = true → rule.Additive ∧ ∃ p, Path.parse rule.head.path = .ok p

variable (setting : Setting) (record : Marc.Record)

def ActsAs (rule : Rule) (act : Outline → Option Outline) : Prop :=
  ∀ document, ((applyRule setting record document rule).toOption).map Json.outline
    = act document.outline

theorem exists_deed_of_movable (rule : Rule) (h : Movable rule)
    (henabled : rule.head.enabled = true) :
    ∃ target deed, Path.parse rule.head.path = .ok target ∧ deed.Plain ∧
      Performs setting record rule target deed := by
  obtain ⟨hadditive, target, hpath⟩ := h henabled
  obtain ⟨deed, hplain, hperforms⟩ := exists_deed_of_additive hadditive hpath
  exact ⟨target, deed, hpath, hplain, hperforms⟩

inductive ActOf (rule : Rule) : (Outline → Option Outline) → Prop where
  | skip : ActOf rule some
  | perform (target : Path) (deed : Deed) (hpath : Path.parse rule.head.path = .ok target) :
      ActOf rule (Outline.perform target deed)

theorem exists_act (rule : Rule) (h : Movable rule) :
    ∃ act, ActOf rule act ∧ ActsAs setting record rule act := by
  cases henabled : rule.head.enabled with
  | false =>
    refine ⟨some, .skip, fun document => ?_⟩
    rw [applyRule_of_disabled setting record document rule henabled]
    rfl
  | true =>
    obtain ⟨target, deed, hpath, hplain, hperforms⟩ :=
      exists_deed_of_movable setting record rule h henabled
    refine ⟨Outline.perform target deed, .perform target deed hpath, fun document => ?_⟩
    rw [hperforms document, Deed.outline_perform deed target document hplain]

theorem ActOf.comm {rule other : Rule} {first second : Outline → Option Outline}
    (hfirst : ActOf rule first) (hsecond : ActOf other second) (hunrelated : ¬ Related rule other)
    (outline : Outline) : (first outline).bind second = (second outline).bind first := by
  cases hfirst with
  | skip => exact (Option.bind_fun_some _).symm
  | perform p deed hp =>
    cases hsecond with
    | skip => exact Option.bind_fun_some _
    | perform q deed' hq =>
      refine Outline.perform_perform outline deed deed' ⟨fun hway => ?_, fun hway => ?_⟩
      · exact hunrelated ⟨p, q, hp, hq, Or.inl hway⟩
      · exact hunrelated ⟨p, q, hp, hq, Or.inr hway⟩

theorem outline_applyRules (act : Rule → Outline → Option Outline) (rules : List Rule)
    (h : ∀ rule ∈ rules, ActsAs setting record rule (act rule)) (document : Json) :
    ((applyRules setting record rules document).toOption).map Json.outline
      = rules.foldlM (fun outline rule => act rule outline) document.outline := by
  induction rules generalizing document with
  | nil => rfl
  | cons rule rest ih =>
    have hrest := ih fun other hother => h other (List.mem_cons_of_mem rule hother)
    have hfirst := h rule List.mem_cons_self document
    rw [List.foldlM_cons, ← hfirst, applyRules, List.foldlM_cons]
    cases happly : applyRule setting record document rule with
    | error e => rfl
    | ok next => exact hrest next

theorem objectsDistinct_applyRules (rules : List Rule) (h : ∀ rule ∈ rules, Movable rule)
    (document after : Json) (hdistinct : document.ObjectsDistinct)
    (hrun : applyRules setting record rules document = .ok after) : after.ObjectsDistinct := by
  induction rules generalizing document with
  | nil =>
    cases hrun
    exact hdistinct
  | cons rule rest ih =>
    rw [applyRules, List.foldlM_cons, bind_eq_ok_iff] at hrun
    obtain ⟨next, hnext, hlater⟩ := hrun
    have hdistinctNext : next.ObjectsDistinct := by
      cases henabled : rule.head.enabled with
      | false =>
        rw [applyRule_of_disabled setting record document rule henabled] at hnext
        cases hnext
        exact hdistinct
      | true =>
        obtain ⟨target, deed, -, hplain, hperforms⟩ :=
          exists_deed_of_movable setting record rule (h rule List.mem_cons_self) henabled
        have hperform := hperforms document
        rw [hnext] at hperform
        exact hdistinct.perform deed target document next hplain hperform.symm
    exact ih (fun other hother => h other (List.mem_cons_of_mem rule hother)) next hdistinctNext
      hlater

/-- Rules that only add to documents, in two orders that differ in the order of unrelated rules
only: the record is mapped with the one exactly if it is with the other, and the two documents are
the same up to the order of keys. The document that they are added to names no key twice in an
object, as is so of all documents whose repeated keys have been settled. -/
theorem unrelated_rules_in_any_order (entity : Entity) (before after : List Rule) (document : Json)
    (hentity : entity ≠ .holdings) (hdistinct : document.DistinctKeys)
    (hmovable : ∀ rule ∈ before, Movable rule) (horder : KeepsOrder Related before after) :
    (∀ e, map setting entity ⟨some before⟩ record document = .error e →
      ∃ other, map setting entity ⟨some after⟩ record document = .error other) ∧
    ∀ mapped, map setting entity ⟨some before⟩ record document = .ok mapped →
      ∃ result other, mapped = ⟨[result], []⟩ ∧
        map setting entity ⟨some after⟩ record document = .ok ⟨[other], []⟩ ∧
        Json.Reordered result other := by
  have hexchanged := horder.exchanged
  have hmoved : ∀ rule ∈ after, Movable rule :=
    fun rule hrule => hmovable rule (hexchanged.perm.mem_iff.2 hrule)
  have hstart : (Document.start document).ObjectsDistinct := by
    refine Json.ObjectsDistinct.of_distinctKeys _ ?_
    cases document with
    | null => exact ⟨List.nodup_nil, trivial⟩
    | _ => exact hdistinct
  have hexists : ∀ rule, ∃ act, Movable rule → ActOf rule act ∧ ActsAs setting record rule act := by
    intro rule
    by_cases h : Movable rule
    · obtain ⟨act, hact⟩ := exists_act setting record rule h
      exact ⟨act, fun _ => hact⟩
    · exact ⟨some, fun hmovable => absurd hmovable h⟩
  choose act hact using hexists
  have hruns : ((applyRules setting record before (Document.start document)).toOption).map
        Json.outline
      = ((applyRules setting record after (Document.start document)).toOption).map
        Json.outline := by
    rw [outline_applyRules setting record act before fun rule h => (hact rule (hmovable rule h)).2,
      outline_applyRules setting record act after fun rule h => (hact rule (hmoved rule h)).2]
    refine hexchanged.foldlM_eq (fun rule other hrule hother hunrelated => ?_) hmovable _
    exact (hact rule hrule).1.comm (hact other hother).1 hunrelated
  rw [map_of_ne_holdings _ _ _ _ _ hentity, map_of_ne_holdings _ _ _ _ _ hentity]
  cases hbefore : applyRules setting record before (Document.start document) with
  | error e =>
    cases hafter : applyRules setting record after (Document.start document) with
    | error other => exact ⟨fun _ _ => ⟨other, rfl⟩, fun _ h => nomatch h⟩
    | ok other =>
      rw [hbefore, hafter] at hruns
      cases hruns
  | ok result =>
    cases hafter : applyRules setting record after (Document.start document) with
    | error e =>
      rw [hbefore, hafter] at hruns
      cases hruns
    | ok other =>
      rw [hbefore, hafter] at hruns
      have houtline : result.outline = other.outline := Option.some.inj hruns
      have hresult := objectsDistinct_applyRules setting record before hmovable _ _ hstart hbefore
      have hother := objectsDistinct_applyRules setting record after hmoved _ _ hstart hafter
      refine ⟨fun _ h => (nomatch h), fun mapped hmapped => ?_⟩
      refine ⟨result, other, (Except.ok.inj hmapped).symm, rfl, ?_⟩
      exact Json.reordered_of_outline_eq result other hresult hother houtline

theorem flag_may_come_first :
    let setting : Setting := ⟨default, {}, fun _ => "2000-01-01"⟩
    let notes := Rule.ofExpression "item.notes[]" "500$a"
    let flag := Rule.ofBoolAction "item.status.lost" .allTrue
    let more := Rule.ofExpression "item.notes[]" "501$a"
    let before := [notes, flag, more]
    let after := [flag, notes, more]
    let record : Marc.Record := ⟨"", [],
      [⟨"501", ' ', ' ', [⟨'a', "m"⟩]⟩, ⟨"500", ' ', ' ', [⟨'a', "n"⟩]⟩]⟩
    let document : Json := .obj [("item", .null)]
    let texts : Json := .arr [.str "n", .str "m"]
    let status : Json := .obj [("lost", .bool true)]
    let result : Json := .obj [("item", .obj [("notes", texts), ("status", status)])]
    let other : Json := .obj [("item", .obj [("status", status), ("notes", texts)])]
    document.DistinctKeys ∧ (∀ rule ∈ before, Movable rule) ∧ KeepsOrder Related before after ∧
      map setting .item ⟨some before⟩ record document = .ok ⟨[result], []⟩ ∧
      map setting .item ⟨some after⟩ record document = .ok ⟨[other], []⟩ ∧
      Json.Reordered result other := by
  intro setting notes flag more before after record document texts status result other
  have hdistinct : document.DistinctKeys := by
    simp [document, Json.DistinctKeys, Json.DistinctKeysMembers, Entries.Distinct, Entries.keys]
  have hnotes : Path.parse "item.notes[]" = .ok ⟨["item"], "notes", true⟩ := by decide +kernel
  have hflag : Path.parse "item.status.lost" = .ok ⟨["item", "status"], "lost", false⟩ := by
    decide +kernel
  have hfirst : notes.Additive := by
    have hparse : Expression.parse "500$a" = .ok ⟨[[.field "500" ['a']]]⟩ := by decide +kernel
    have hremoves := notes.head.removesNothing_of_parse _ _ rfl hparse (by decide)
    exact .expression (by decide +kernel) hremoves (Or.inl rfl)
  have hsecond : more.Additive := by
    have hparse : Expression.parse "501$a" = .ok ⟨[[.field "501" ['a']]]⟩ := by decide +kernel
    have hremoves := more.head.removesNothing_of_parse _ _ rfl hparse (by decide)
    exact .expression (by decide +kernel) hremoves (Or.inl rfl)
  have hmovable : ∀ rule ∈ before, Movable rule := by
    have hset : flag.Additive := .boolean (by decide +kernel) (by decide)
    simp only [before, List.forall_mem_cons]
    exact ⟨fun _ => ⟨hfirst, _, hnotes⟩, fun _ => ⟨hset, _, hflag⟩, fun _ => ⟨hsecond, _, hnotes⟩,
      List.forall_mem_nil _⟩
  have hunrelated : ¬ Related flag notes := by
    rintro ⟨p, q, hp, hq, hway⟩
    cases Except.ok.inj (hflag.symm.trans hp)
    cases Except.ok.inj (hnotes.symm.trans hq)
    revert hway
    decide
  have horder : KeepsOrder Related before after :=
    ⟨[(flag, 1), (notes, 0), (more, 2)], .swap _ _ _, rfl, by simp [hunrelated]⟩
  have hbefore : map setting .item ⟨some before⟩ record document = .ok ⟨[result], []⟩ := by
    unfold result status texts document record before more flag notes setting
    with_unfolding_all rfl
  have hafter : map setting .item ⟨some after⟩ record document = .ok ⟨[other], []⟩ := by
    unfold other status texts document record after more flag notes setting
    with_unfolding_all rfl
  obtain ⟨-, hmapped⟩ := unrelated_rules_in_any_order setting record .item before after document
    (by decide) hdistinct hmovable horder
  obtain ⟨result', other', hresult, hother, hreordered⟩ := hmapped _ hbefore
  rw [hafter, Except.ok.injEq] at hother
  cases hresult
  cases hother
  exact ⟨hdistinct, hmovable, horder, hbefore, hafter, hreordered⟩

end Mapping

end Crosswalk
