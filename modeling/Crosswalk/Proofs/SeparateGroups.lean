import Crosswalk.Proofs.NormalForm

/-!
# Groups that are read apart

A repeatable rule reads its groups one by one: what one group reads from, which of
its items are dropped and what they are filled up with is a matter of that group
alone. The items of the rule are those of the same rule with one group only, put
together in ascending order of the groups, and groups of equal order keep the
sequence in which they are declared. So nothing else about that sequence matters.
-/

namespace Crosswalk

def Value.items : Value → List Item
  | .repeatable items _ _ => items
  | _ => []

namespace Reading

/-! ### The order of the groups -/

def ofOrder (order : Int) (groups : List Group) : List Group :=
  groups.filter fun group => group.order = order

/-- The same groups in another sequence, but for groups of equal order, which keep theirs. -/
structure Rearranged (groups other : List Group) : Prop where
  perm : other.Perm groups
  ties : ∀ order, ofOrder order other = ofOrder order groups

structure Ascending (groups sorted : List Group) : Prop extends Rearranged groups sorted where
  le : sorted.Pairwise fun a b => a.order ≤ b.order

theorem mem_ofOrder (order : Int) (groups : List Group) (group : Group) :
    group ∈ ofOrder order groups ↔ group ∈ groups ∧ group.order = order := by
  simp [ofOrder]

theorem ofOrder_cons_self (group : Group) (rest : List Group) :
    ofOrder group.order (group :: rest) = group :: ofOrder group.order rest := by
  simp [ofOrder]

theorem ofOrder_cons_of_ne (order : Int) (group : Group) (rest : List Group)
    (h : group.order ≠ order) : ofOrder order (group :: rest) = ofOrder order rest := by
  simp [ofOrder, h]

theorem head_order_le {first second : Group} {rest others : List Group}
    (hties : ∀ order, ofOrder order (first :: rest) = ofOrder order (second :: others))
    (hle : (first :: rest).Pairwise fun a b => a.order ≤ b.order) :
    first.order ≤ second.order := by
  have hsecond : second ∈ ofOrder second.order (first :: rest) := by
    rw [hties, ofOrder_cons_self]
    exact List.mem_cons_self
  rcases List.mem_cons.1 ((mem_ofOrder _ _ _).1 hsecond).1 with heq | hrest
  · exact Int.le_of_eq (congrArg Group.order heq.symm)
  · exact (List.pairwise_cons.1 hle).1 second hrest

theorem eq_of_ties {front back : List Group}
    (hties : ∀ order, ofOrder order front = ofOrder order back)
    (hfront : front.Pairwise fun a b => a.order ≤ b.order)
    (hback : back.Pairwise fun a b => a.order ≤ b.order) : front = back := by
  induction front generalizing back with
  | nil =>
    cases back with
    | nil => rfl
    | cons second others =>
      have hnone := hties second.order
      rw [ofOrder_cons_self] at hnone
      cases hnone
  | cons first rest ih =>
    cases back with
    | nil =>
      have hnone := hties first.order
      rw [ofOrder_cons_self] at hnone
      cases hnone
    | cons second others =>
      have hle := head_order_le hties hfront
      have hge := head_order_le (fun order => (hties order).symm) hback
      have horder : first.order = second.order := by omega
      have hheads := hties first.order
      rw [ofOrder_cons_self, horder, ofOrder_cons_self] at hheads
      obtain ⟨rfl, hsame⟩ := List.cons.inj hheads
      have hrest (order : Int) : ofOrder order rest = ofOrder order others := by
        by_cases h : first.order = order
        · rw [← h]
          exact hsame
        · have hboth := hties order
          rwa [ofOrder_cons_of_ne _ _ _ h, ofOrder_cons_of_ne _ _ _ h] at hboth
      rw [ih hrest (List.pairwise_cons.1 hfront).2 (List.pairwise_cons.1 hback).2]

theorem Ascending.unique {groups other front back : List Group} (h : Rearranged groups other)
    (hfront : Ascending groups front) (hback : Ascending other back) : front = back := by
  refine eq_of_ties (fun order => ?_) hfront.le hback.le
  rw [hfront.ties, hback.ties, h.ties]

theorem ascending_sortedGroups (rule : Rule) : Ascending rule.groups (sortedGroups rule) := by
  have htrans (a b c : Group) (hab : decide (a.order ≤ b.order) = true)
      (hbc : decide (b.order ≤ c.order) = true) : decide (a.order ≤ c.order) = true := by
    simp only [decide_eq_true_eq] at hab hbc ⊢
    omega
  have htotal (a b : Group) :
      (decide (a.order ≤ b.order) || decide (b.order ≤ a.order)) = true := by
    simp only [Bool.or_eq_true, decide_eq_true_eq]
    omega
  have hperm := List.mergeSort_perm rule.groups fun a b => decide (a.order ≤ b.order)
  refine ⟨⟨hperm, fun order => ?_⟩, ?_⟩
  · -- groups of one order are sorted as they stand, and sorting is stable
    have hlevel : (ofOrder order rule.groups).Pairwise fun a b =>
        decide (a.order ≤ b.order) = true := by
      refine List.pairwise_iff_forall_sublist.2 fun {a b} hab => ?_
      have ha := (mem_ofOrder order _ a).1 (hab.subset (by simp))
      have hb := (mem_ofOrder order _ b).1 (hab.subset (by simp))
      simp [ha.2, hb.2]
    have hsub := (List.sublist_mergeSort htrans htotal hlevel List.filter_sublist).filter
      fun group => decide (group.order = order)
    have hfilter : (ofOrder order rule.groups).filter (fun group => decide (group.order = order))
        = ofOrder order rule.groups := by
      simp [ofOrder]
    rw [hfilter] at hsub
    exact (hsub.eq_of_length (hperm.filter _).length_eq.symm).symm
  · exact (List.pairwise_mergeSort htrans htotal rule.groups).imp fun h => of_decide_eq_true h

/-! ### Reading one group -/

theorem items_itemsValue (head : RuleHead) (items : List Item) :
    (itemsValue head items).items = items := by
  cases items with
  | nil =>
    rw [itemsValue]
    split <;> rfl
  | cons first rest => rfl

theorem kind_of_one_group (head : RuleHead) (groups : List Group) (group : Group)
    (h : Rule.kind ⟨head, groups⟩ = .repeatable) : Rule.kind ⟨head, [group]⟩ = .repeatable := by
  have hpolicy := policy_of_repeatable ⟨head, groups⟩ h
  simp only at hpolicy
  simp [Rule.kind, hpolicy]

theorem kind_of_perm (head : RuleHead) {groups other : List Group} (h : other.Perm groups) :
    Rule.kind ⟨head, other⟩ = Rule.kind ⟨head, groups⟩ := by
  simp only [Rule.kind, h.isEmpty_eq]

variable (setting : Setting) (head : RuleHead) (fan : Bool) (record : Marc.Record)

theorem map_items_of_one_group (groups : List Group) (group : Group)
    (h : Rule.kind ⟨head, groups⟩ = .repeatable) :
    (readRule setting ⟨head, [group]⟩ fan record).map Value.items
      = (unfilledItems setting group.path head.path group.fields record).map sparseFill := by
  rw [readRule_of_one_group setting head group fan record (kind_of_one_group head groups group h),
    map_map]
  congr 1
  funext items
  exact items_itemsValue head (sparseFill items)

/-- The rule is read group by group, each as if it were the only one. -/
theorem readRule_eq_mapM_groups (groups : List Group)
    (h : Rule.kind ⟨head, groups⟩ = .repeatable) :
    readRule setting ⟨head, groups⟩ fan record
      = ((sortedGroups ⟨head, groups⟩).mapM fun group =>
          readRule setting ⟨head, [group]⟩ fan record).map fun parts =>
            itemsValue head (parts.flatMap Value.items) := by
  rw [readRule_eq_inOrder setting ⟨head, groups⟩ fan record h, inOrder_readGroups]
  simp only [← map_items_of_one_group setting head fan record groups _ h, mapM_map_results, map_map]
  rfl

/-- The items of a repeatable rule are those that the same rule reads with each of its groups alone,
in ascending order of the groups. Groups in another sequence are read alike, unless groups of equal
order have changed places. -/
theorem groups_are_read_apart (groups : List Group)
    (hkind : Rule.kind ⟨head, groups⟩ = .repeatable) :
    (∀ value, readRule setting ⟨head, groups⟩ fan record = .ok value →
      ∃ sorted parts, Ascending groups sorted ∧
        List.Forall₂ (fun group part => readRule setting ⟨head, [group]⟩ fan record = .ok part)
          sorted parts ∧
        value.items = parts.flatMap Value.items) ∧
      ∀ other, Rearranged groups other →
        readRule setting ⟨head, other⟩ fan record = readRule setting ⟨head, groups⟩ fan record := by
  have hsorted := ascending_sortedGroups ⟨head, groups⟩
  refine ⟨fun value h => ?_, fun other hother => ?_⟩
  · rw [readRule_eq_mapM_groups setting head fan record groups hkind] at h
    obtain ⟨parts, hparts, rfl⟩ := (map_eq_ok_iff _ _ _).1 h
    exact ⟨_, parts, hsorted, (mapM_eq_ok_iff _ _ _).1 hparts, items_itemsValue head _⟩
  · have hkindOther := (kind_of_perm head hother.perm).trans hkind
    have hsame := hsorted.unique hother (ascending_sortedGroups ⟨head, other⟩)
    rw [readRule_eq_mapM_groups setting head fan record groups hkind,
      readRule_eq_mapM_groups setting head fan record other hkindOther, hsame]

/-- Two groups of one order around a group of a lower one. The lower one is read once for each field
`866`, of which the second has no note, and the first one fills up its second item. -/
theorem lower_group_may_come_first :
    let setting : Setting := ⟨default, {}, fun _ => "2000-01-01"⟩
    let path := "holdings.notes[]"
    let head : RuleHead := { path, policy := some .extendExisting }
    let shelf : Group := ⟨3, path, [Rule.ofExpression "holdings.notes[].note" "852$z",
      Rule.ofExpression "holdings.notes[].place" "852$b"]⟩
    let gaps : Group := ⟨-1, path, [Rule.ofExpression "holdings.notes[].note" "866$a",
      ⟨{ path := "holdings.notes[].remark", expression := some "866$z", required := true }, []⟩]⟩
    let last : Group := ⟨3, path, [Rule.ofExpression "holdings.notes[].note" "\"end\""]⟩
    let record : Marc.Record := ⟨"", [],
      [⟨"866", ' ', ' ', [⟨'a', "v.1"⟩, ⟨'z', "gaps"⟩]⟩, ⟨"866", ' ', ' ', [⟨'a', "v.2"⟩]⟩,
        ⟨"852", ' ', ' ', [⟨'b', "main"⟩, ⟨'z', "worn"⟩]⟩, ⟨"852", ' ', ' ', [⟨'z', "torn"⟩]⟩]⟩
    let value : Value := .repeatable
      [[("note", .string "v.1"), ("remark", .string "gaps")],
        [("note", .string "worn"), ("place", .string "main")],
        [("note", .string "torn"), ("place", .string "main")], [("note", .string "end")]]
      .extendExisting path
    Rule.kind ⟨head, [shelf, gaps, last]⟩ = .repeatable ∧
      Rearranged [shelf, gaps, last] [gaps, shelf, last] ∧
      readRule setting ⟨head, [shelf, gaps, last]⟩ false record = .ok value ∧
      (∃ sorted parts, Ascending [shelf, gaps, last] sorted ∧
        List.Forall₂ (fun group part => readRule setting ⟨head, [group]⟩ false record = .ok part)
          sorted parts ∧
        value.items = parts.flatMap Value.items) ∧
      readRule setting ⟨head, [gaps, shelf, last]⟩ false record = .ok value := by
  intro setting path head shelf gaps last record value
  have hkind : Rule.kind ⟨head, [shelf, gaps, last]⟩ = .repeatable := by decide +kernel
  have hrearranged : Rearranged [shelf, gaps, last] [gaps, shelf, last] := by
    refine ⟨List.Perm.swap _ _ _, fun order => ?_⟩
    by_cases h : order = -1
    · rw [h]
      rfl
    · have hgaps : gaps.order ≠ order := Ne.symm h
      simp only [ofOrder, List.filter_cons, hgaps, decide_false, Bool.false_eq_true, if_false]
  have hle : [gaps, shelf, last].Pairwise fun a b => a.order ≤ b.order := by
    simp [gaps, shelf, last]
  have hsorted : sortedGroups ⟨head, [shelf, gaps, last]⟩ = [gaps, shelf, last] :=
    (ascending_sortedGroups ⟨head, [shelf, gaps, last]⟩).unique hrearranged
      ⟨⟨List.Perm.refl _, fun _ => rfl⟩, hle⟩
  have hread : readRule setting ⟨head, [shelf, gaps, last]⟩ false record = .ok value := by
    rw [readRule_eq_mapM_groups setting head false record _ hkind, hsorted]
    unfold value record last gaps shelf head path setting
    with_unfolding_all rfl
  obtain ⟨hparts, hother⟩ :=
    groups_are_read_apart setting head false record [shelf, gaps, last] hkind
  exact ⟨hkind, hrearranged, hread, hparts value hread, (hother _ hrearranged).trans hread⟩

end Reading

end Crosswalk
