import Reowolf.Protocol.Operators
import Reowolf.Protocol.TypedValues

namespace Reowolf

variable {types : ConcreteType → Option DataType} {store : Store} {lhs rhs v w : Value} {depth : Nat}
variable {type : ConcreteType} {embedded embedded' : List ConcreteType}

-- The operators on what is referred to.
theorem equality_of_deref (hl : store.deref lhs = some v) (hr : store.deref rhs = some w) :
    apply_equality_operator_at store (depth + 1) lhs rhs =
      apply_equality_operator_at store (depth + 1) v w := by
  obtain ⟨hl, hv⟩ := Store.deref_eq_some.mp hl
  obtain ⟨hr, hw⟩ := Store.deref_eq_some.mp hr
  have hv : store.maybe_read_ref v = .ok v := (Store.deref_eq_some.mp (Store.deref_plain hv)).1
  have hw : store.maybe_read_ref w = .ok w := (Store.deref_eq_some.mp (Store.deref_plain hw)).1
  simp only [apply_equality_operator_at, hl, hr, hv, hw]

-- Two values of one sort that are not on the heap.
theorem equality_of_leaf (store : Store) (depth : Nat) (h : SameKind v w) (hp : v.get_heap_pos = none) :
    ∃ equal, apply_equality_operator_at store (depth + 1) v w = .ok equal ∧
      (equal = true ↔ v.with_heap_pos 0 = w.with_heap_pos 0) := by
  cases h with
  | @integer type a b =>
    refine ⟨decide (a = b), ?_, by simp⟩
    change (do .ok (decide (a = (← (Value.integer type b).as_integer type)))) = _
    rw [Value.as_integer_self]
    rfl
  | bool | char | input | output | enum       => exact ⟨_, rfl, by simp⟩
  | message | string | array | union | struct => cases hp

-- Two values of one sort that are on the heap: the tags are compared before the regions.
theorem equality_of_node (store : Store) (depth : Nat) {pos pos' : HeapPos} (h : SameKind v w)
    (hp : v.get_heap_pos = some pos) (hp' : w.get_heap_pos = some pos') :
    apply_equality_operator_at store (depth + 1) v w =
      if v.with_heap_pos 0 = w.with_heap_pos 0 then
        equal_heap store (apply_equality_operator_at store depth) pos pos'
      else .ok false := by
  cases h with
  | message | string | array | struct =>
    cases hp
    cases hp'
    rfl
  | @union tag tag' =>
    cases hp
    cases hp'
    by_cases ht : tag = tag'
    case pos =>
      cases ht
      exact (if_neg (not_not_intro rfl)).trans (if_pos rfl).symm
    case neg => exact (if_pos ht).trans (if_neg (by simpa using ht)).symm
  | bool | char | integer | input | output | enum => cases hp

-- The recursion is deep enough for every value of so small a height.
def Equates (types : ConcreteType → Option DataType) (store : Store) (depth : Nat) : Prop :=
  ∀ {lhs rhs t t' type}, store.Denotes [lhs] [t] → store.Denotes [rhs] [t'] →
    HasTypes types false [t] [type] → HasTypes types false [t'] [type] → t.height ≤ depth →
    ∃ equal, apply_equality_operator_at store depth lhs rhs = .ok equal ∧ (equal = true ↔ t = t')

theorem Equates.elements {vs ws : List Value} {ts ts' : List (RegionHeap.Tree Value)} (he : Equates types store depth)
    (hl : store.Denotes vs ts) (hr : store.Denotes ws ts') (ht : HasTypes types false ts embedded)
    (ht' : HasTypes types false ts' embedded) (hd : RegionHeap.Tree.heights ts ≤ depth) :
    ∃ equal, equal_elements (apply_equality_operator_at store depth) (vs.zip ws) = .ok equal ∧
      (equal = true ↔ ts = ts') := by
  induction vs generalizing ws ts ts' embedded with
  | nil =>
    cases hl
    cases ht
    cases ht'
    exact ⟨true, by cases ws <;> rfl, by simp⟩
  | cons v vs ih =>
    obtain ⟨t, ts, he', hlv, hlvs⟩ := hl.uncons
    subst he'
    obtain ⟨type, embedded, he', ht₁, hts⟩ := ht.uncons
    subst he'
    have hlen := hr.length.symm.trans ht'.length
    cases ws with
    | nil => cases hlen
    | cons w ws =>
      obtain ⟨t', ts', he', hrw, hrws⟩ := hr.uncons
      subst he'
      obtain ⟨_, _, he', ht₁', hts'⟩ := ht'.uncons
      cases he'
      rw [RegionHeap.Tree.heights_cons, max_le_iff] at hd
      obtain ⟨equal, hequal, hiff⟩ := he hlv hrw ht₁ ht₁' hd.1
      rw [List.zip_cons_cons, equal_elements, hequal, Except.ok_bind]
      cases equal with
      | false =>
        refine ⟨false, rfl, ?_⟩
        have hne : t ≠ t' := by simpa using hiff
        simp [hne]
      | true =>
        obtain rfl : t = t' := by simpa using hiff
        obtain ⟨equal, hrest, hiff'⟩ := ih hlvs hrws hts hts' hd.2
        exact ⟨equal, hrest, by simpa using hiff'⟩

theorem apply_equality_operator_at_equates (depth : Nat) : Equates types store depth := by
  induction depth with
  | zero =>
    intro lhs rhs t t' type _ _ _ _ hd
    cases t
    cases hd
  | succ depth ih =>
    intro lhs rhs t t' type hl hr ht ht' hd
    obtain ⟨v, hread, hv⟩ := hl.exists_read
    obtain ⟨w, hread', hw⟩ := hr.exists_read
    rw [equality_of_deref hread hread']
    obtain ⟨hp, rfl⟩ | ⟨pos, us, children, hp, hus, hcs, rfl⟩ := hv
    · obtain ⟨_, hf, _⟩ := ht.of_value
      obtain ⟨hp', rfl⟩ | ⟨_, _, _, hp', _, _, rfl⟩ := hw
      all_goals
        obtain ⟨_, hf', _⟩ := ht'.of_value
        have hk := hf.same_kind hf'
      · obtain ⟨equal, he, hiff⟩ := equality_of_leaf store depth hk hp
        exact ⟨equal, he, hiff.trans (by rw [RegionHeap.Tree.node.injEq, and_iff_left rfl])⟩
      · cases (hk.on_heap.mp hp).symm.trans hp'
    · obtain ⟨_, hf, hc⟩ := ht.of_value
      obtain ⟨hp', rfl⟩ | ⟨_, us', children', hp', hus', hcs', rfl⟩ := hw
      all_goals
        obtain ⟨_, hf', hc'⟩ := ht'.of_value
        have hk := hf.same_kind hf'
      · cases (hk.on_heap.mpr hp').symm.trans hp
      · rw [equality_of_node store depth hk hp hp']
        by_cases hl : v.with_heap_pos 0 = w.with_heap_pos 0
        case neg =>
          rw [if_neg hl]
          exact ⟨false, rfl, by simp only [Bool.false_eq_true, RegionHeap.Tree.node.injEq, hl, false_and]⟩
        case pos =>
          rw [if_pos hl, equal_heap, Store.region_eq_ok.mpr hus, Except.ok_bind, Store.region_eq_ok.mpr hus',
            Except.ok_bind, ← hcs.length, ← hcs'.length]
          by_cases hlen : children.length = children'.length
          case neg =>
            rw [if_pos hlen]
            refine ⟨false, rfl, ?_⟩
            simp only [Bool.false_eq_true, RegionHeap.Tree.node.injEq, false_iff, not_and]
            exact fun _ he => hlen (congrArg _ he)
          case pos =>
            rw [hl] at hf
            rw [hc.length, hc'.length] at hlen
            cases hf.embedded_eq hf' hlen
            rw [if_neg (not_not_intro (hc.length.trans hc'.length.symm))]
            obtain ⟨equal, he, hiff⟩ := ih.elements hcs hcs' hc hc' (Nat.le_of_succ_le_succ hd)
            exact ⟨equal, he, hiff.trans (by rw [RegionHeap.Tree.node.injEq, and_iff_right hl])⟩

-- The inequality operator is the other one negated, whatever the values are.
theorem bind_map_not {β : Type} {x : Except Fault β} {ne eq : β → Except Fault Bool}
    (h : ∀ b, ne b = (eq b).map not) : x >>= ne = (x >>= eq).map not := by
  cases x with
  | error => rfl
  | ok b  => exact h b

theorem unequal_elements_eq {eq ne : Value → Value → Except Fault Bool} (h : ∀ v w, ne v w = (eq v w).map not)
    (values : List (Value × Value)) : unequal_elements ne values = (equal_elements eq values).map not := by
  induction values with
  | nil => rfl
  | cons value values ih =>
    obtain ⟨v, w⟩ := value
    rw [unequal_elements, equal_elements, h]
    cases eq v w with
    | error => rfl
    | ok equal =>
      cases equal with
      | false => rfl
      | true  => exact ih

theorem unequal_heap_eq {eq ne : Value → Value → Except Fault Bool} {pos pos' : HeapPos}
    (h : ∀ v w, ne v w = (eq v w).map not) :
    unequal_heap store ne pos pos' = (equal_heap store eq pos pos').map not := by
  unfold unequal_heap equal_heap
  cases store.region pos with
  | error => rfl
  | ok us =>
    cases store.region pos' with
    | error => rfl
    | ok us' =>
      rw [Except.ok_bind, Except.ok_bind, Except.ok_bind, Except.ok_bind]
      by_cases hl : us.length = us'.length
      case neg => rw [if_pos hl, if_pos hl]; rfl
      case pos => rw [if_neg (not_not_intro hl), if_neg (not_not_intro hl), unequal_elements_eq h]

theorem apply_inequality_operator_at_eq (depth : Nat) : ∀ v w, apply_inequality_operator_at store depth v w =
    (apply_equality_operator_at store depth v w).map not := by
  induction depth with
  | zero => 
    intro v w
    rfl
  | succ depth ih =>
    intro lhs rhs
    refine bind_map_not fun v => bind_map_not fun w => ?_
    cases v with
    | message | string | array | struct => exact bind_map_not fun pos' => unequal_heap_eq ih
    | union tag pos =>
      refine bind_map_not fun union => ?_
      obtain ⟨tag', pos'⟩ := union
      change (if tag ≠ tag' then .ok true else unequal_heap store _ pos pos') =
        (if tag ≠ tag' then .ok false else equal_heap store _ pos pos').map not
      by_cases ht : tag = tag'
      case neg =>
        rw [if_pos ht, if_pos ht]
        rfl
      case pos => rw [if_neg (not_not_intro ht), if_neg (not_not_intro ht), unequal_heap_eq ih]
    | bool | char | integer | input | output | enum =>
      exact bind_map_not fun _ => congrArg Except.ok decide_not
    | unassigned | prevStackBoundary | ref | binding | null => rfl

theorem equality_is_structural {t t' : RegionHeap.Tree Value} (hl : store.Denotes [lhs] [t])
    (hr : store.Denotes [rhs] [t']) (ht : HasTypes types false [t] [type])
    (ht' : HasTypes types false [t'] [type]) :
    ∃ equal, apply_equality_operator store lhs rhs = .ok equal ∧
      apply_inequality_operator store lhs rhs = .ok (!equal) ∧ (equal = true ↔ t = t') := by
  have hd : t.height ≤ store.depth := by
    have hle := hl.heights_le
    rw [RegionHeap.Tree.heights_cons, RegionHeap.Tree.heights_nil] at hle
    rw [Store.depth]
    omega
  obtain ⟨equal, he, hiff⟩ := apply_equality_operator_at_equates store.depth hl hr ht ht' hd
  have hne : apply_inequality_operator store lhs rhs = (apply_equality_operator store lhs rhs).map not :=
    apply_inequality_operator_at_eq store.depth lhs rhs
  rw [apply_equality_operator, he] at hne
  exact ⟨equal, he, hne, hiff⟩

-- A struct behind a reference against another one, which differs inside an array.
theorem equality_is_structural_nested :
    let store : Store :=
      { Store.new with
        stack        := [.prevStackBoundary (-1), .struct 1]
        heap_regions := [[.bool true], [.array 0, .char 'c'], [.bool false], [.array 2, .char 'c']] }
    ∃ equal, apply_equality_operator store (.ref (.stack 0)) (.struct 3) = .ok equal ∧
      apply_inequality_operator store (.ref (.stack 0)) (.struct 3) = .ok (!equal) ∧
      (equal = true ↔
        (.node (.struct 0) [.node (.array 0) [.node (.bool true) []], .node (.char 'c') []] : RegionHeap.Tree Value) =
          .node (.struct 0) [.node (.array 0) [.node (.bool false) []], .node (.char 'c') []]) := by
  intro store
  let types : ConcreteType → Option DataType := fun _ => some (.struct [[.array, .bool], [.character]])
  have htype (value : Bool) : HasTypes types false
      [.node (.struct 0) [.node (.array 0) [.node (.bool value) []], .node (.char 'c') []]] [[.instance 0 0]] :=
    .node (.struct rfl) (.node (Forms.array (n := 1)) (.node .bool .nil .nil) (.node .char .nil .nil)) .nil
  have hstruct (value : Bool) (pos : HeapPos) (h : store.heap_regions[pos]? = some [.bool value]) :
      store.Denotes [.array pos, .char 'c'] [.node (.array 0) [.node (.bool value) []], .node (.char 'c') []] :=
    Store.denotes_node (.array pos) (.array pos) rfl rfl h (Store.denotes_leaf (.bool value) (.bool value) rfl rfl .nil)
      (Store.denotes_leaf (.char 'c') (.char 'c') rfl rfl .nil)
  apply equality_is_structural _ _ (htype true) (htype false)
  · exact Store.denotes_node (.ref (.stack 0)) (.struct 1) rfl rfl rfl (hstruct true 0 rfl) .nil
  · exact Store.denotes_node (.struct 3) (.struct 3) rfl rfl rfl (hstruct false 2 rfl) .nil

end Reowolf
