import Reowolf.Protocol.TotalCopies
import Reowolf.Protocol.TypedValues

namespace Reowolf

namespace Pattern

mutual

-- The variables of a pattern, from left to right.
def bindings : RegionHeap.Tree Value → List StackPos
  | .node label children =>
    match label.binding_pos with
    | some pos => [pos]
    | none     => all_bindings children

def all_bindings : List (RegionHeap.Tree Value) → List StackPos
  | []      => []
  | p :: ps => bindings p ++ all_bindings ps

end

mutual

-- The parts of a value that are at the variables of a pattern, if the value is equal to the pattern
-- everywhere else.
def parts : RegionHeap.Tree Value → RegionHeap.Tree Value → Option (List (RegionHeap.Tree Value))
  | .node label children, t =>
    match label.binding_pos with
    | some _ => some [t]
    | none   =>
      match t with
      | .node label' children' => if label = label' then all_parts children children' else none

def all_parts : List (RegionHeap.Tree Value) → List (RegionHeap.Tree Value) →
    Option (List (RegionHeap.Tree Value))
  | [], []           => some []
  | p :: ps, t :: ts => (parts p t).bind fun bound => (all_parts ps ts).map (bound ++ ·)
  | _, _             => none

end

variable {label label' : Value} {children children' ps ts : List (RegionHeap.Tree Value)}
variable {p t : RegionHeap.Tree Value}

theorem bindings_node (h : label.binding_pos = none) :
    bindings (.node label children) = all_bindings children := by
  rw [bindings, h]

theorem parts_node (h : label.binding_pos = none) :
    parts (.node label children) (.node label' children') =
      if label = label' then all_parts children children' else none := by
  rw [parts, h]

theorem all_parts_of_length (h : ps.length ≠ ts.length) : all_parts ps ts = none := by
  induction ps generalizing ts with
  | nil =>
    cases ts with
    | nil  => exact absurd rfl h
    | cons => rfl
  | cons p ps ih =>
    cases ts with
    | nil => rfl
    | cons t ts =>
      rw [all_parts, ih fun he => h (congrArg (· + 1) he)]
      cases parts p t <;> rfl

end Pattern

open Pattern

namespace Store

-- The values of variables.
def Slots (store : Store) (positions : List StackPos) (values : List Value) : Prop :=
  List.Forall₂ (fun pos v => store.stack[store.abs_pos pos]? = some v) positions values

-- These variables got new values, and nothing else has changed: who accounts for the old ones accounts for
-- the new ones.
structure Rebinds (store store' : Store) (positions : List StackPos) (olds news : List Value) : Prop where
  boundary : store'.cur_stack_boundary = store.cur_stack_boundary
  others   : ∀ i, (∀ pos ∈ positions, store.abs_pos pos ≠ i) → store'.stack[i]? = store.stack[i]?
  slots    : store'.Slots positions news
  owns     : ∀ {us K}, store.Owns (olds ++ us) K →
    store'.Owns (news ++ us) K ∧ ∀ pos ∈ K, store'.heap_regions[pos]? = store.heap_regions[pos]?

variable {store store' store₁ : Store} {positions positions' : List StackPos} {pos : StackPos}
variable {olds olds' news news' us : List Value} {K : Multiset HeapPos}

theorem abs_pos_of_boundary (h : store'.cur_stack_boundary = store.cur_stack_boundary) :
    store'.abs_pos pos = store.abs_pos pos := by
  rw [abs_pos, abs_pos, h]

theorem Slots.append (h : store.Slots positions olds) (h' : store.Slots positions' olds') :
    store.Slots (positions ++ positions') (olds ++ olds') :=
  List.rel_append h h'

theorem Slots.split (h : store.Slots (positions ++ positions') olds) :
    ∃ os os', olds = os ++ os' ∧ store.Slots positions os ∧ store.Slots positions' os' := by
  refine ⟨olds.take positions.length, olds.drop positions.length, (List.take_append_drop _ _).symm, ?_, ?_⟩
  · have ht := List.forall₂_take positions.length h
    rwa [List.take_left] at ht
  · have hd := List.forall₂_drop positions.length h
    rwa [List.drop_left] at hd

theorem Rebinds.refl (h : store.Slots positions olds) : store.Rebinds store positions olds olds :=
  ⟨rfl, fun _ _ => rfl, h, fun ho => ⟨ho, fun _ _ => rfl⟩⟩

-- Other variables keep their values.
theorem Rebinds.keeps_slots (h : store.Rebinds store' positions olds news)
    (hd : ∀ pos ∈ positions, pos ∉ positions') (hs : store.Slots positions' olds') :
    store'.Slots positions' olds' := by
  induction hs with
  | nil => exact .nil
  | @cons pos v rest vs hv _ ih =>
    refine .cons ?_ (ih fun p hp hm => hd p hp (List.mem_cons_of_mem _ hm))
    rw [abs_pos_of_boundary h.boundary, h.others _ fun p hp he => ?_, hv]
    have he : p = pos := Nat.add_left_cancel he
    exact hd p hp (he ▸ List.mem_cons_self)

theorem Rebinds.append (h : store.Rebinds store₁ positions olds news)
    (h' : store₁.Rebinds store' positions' olds' news') (hd : ∀ pos ∈ positions', pos ∉ positions) :
    store.Rebinds store' (positions ++ positions') (olds ++ olds') (news ++ news') where
  boundary := h'.boundary.trans h.boundary
  others i hi := by
    refine (h'.others i fun pos hp => ?_).trans (h.others i fun pos hp => hi pos (by simp [hp]))
    rw [abs_pos_of_boundary h.boundary]
    exact hi pos (by simp [hp])
  slots := (h'.keeps_slots hd h.slots).append h'.slots
  owns {us K} ho := by
    rw [List.append_assoc] at ho
    obtain ⟨ho₁, hk₁⟩ := h.owns ho
    have hperm : (news ++ (olds' ++ us)).Perm (olds' ++ (news ++ us)) := by
      rw [← List.append_assoc, ← List.append_assoc]
      exact List.perm_append_comm.append_right us
    obtain ⟨ho', hk'⟩ := h'.owns (ho₁.perm hperm)
    have hperm' : (news' ++ (news ++ us)).Perm (news ++ news' ++ us) := by
      rw [← List.append_assoc]
      exact List.perm_append_comm.append_right us
    exact ⟨ho'.perm hperm', fun pos hp => (hk' pos hp).trans (hk₁ pos hp)⟩

variable {v w v' old : Value} {F P : Multiset HeapPos} {t : RegionHeap.Tree Value}

-- A variable gets a clone, and what it had before is dropped.
theorem clone_and_write (hr : store.Reps [v] [t] F) (hp : v.is_ref = false)
    (hs : store.stack[store.abs_pos pos]? = some old) (ho : store.Owns (old :: us) K) (hF : ∀ q ∈ F, q ∈ K) :
    ∃ v' store₁ store', store.clone_value v = .ok (v', store₁) ∧ store₁.write (.stack pos) v' = .ok store' ∧
      store.Rebinds store' [pos] [old] [v'] ∧ ∃ N, store'.Reps [v'] [t] N := by
  have hlive : ∀ q ∈ F, q ∈ 0 + (Multiset.range store.heap_regions.length - ↑store.free_regions) := by
    intro q hq
    have hK := hF q hq
    have hm := Multiset.mem_range.mpr (ho.lt q (Multiset.mem_add.mpr (.inr hK)))
    rw [← ho.accounts.all, add_right_comm, Multiset.mem_add] at hm
    exact hm.resolve_right fun hf => ho.free_not_kept hf hK
  obtain ⟨v', store₁, B, hclone, hreps, _, hk₁, _⟩ := clone_value_total ho.accounts hr hlive hp
  have hs₁ : store₁.read_ref (.stack pos) = .ok old := by
    rw [read_ref, read_stack, abs_pos_of_boundary hk₁.boundary, hk₁.stack, hs]
  -- The old value can be dropped: it is at hand.
  have howner {us : List Value} {K : Multiset HeapPos} (ho : store.Owns (old :: us) K) :
      store₁.Owns (old :: v' :: us) K ∧ store.Keeps store₁ K := by
    obtain ⟨ho₁, hk, _⟩ := clone_value_owned ho hp hclone
    exact ⟨ho₁.perm (.swap _ _ _), hk⟩
  obtain ⟨ho₁, _⟩ := howner ho
  have hdrop : ∃ store₂, store₁.drop_value old.get_heap_pos = .ok store₂ ∧ store₂.stack = store₁.stack ∧
      store₂.cur_stack_boundary = store₁.cur_stack_boundary := by
    cases hold : old.get_heap_pos with
    | none => exact ⟨store₁, rfl, rfl, rfl⟩
    | some q =>
      have ho₁' : store₁.Owns ([old] ++ v' :: us) K := ho₁
      obtain ⟨ts, O, hreps⟩ := ho₁'.exists_reps
      have hlen := hreps.length
      have hO : O.Nodup := (Multiset.nodup_add.mp (Multiset.nodup_add.mp (Owns.keep hreps ho₁').nodup).2.1).1
      obtain ⟨s, rfl⟩ := List.length_eq_one_iff.mp hlen
      obtain ⟨store₂, hd, hdrops⟩ := drop_heap_pos_total hold hreps hO
      exact ⟨store₂, hd, hdrops.stack, hdrops.boundary⟩
  obtain ⟨store₂, hd, hstack₂, hb₂⟩ := hdrop
  have hb : store₂.cur_stack_boundary = store.cur_stack_boundary := hb₂.trans hk₁.boundary
  have hstack : store₂.stack = store.stack := hstack₂.trans hk₁.stack
  have hlt := (List.getElem?_eq_some_iff.mp hs).1
  refine ⟨v', store₁, store₂.overwrite v' (.stack pos), hclone, ?_, ?_, ?_⟩
  · simp only [write, hs₁, hd, Except.ok_bind]
  · constructor
    case boundary => exact hb
    case others =>
      intro i hi
      change (store₂.stack.set (store₂.abs_pos pos) v')[i]? = _
      rw [abs_pos_of_boundary hb, hstack, List.getElem?_set_ne (hi pos (by simp))]
    case slots =>
      refine .cons ?_ .nil
      change (store₂.stack.set (store₂.abs_pos pos) v')[store₂.abs_pos pos]? = _
      rw [abs_pos_of_boundary hb, hstack, List.getElem?_set_self hlt]
    case owns =>
      intro us K ho
      obtain ⟨ho₁, hk⟩ := howner ho
      obtain ⟨ho₂, hk₂, _⟩ := drop_value_owned ho₁ hd
      exact ⟨⟨⟨ho₂.nodup, ho₂.lt, ho₂.empty⟩, ho₂.plain⟩,
        fun q hq => (hk₂.regions q hq).trans (hk.regions q hq)⟩
  · -- The clone is none of what is dropped.
    have ho₁' : store₁.Owns ([v'] ++ old :: us) K := ho₁.perm (.swap _ _ _)
    have hkept := ho₁'.keep hreps
    obtain ⟨_, hk₂, _⟩ := drop_value_owned hkept hd
    exact ⟨B, hreps.congr fun q hq => hk₂.regions q (Multiset.mem_add.mpr (.inl hq))⟩

end Store

variable {types : ConcreteType → Option DataType} {store store' : Store} {lhs rhs v w : Value} {depth : Nat}
variable {label label' : Value} {children children' ps ts : List (RegionHeap.Tree Value)}
variable {p t : RegionHeap.Tree Value}

-- The operator on what is referred to.
theorem binding_of_deref (hl : store.deref lhs = some v) (hr : store.deref rhs = some w) :
    apply_binding_operator_at (depth + 1) store lhs rhs =
      apply_binding_operator_at (depth + 1) store v w := by
  obtain ⟨hl, hv⟩ := Store.deref_eq_some.mp hl
  obtain ⟨hr, hw⟩ := Store.deref_eq_some.mp hr
  have hv : store.maybe_read_ref v = .ok v := (Store.deref_eq_some.mp (Store.deref_plain hv)).1
  have hw : store.maybe_read_ref w = .ok w := (Store.deref_eq_some.mp (Store.deref_plain hw)).1
  simp only [apply_binding_operator_at, hl, hr, hv, hw]

theorem binding_of_variable {pos : StackPos} (hw : w.is_ref = false) :
    apply_binding_operator_at (depth + 1) store (.binding pos) w =
      (do
        let (to_write, store) ← store.clone_value w
        let store ← store.write (.stack pos) to_write
        .ok (true, store)) := by
  have hw : store.maybe_read_ref w = .ok w := (Store.deref_eq_some.mp (Store.deref_plain hw)).1
  rw [apply_binding_operator_at, hw]
  rfl

-- Two values of one sort that are not on the heap.
theorem binding_of_leaf (store : Store) (depth : Nat) (h : SameKind v w) (hp : v.get_heap_pos = none) :
    ∃ equal, apply_binding_operator_at (depth + 1) store v w = .ok (equal, store) ∧
      (equal = true ↔ v.with_heap_pos 0 = w.with_heap_pos 0) := by
  cases h with
  | @integer type a b =>
    refine ⟨decide (a = b), ?_, by simp⟩
    change (do .ok (decide (a = (← (Value.integer type b).as_integer type)), store)) = _
    rw [Value.as_integer_self]
    rfl
  | bool | char | input | output | enum       => exact ⟨_, rfl, by simp⟩
  | message | string | array | union | struct => cases hp

-- Two values of one sort that are on the heap: the tags are compared before the regions.
theorem binding_of_node (store : Store) (depth : Nat) {pos pos' : HeapPos} (h : SameKind v w)
    (hp : v.get_heap_pos = some pos) (hp' : w.get_heap_pos = some pos') :
    apply_binding_operator_at (depth + 1) store v w =
      if v.with_heap_pos 0 = w.with_heap_pos 0 then
        bind_heap (apply_binding_operator_at depth) store pos pos'
      else .ok (false, store) := by
  cases h with
  | message | string | array | struct =>
    cases hp
    cases hp'
    rfl
  | @union tag tag' =>
    cases hp
    cases hp'
    by_cases ht : tag = tag'
    case pos =>
      cases ht
      exact (if_neg (not_not_intro rfl)).trans (if_pos rfl).symm
    case neg => exact (if_pos ht).trans (if_neg (by simpa using ht)).symm
  | bool | char | integer | input | output | enum => cases hp

-- What is required of the operator where the recursion is deep enough: it says whether the value matches
-- and changes no more than the variables, which get the parts of the value if it matches.
def BindsWithin (types : ConcreteType → Option DataType) (depth : Nat) : Prop :=
  ∀ {store lhs rhs p t P F olds us K type}, store.Reps [lhs] [p] P → store.Reps [rhs] [t] F →
    lhs.is_ref = false → rhs.is_ref = false → HasTypes types true [p] [type] →
    HasTypes types false [t] [type] → (bindings p).Nodup → store.Slots (bindings p) olds →
    store.Owns (olds ++ us) K → (∀ pos ∈ P, pos ∈ K) → (∀ pos ∈ F, pos ∈ K) → p.height ≤ depth →
    ∃ matched store' news, apply_binding_operator_at depth store lhs rhs = .ok (matched, store') ∧
      store.Rebinds store' (bindings p) olds news ∧ (matched = (parts p t).isSome) ∧
      ∀ bound, parts p t = some bound → ∃ N, store'.Reps news bound N

theorem BindsWithin.elements {lhs_pos rhs_pos : HeapPos} {ldone lrest rdone rrest olds us : List Value}
    {P F K : Multiset HeapPos} {embedded : List ConcreteType} (hb : BindsWithin types depth)
    (hl : store.heap_regions[lhs_pos]? = some (ldone ++ lrest))
    (hr : store.heap_regions[rhs_pos]? = some (rdone ++ rrest)) (hlp : lhs_pos ∈ K) (hrp : rhs_pos ∈ K)
    (hd : ldone.length = rdone.length) (hps : store.Reps lrest ps P) (hts : store.Reps rrest ts F)
    (hp : HasTypes types true ps embedded) (ht : HasTypes types false ts embedded)
    (hn : (all_bindings ps).Nodup) (hs : store.Slots (all_bindings ps) olds) (ho : store.Owns (olds ++ us) K)
    (hP : ∀ pos ∈ P, pos ∈ K) (hF : ∀ pos ∈ F, pos ∈ K) (hh : RegionHeap.Tree.heights ps ≤ depth) :
    ∃ matched store' news, bind_elements (apply_binding_operator_at depth) lhs_pos rhs_pos
        (List.range' ldone.length lrest.length) store = .ok (matched, store') ∧
      store.Rebinds store' (all_bindings ps) olds news ∧ (matched = (all_parts ps ts).isSome) ∧
      ∀ bound, all_parts ps ts = some bound → ∃ N, store'.Reps news bound N := by
  induction lrest generalizing ldone rdone rrest store ps ts olds us P F embedded with
  | nil =>
    cases hps
    cases hp
    cases ht
    cases hs
    refine ⟨true, store, [], rfl, .refl .nil, rfl, fun bound he => ?_⟩
    cases he
    exact ⟨0, .nil⟩
  | cons v lrest ih =>
    obtain ⟨p, ps', P₁, P₂, he, he', hv, hlrest⟩ := hps.uncons
    subst he he'
    obtain ⟨type, embedded', he, hp₁, hps'⟩ := hp.uncons
    subst he
    have hlen := hts.length.symm.trans ht.length
    cases rrest with
    | nil => cases hlen
    | cons w rrest =>
      obtain ⟨t, ts', F₁, F₂, he, he', hw, hrrest⟩ := hts.uncons
      subst he he'
      obtain ⟨_, _, he, ht₁, hts'⟩ := ht.uncons
      cases he
      obtain ⟨os, os', he, hs₁, hs₂⟩ := hs.split
      subst he
      rw [all_bindings, List.nodup_append] at hn
      obtain ⟨hn₁, hn₂, hdisjoint⟩ := hn
      rw [RegionHeap.Tree.heights_cons, max_le_iff] at hh
      have hreadl : store.read_region lhs_pos ldone.length = .ok v :=
        Store.read_region_eq_ok.mpr ⟨_, hl, by simp⟩
      have hreadr : store.read_region rhs_pos ldone.length = .ok w :=
        Store.read_region_eq_ok.mpr ⟨_, hr, by simp [hd]⟩
      have ho₁ : store.Owns (os ++ (os' ++ us)) K := by rwa [← List.append_assoc]
      obtain ⟨matched, store₁, news, hrun, hre, hm, hbound⟩ := hb hv hw (ho.plain_region hl (by simp))
        (ho.plain_region hr (by simp)) hp₁ ht₁ hn₁ hs₁ ho₁ (fun pos hp => hP pos (by simp [hp]))
        (fun pos hp => hF pos (by simp [hp])) hh.1
      have hapart : ∀ pos ∈ bindings p, pos ∉ all_bindings ps' :=
        fun pos hp hp' => hdisjoint pos hp pos hp' rfl
      have hs₂' := hre.keeps_slots hapart hs₂
      simp only [List.length_cons, List.range'_succ, bind_elements, hreadl, hreadr, hrun, Except.ok_bind,
        all_bindings]
      cases hparts : parts p t with
      | none =>
        rw [hparts] at hm
        subst hm
        refine ⟨false, store₁, news ++ os', rfl, ?_, ?_, ?_⟩
        · exact hre.append (.refl hs₂') fun pos hp hp' => hapart pos hp' hp
        · rw [all_parts, hparts]
          rfl
        · intro bound he
          rw [all_parts, hparts] at he
          cases he
      | some bound₁ =>
        rw [hparts] at hm
        subst hm
        obtain ⟨N, hnews⟩ := hbound bound₁ hparts
        obtain ⟨ho₁', hk₁⟩ := hre.owns ho₁
        have ho₂ : store₁.Owns (os' ++ (news ++ us)) K := by
          refine ho₁'.perm ?_
          rw [← List.append_assoc, ← List.append_assoc]
          exact List.perm_append_comm.append_right us
        have hl₁ := (hk₁ lhs_pos hlp).trans hl
        have hr₁ := (hk₁ rhs_pos hrp).trans hr
        rw [List.append_cons] at hl₁ hr₁
        have hP₂ : ∀ pos ∈ P₂, pos ∈ K := fun pos hp => hP pos (by simp [hp])
        have hF₂ : ∀ pos ∈ F₂, pos ∈ K := fun pos hp => hF pos (by simp [hp])
        obtain ⟨matched, store', news', hrun', hre', hm', hbound'⟩ := ih hl₁ hr₁ (by simp [hd])
          (hlrest.congr fun pos hp => hk₁ pos (hP₂ pos hp))
          (hrrest.congr fun pos hp => hk₁ pos (hF₂ pos hp)) hps' hts' hn₂ hs₂' ho₂ hP₂ hF₂ hh.2
        rw [List.length_append, List.length_singleton] at hrun'
        refine ⟨matched, store', news ++ news', hrun', hre.append hre' fun pos hp hp' => hapart pos hp' hp, ?_, ?_⟩
        · rw [hm', all_parts, hparts]
          simp
        · intro bound he
          rw [all_parts, hparts] at he
          cases hrest : all_parts ps' ts' with
          | none =>
            rw [hrest] at he
            cases he
          | some bound₂ =>
            rw [hrest] at he
            cases he
            obtain ⟨N', hnews'⟩ := hbound' bound₂ hrest
            -- What the first variables got is kept while the others are bound.
            have hkeep := (hre'.owns (ho₁'.keep hnews)).2
            have hnews := hnews.congr fun pos hp => hkeep pos (Multiset.mem_add.mpr (.inl hp))
            exact ⟨N + N', hnews.append hnews'⟩

theorem Value.binding_pos_with {pos : HeapPos} : (v.with_heap_pos pos).binding_pos = v.binding_pos := by
  cases v <;> rfl

theorem apply_binding_operator_at_binds (depth : Nat) : BindsWithin types depth := by
  induction depth with
  | zero =>
    intro store lhs rhs p t P F olds us K type _ _ _ _ _ _ _ _ _ _ _ hh
    cases p
    cases hh
  | succ depth ih =>
    intro store lhs rhs p t P F olds us K type hl hr hlp hrp hp ht hn hs ho hP hF hh
    cases hb : lhs.binding_pos with
    | some pos =>
      obtain rfl : lhs = .binding pos := by
        cases lhs with
        | binding => cases hb; rfl
        | _       => cases hb
      obtain ⟨_, rfl⟩ | ⟨_, _, _, _, hv, _⟩ := hl.of_singleton
      · have hone : ∃ old, olds = [old] ∧ store.stack[store.abs_pos pos]? = some old := by
          cases hs with
          | cons hv hnil =>
            cases hnil
            exact ⟨_, rfl, hv⟩
        obtain ⟨old, rfl, hold⟩ := hone
        obtain ⟨v', store₁, store', hclone, hwrite, hre, N, hreps⟩ :=
          Store.clone_and_write hr hrp hold ho hF
        refine ⟨true, store', [v'], ?_, hre, rfl, ?_⟩
        · rw [binding_of_variable hrp, hclone, Except.ok_bind]
          simp only [hwrite, Except.ok_bind]
        · intro bound he
          cases he
          exact ⟨N, hreps⟩
      · cases hv
    | none =>
      have hnone : (lhs.with_heap_pos 0).binding_pos = none := Value.binding_pos_with.trans hb
      obtain ⟨hv, rfl⟩ | ⟨pos, vs, children, G, hv, rfl, rfl, hvs, hcs⟩ := hl.of_singleton
      all_goals
        obtain ⟨embedded, hf, hc⟩ := hp.of_node hnone
        rw [bindings_node hnone] at hn hs ⊢
      · obtain ⟨hw, rfl⟩ | ⟨pos', ws, children', G', hw, rfl, rfl, hws, hcs'⟩ := hr.of_singleton
        all_goals
          obtain ⟨embedded', hf', hc'⟩ := ht.of_value
          have hk := hf.same_kind hf'
        · obtain ⟨equal, he, hiff⟩ := binding_of_leaf store depth hk hv
          cases hs
          rw [parts_node hnone]
          by_cases hlabel : lhs.with_heap_pos 0 = rhs.with_heap_pos 0
          case neg =>
            obtain rfl : equal = false := by simpa using mt hiff.mp hlabel
            rw [if_neg hlabel]
            refine ⟨false, store, [], he, .refl .nil, rfl, fun bound hbound => ?_⟩
            cases hbound
          case pos =>
            obtain rfl : equal = true := hiff.mpr hlabel
            rw [if_pos hlabel]
            refine ⟨true, store, [], he, .refl .nil, rfl, fun bound hbound => ?_⟩
            cases hbound
            exact ⟨0, .nil⟩
        · cases (hk.on_heap.mp hv).symm.trans hw
      · obtain ⟨hw, rfl⟩ | ⟨pos', ws, children', G', hw, rfl, rfl, hws, hcs'⟩ := hr.of_singleton
        all_goals
          obtain ⟨embedded', hf', hc'⟩ := ht.of_value
          have hk := hf.same_kind hf'
        · cases (hk.on_heap.mpr hw).symm.trans hv
        · rw [parts_node hnone, binding_of_node store depth hk hv hw]
          by_cases hlabel : lhs.with_heap_pos 0 = rhs.with_heap_pos 0
          case neg =>
            rw [if_neg hlabel, if_neg hlabel]
            refine ⟨false, store, olds, rfl, .refl hs, rfl, fun bound he => ?_⟩
            cases he
          case pos =>
            rw [if_pos hlabel, if_pos hlabel, bind_heap, Store.region_eq_ok.mpr hvs, Except.ok_bind,
              Store.region_eq_ok.mpr hws, Except.ok_bind, ← hcs.length, ← hcs'.length]
            by_cases hlen : children.length = children'.length
            case neg =>
              rw [if_pos hlen, all_parts_of_length hlen]
              refine ⟨false, store, olds, rfl, .refl hs, rfl, fun bound he => ?_⟩
              cases he
            case pos =>
              rw [hlabel] at hf
              cases hf.embedded_eq hf' (hc.length.symm.trans (hlen.trans hc'.length))
              rw [if_neg (not_not_intro hlen), hcs.length, List.range_eq_range']
              have hvs₀ : store.heap_regions[pos]? = some ([] ++ vs) := hvs
              have hws₀ : store.heap_regions[pos']? = some ([] ++ ws) := hws
              exact ih.elements hvs₀ hws₀ (hP pos (by simp)) (hF pos' (by simp)) rfl hcs hcs' hc hc'
                hn hs ho (fun q hq => hP q (by simp [hq])) (fun q hq => hF q (by simp [hq]))
                (Nat.le_of_succ_le_succ hh)

theorem mem_zip_places {α : Type} {l olds : List α} {places : List Nat}
    (h : List.Forall₂ (fun i v => l[i]? = some v) places olds) {v : α} {i : Nat} :
    (v, i) ∈ olds.zip places ↔ i ∈ places ∧ l[i]? = some v := by
  induction h with
  | nil => simp
  | @cons j w _ _ hw _ ih =>
    rw [List.zip_cons_cons, List.mem_cons, List.mem_cons, ih, Prod.mk.injEq]
    constructor
    · rintro (⟨rfl, rfl⟩ | ⟨hi, hv⟩)
      · exact ⟨.inl rfl, hw⟩
      · exact ⟨.inr hi, hv⟩
    · rintro ⟨rfl | hi, hv⟩
      · exact .inl ⟨Option.some.inj (hv.symm.trans hw), rfl⟩
      · exact .inr ⟨hi, hv⟩

-- The values at some places of a list can be put in front of all the others.
theorem perm_places {α : Type} {l olds : List α} {places : List Nat} (hn : places.Nodup)
    (h : List.Forall₂ (fun i v => l[i]? = some v) places olds) :
    ∃ others, l.Perm (olds ++ others) ∧ ∀ i v, l[i]? = some v → i ∉ places → v ∈ others := by
  have hlen : olds.length = places.length := h.length_eq.symm
  have hfirst : (olds.zip places).Perm (l.zipIdx.filter (·.2 ∈ places)) := by
    refine (List.perm_ext_iff_of_nodup ?_ ?_).mpr ?_
    · refine List.Nodup.of_map Prod.snd ?_
      rwa [List.map_snd_zip hlen.ge]
    · refine (List.Nodup.of_map Prod.snd ?_).filter _
      rw [List.zipIdx_map_snd]
      exact List.nodup_range'
    · rintro ⟨v, i⟩
      rw [mem_zip_places h, List.mem_filter, List.mem_zipIdx_iff_getElem?, decide_eq_true_eq, and_comm]
  refine ⟨(l.zipIdx.filter fun x => !decide (x.2 ∈ places)).map Prod.fst, ?_, ?_⟩
  · have hall := ((hfirst.append_right _).trans (List.filter_append_perm _ _)).map Prod.fst
    rw [List.map_append, List.map_fst_zip hlen.le, List.zipIdx_map_fst] at hall
    exact hall.symm
  · intro i v hv hi
    refine List.mem_map.mpr ⟨(v, i), List.mem_filter.mpr ⟨?_, by simpa using hi⟩, rfl⟩
    exact List.mem_zipIdx_iff_getElem?.mpr hv

namespace Store

-- A region that is below a value of another variable or at hand, or kept for others.
def Elsewhere (store : Store) (positions : List StackPos) (vs : List Value) (K : Multiset HeapPos)
    (pos : HeapPos) : Prop :=
  pos ∈ K ∨ ∃ v ts G, store.Reps [v] ts G ∧ pos ∈ G ∧
    (v ∈ vs ∨ ∃ i, store.stack[i]? = some v ∧ ∀ slot ∈ positions, store.abs_pos slot ≠ i)

variable {vs : List Value} {K : Multiset HeapPos} {positions : List StackPos}

theorem exists_slots (h : ∀ pos ∈ positions, store.abs_pos pos < store.stack.length) :
    ∃ olds, store.Slots positions olds := by
  induction positions with
  | nil => exact ⟨[], .nil⟩
  | cons pos positions ih =>
    obtain ⟨olds, hs⟩ := ih fun p hp => h p (List.mem_cons_of_mem _ hp)
    exact ⟨_, .cons (List.getElem?_eq_getElem (h pos List.mem_cons_self)) hs⟩

-- The regions that are elsewhere are accounted for apart from those of the variables.
theorem Owns.elsewhere {olds : List Value} (h : store.Owns (store.stack ++ vs) K) (hn : positions.Nodup)
    (hs : store.Slots positions olds) : ∃ K', store.Owns olds K' ∧
      ∀ pos, store.Elsewhere positions vs K pos → pos ∈ K' := by
  have hplaces : List.Forall₂ (fun i v => store.stack[i]? = some v) (positions.map store.abs_pos) olds :=
    List.forall₂_map_left_iff.mpr hs
  have hn' : (positions.map store.abs_pos).Nodup := hn.map fun _ _ he => Nat.add_left_cancel he
  obtain ⟨others, hperm, hothers⟩ := perm_places hn' hplaces
  have h' : store.Owns ((others ++ vs) ++ olds) K := by
    refine h.perm ((hperm.append_right vs).trans ?_)
    rw [List.append_assoc]
    exact List.perm_append_comm
  obtain ⟨ts, U, hU⟩ := h'.exists_reps
  refine ⟨U + K, h'.keep hU, fun pos hp => ?_⟩
  obtain hp | ⟨v, ts', G, hG, hp, hv⟩ := hp
  · exact Multiset.mem_add.mpr (.inr hp)
  · have hm : v ∈ others ++ vs := by
      obtain hv | ⟨i, hi, hnot⟩ := hv
      · exact List.mem_append_right _ hv
      · refine List.mem_append_left _ (hothers i v hi fun hm => ?_)
        obtain ⟨slot, hslot, he⟩ := List.mem_map.mp hm
        exact hnot slot hslot he
    obtain ⟨t, G', hG', hle⟩ := hU.of_mem hm
    obtain ⟨_, rfl⟩ := hG.unique hG'
    exact Multiset.mem_add.mpr (.inl (Multiset.mem_of_le hle hp))

end Store

-- A value is matched against a pattern; what the variables get are copies on regions of their own, and
-- all but the variables stays as it is. The pattern and the value may be references.
theorem binding_copies_parts {l r : Value} {P F K : Multiset HeapPos} {vs : List Value} {type : ConcreteType}
    (ho : store.Owns (store.stack ++ vs) K) (hl : store.deref lhs = some l) (hr : store.deref rhs = some r)
    (hp : store.Reps [l] [p] P) (ht : store.Reps [r] [t] F) (hpt : HasTypes types true [p] [type])
    (htt : HasTypes types false [t] [type]) (hn : (bindings p).Nodup)
    (hslots : ∀ pos ∈ bindings p, store.abs_pos pos < store.stack.length)
    (hP : ∀ pos ∈ P, store.Elsewhere (bindings p) vs K pos)
    (hF : ∀ pos ∈ F, store.Elsewhere (bindings p) vs K pos) :
    ∃ matched store', apply_binding_operator store lhs rhs = .ok (matched, store') ∧
      (matched = true ↔ ∃ bound, parts p t = some bound) ∧
      (∀ bound, parts p t = some bound → ∃ copies N, store'.Slots (bindings p) copies ∧
        store'.Reps copies bound N ∧ N.Nodup ∧ ∀ pos ∈ F, pos ∉ N) ∧
      store'.Reps [r] [t] F ∧ store'.cur_stack_boundary = store.cur_stack_boundary ∧
      (∀ i, (∀ pos ∈ bindings p, store.abs_pos pos ≠ i) → store'.stack[i]? = store.stack[i]?) ∧
      ∀ pos, store.Elsewhere (bindings p) vs K pos →
        store'.heap_regions[pos]? = store.heap_regions[pos]? := by
  obtain ⟨olds, hs⟩ := Store.exists_slots hslots
  obtain ⟨K', ho', hK⟩ := ho.elsewhere hn hs
  have hd : p.height ≤ store.depth := by
    have hplains : ∀ v ∈ [l], v.is_ref = false :=
      fun v hv => List.mem_singleton.mp hv ▸ (Store.deref_eq_some.mp hl).2
    exact (le_max_left _ _).trans (Nat.le_succ_of_le (Store.Reps.denotes hp hplains ho.plain).heights_le)
  have ho₀ : store.Owns (olds ++ []) K' := by rwa [List.append_nil]
  obtain ⟨matched, store', news, hrun, hre, hm, hbound⟩ := apply_binding_operator_at_binds store.depth hp ht
    (Store.deref_eq_some.mp hl).2 (Store.deref_eq_some.mp hr).2 hpt htt hn hs ho₀ (fun pos h => hK pos (hP pos h))
    (fun pos h => hK pos (hF pos h)) hd
  obtain ⟨ho₁, hk⟩ := hre.owns ho₀
  refine ⟨matched, store', ?_, ?_, ?_, ht.congr fun pos h => hk pos (hK pos (hF pos h)), hre.boundary,
    hre.others, fun pos h => hk pos (hK pos h)⟩
  · rw [apply_binding_operator]
    exact (binding_of_deref hl hr).trans hrun
  · rw [hm, Option.isSome_iff_exists]
  · intro bound hparts
    obtain ⟨N, hN⟩ := hbound bound hparts
    have hnodup := (Multiset.nodup_add.mp (ho₁.keep hN).nodup).2.1
    rw [Multiset.nodup_add] at hnodup
    exact ⟨news, N, hre.slots, hN, hnodup.1,
      fun pos h hm => Multiset.disjoint_left.mp hnodup.2.2 hm (hK pos (hF pos h))⟩

-- A struct with a variable against a variable that holds a struct, where the first variable had a value.
theorem binding_copies_parts_nested :
    let store : Store :=
      { Store.new with
        stack        := [.prevStackBoundary (-1), .array 0, .struct 1]
        heap_regions := [[.char 'x'], [.array 2, .bool true], [.char 'c'], [.binding 0, .bool true]] }
    let p : RegionHeap.Tree Value := .node (.struct 0) [.node (.binding 0) [], .node (.bool true) []]
    let t : RegionHeap.Tree Value :=
      .node (.struct 0) [.node (.array 0) [.node (.char 'c') []], .node (.bool true) []]
    ∃ matched store', apply_binding_operator store (.struct 3) (.ref (.stack 1)) = .ok (matched, store') ∧
      (matched = true ↔ ∃ bound, parts p t = some bound) ∧
      (∀ bound, parts p t = some bound → ∃ copies N, store'.Slots (bindings p) copies ∧
        store'.Reps copies bound N ∧ N.Nodup ∧ ∀ pos ∈ ({1, 2} : Multiset HeapPos), pos ∉ N) ∧
      store'.Reps [.struct 1] [t] {1, 2} ∧ store'.cur_stack_boundary = store.cur_stack_boundary ∧
      (∀ i, (∀ pos ∈ bindings p, store.abs_pos pos ≠ i) → store'.stack[i]? = store.stack[i]?) ∧
      ∀ pos, store.Elsewhere (bindings p) [.struct 3] 0 pos →
        store'.heap_regions[pos]? = store.heap_regions[pos]? := by
  intro store p t
  let types : ConcreteType → Option DataType := fun _ => some (.struct [[.array, .character], [.bool]])
  have hpt : HasTypes types true [p] [[.instance 0 0]] :=
    .node (.struct rfl) (.binding rfl (.node .bool .nil .nil)) .nil
  have htt : HasTypes types false [t] [[.instance 0 0]] :=
    .node (.struct rfl) (.node (Forms.array (n := 1)) (.node .char .nil .nil) (.node .bool .nil .nil)) .nil
  have ho : store.Owns (store.stack ++ [.struct 3]) 0 :=
    ⟨⟨by decide +kernel, by decide +kernel, by decide⟩, by decide⟩
  have leaf (v : Value) {vs ts F} (hv : v.get_heap_pos = none) (h : store.Reps vs ts F) :
      store.Reps (v :: vs) (.node (v.with_heap_pos 0) [] :: ts) F := .leaf hv h
  have node (v : Value) {pos us children G vs ts F} (hv : v.get_heap_pos = some pos)
      (hus : store.heap_regions[pos]? = some us) (hc : store.Reps us children G) (h : store.Reps vs ts F) :
      store.Reps (v :: vs) (.node (v.with_heap_pos 0) children :: ts) (pos ::ₘ (G + F)) := .node hv hus hc h
  have hp : store.Reps [.struct 3] [p] {3} :=
    node (.struct 3) rfl rfl (leaf (.binding 0) rfl (leaf (.bool true) rfl .nil)) .nil
  have ht : store.Reps [.struct 1] [t] {1, 2} :=
    node (.struct 1) rfl rfl (node (.array 2) rfl rfl (leaf (.char 'c') rfl .nil) (leaf (.bool true) rfl .nil)) .nil
  have hslots : ∀ pos ∈ bindings p, store.abs_pos pos < store.stack.length := by decide
  have hP : ∀ pos ∈ ({3} : Multiset HeapPos), store.Elsewhere (bindings p) [.struct 3] 0 pos :=
    fun pos h => .inr ⟨.struct 3, [p], {3}, hp, h, .inl (by simp)⟩
  have hF : ∀ pos ∈ ({1, 2} : Multiset HeapPos), store.Elsewhere (bindings p) [.struct 3] 0 pos :=
    fun pos h => .inr ⟨.struct 1, [t], {1, 2}, ht, h, .inr ⟨2, rfl, by decide⟩⟩
  exact binding_copies_parts ho rfl rfl hp ht hpt htt (by decide) hslots hP hF

end Reowolf
