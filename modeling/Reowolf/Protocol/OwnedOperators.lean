import Reowolf.Protocol.Evaluation
import Reowolf.Protocol.Ownership

namespace Reowolf

-- What a reference refers to is not kept for others.
def ValueId.Outside (K : Multiset HeapPos) : ValueId → Prop
  | .stack _    => True
  | .heap pos _ => pos ∉ K

def Value.Outside (K : Multiset HeapPos) : Value → Prop
  | .ref id => id.Outside K
  | _       => True

theorem Value.outside_of_plain {K : Multiset HeapPos} {v : Value} (h : v.is_ref = false) : v.Outside K := by
  cases v <;> trivial

-- The slots of a frame above the rest of the stack, and values at hand, own what they own alone, and all
-- else that is kept is as it was.
structure Store.Holds (store : Store) (base slots vs : List Value) (K : Multiset HeapPos)
    (kept : List HeapAllocation) : Prop where
  stack    : store.stack = base ++ slots
  boundary : base.length = store.cur_stack_boundary + 1
  plain    : ∀ v ∈ slots, v.is_ref = false
  outside  : ∀ v ∈ vs, v.Outside K
  kept     : ∀ pos ∈ K, store.heap_regions[pos]? = kept[pos]?
  owns     : store.Owns (slots ++ vs) K

namespace Store.Holds

variable {store store' : Store} {base slots vs ws us : List Value} {K : Multiset HeapPos}
variable {kept : List HeapAllocation} {v v' w old : Value} {id : ValueId} {pos source : HeapPos} {idx : Nat}

theorem perm (h : store.Holds base slots vs K kept) (hp : vs.Perm ws) :
    store.Holds base slots ws K kept :=
  { h with
    outside := fun v hv => h.outside v (hp.mem_iff.mpr hv)
    owns    := h.owns.perm (hp.append_left slots) }

theorem of_owns (h : store.Holds base slots vs K kept) (ho : store'.Owns (slots ++ ws) K)
    (hk : store.Keeps store' K) (hw : ∀ w ∈ ws, w.Outside K) : store'.Holds base slots ws K kept where
  stack         := hk.stack.trans h.stack
  boundary      := h.boundary.trans (congrArg (· + 1) hk.boundary.symm)
  plain         := h.plain
  outside       := hw
  kept pos hp   := (hk.regions pos hp).trans (h.kept pos hp)
  owns          := ho

-- One value more.
theorem push (h : store.Holds base slots vs K kept) (ho : store'.Owns (v :: (slots ++ vs)) K)
    (hk : store.Keeps store' K) (hv : v.Outside K) : store'.Holds base slots (v :: vs) K kept := by
  refine h.of_owns (ho.perm List.perm_middle.symm) hk fun w hw => ?_
  cases List.mem_cons.mp hw with
  | inl he => exact he ▸ hv
  | inr hw => exact h.outside w hw

theorem owns_cons (h : store.Holds base slots (v :: vs) K kept) : store.Owns (v :: (slots ++ vs)) K :=
  h.owns.perm List.perm_middle

theorem forget (h : store.Holds base slots (v :: vs) K kept) : store.Holds base slots vs K kept :=
  { h with
    outside := fun w hw => h.outside w (List.mem_cons_of_mem _ hw)
    owns    := h.owns_cons.forget }

-- A value that owns nothing.
theorem add (h : store.Holds base slots vs K kept) (hv : v.get_heap_pos = none) (hout : v.Outside K) :
    store.Holds base slots (v :: vs) K kept :=
  h.push (h.owns.of_none hv) .refl hout

-- Another value on the same region.
theorem recast (h : store.Holds base slots (v :: vs) K kept) (hp : v'.get_heap_pos = v.get_heap_pos)
    (hout : v'.Outside K) : store.Holds base slots (v' :: vs) K kept := by
  refine h.forget.push ⟨h.owns_cons.toLinear.of_le (le_of_eq ?_) le_rfl h.owns.empty, h.owns.plain⟩ .refl hout
  simp only [RegionHeap.pointers, List.filterMap_cons, hp]

theorem read_stack_slot {i : Nat} (h : store.Holds base slots vs K kept)
    (hr : store.read_ref (.stack i) = .ok w) : slots[i]? = some w := by
  simp only [read_ref, read_stack, abs_pos, h.stack] at hr
  rw [← h.boundary, List.getElem?_append_right (by omega), Nat.add_sub_cancel_left] at hr
  split at hr
  case h_1 hw =>
    cases hr
    exact hw
  case h_2 => cases hr

-- What is referred to is no reference, and owns what it owns alone.
theorem read_ref (h : store.Holds base slots vs K kept) (hid : id.Outside K)
    (hr : store.read_ref id = .ok w) :
    w.is_ref = false ∧ ∀ pos, w.get_heap_pos = some pos → store.InUse K pos := by
  cases id with
  | stack i =>
    have hm : w ∈ slots := List.mem_of_getElem? (h.read_stack_slot hr)
    have hm' : w ∈ slots ++ vs := List.mem_append_left _ hm
    exact ⟨h.plain w hm, fun pos hp => h.owns.in_use hm' hp⟩
  | heap source idx =>
    obtain ⟨us, hus, hw⟩ := read_region_eq_ok.mp hr
    have hm := List.mem_of_getElem? hw
    exact ⟨h.owns.plain_region hus hm, fun pos hp => h.owns.inner_in_use hid hus hm hp⟩

theorem read (h : store.Holds base slots vs K kept) (hv : v ∈ vs) (hr : store.maybe_read_ref v = .ok w) :
    w.is_ref = false ∧ ∀ pos, w.get_heap_pos = some pos → store.InUse K pos := by
  by_cases href : v.is_ref
  case pos =>
    cases v with
    | ref id => exact h.read_ref (h.outside _ hv) hr
    | _      => cases href
  case neg =>
    have he : w = v := by
      cases v <;> first | (cases hr; rfl) | exact absurd rfl href
    subst he
    have hm : w ∈ slots ++ vs := List.mem_append_right _ hv
    exact ⟨by simpa using href, fun pos hp => h.owns.in_use hm hp⟩

theorem clone_value_at {depth : Nat} (h : store.Holds base slots vs K kept) (hp : w.is_ref = false)
    (hc : clone_value_at depth store w = .ok (v', store')) :
    store'.Holds base slots (v' :: vs) K kept ∧ v'.is_ref = false ∧
      store'.free_regions ⊆ store.free_regions := by
  obtain ⟨ho, hk, hp', hf⟩ := clone_value_at_clones_owned depth h.owns hp hc
  exact ⟨h.push ho hk (Value.outside_of_plain hp'), hp', hf⟩

theorem clone_value (h : store.Holds base slots vs K kept) (hp : w.is_ref = false)
    (hc : store.clone_value w = .ok (v', store')) :
    store'.Holds base slots (v' :: vs) K kept ∧ v'.is_ref = false ∧
      store'.free_regions ⊆ store.free_regions :=
  h.clone_value_at hp hc

theorem clone_ref (h : store.Holds base slots vs K kept) (hid : id.Outside K)
    (hc : store.clone_value (.ref id) = .ok (v', store')) :
    store'.Holds base slots (v' :: vs) K kept ∧ v'.is_ref = false := by
  obtain ⟨w, depth, hr, hc⟩ := clone_value_eq_ok hc
  obtain ⟨hp, _⟩ := h.read_ref hid hr
  obtain ⟨h', hp', _⟩ := h.clone_value_at hp hc
  exact ⟨h', hp'⟩

theorem read_take_ownership (h : store.Holds base slots (v :: vs) K kept)
    (hr : store.read_take_ownership v = .ok (v', store')) :
    store'.Holds base slots (v' :: vs) K kept ∧ v'.is_ref = false := by
  by_cases href : v.is_ref
  case pos =>
    cases v with
    | ref id =>
      have hid : id.Outside K := h.outside _ List.mem_cons_self
      obtain ⟨w, hw, hc⟩ := Except.bind_eq_ok.mp hr
      obtain ⟨h', hp', _⟩ := h.forget.clone_value (h.read_ref hid hw).1 hc
      exact ⟨h', hp'⟩
    | _ => cases href
  case neg =>
    have he : v' = v ∧ store' = store := by
      cases v <;> first | (cases hr; exact ⟨rfl, rfl⟩) | exact absurd rfl href
    obtain ⟨rfl, rfl⟩ := he
    exact ⟨h, by simpa using href⟩

theorem drop_value (h : store.Holds base slots (v :: vs) K kept)
    (hd : store.drop_value v.get_heap_pos = .ok store') : store'.Holds base slots vs K kept := by
  obtain ⟨ho, hk, _⟩ := drop_value_owned h.owns_cons hd
  exact h.forget.of_owns ho hk h.forget.outside

-- A value is put in a slot, and the value there is at hand.
theorem set_slot {i : Nat} (h : store.Holds base slots (w :: vs) K kept) (hw : w.is_ref = false)
    (ho : slots[i]? = some old) :
    { store with stack := store.stack.set (store.abs_pos i) w }.Holds base (slots.set i w) (old :: vs)
      K kept := by
  obtain ⟨hi, hold⟩ := List.getElem?_eq_some_iff.mp ho
  have hperm : (slots ++ w :: vs).Perm (slots.set i w ++ old :: vs) := by
    have hset : (old :: slots.set i w).Perm (w :: slots) := RegionHeap.set_perm ho
    exact List.perm_middle.trans ((hset.symm.append_right vs).trans List.perm_middle.symm)
  constructor
  case stack =>
    have habs : store.abs_pos i = base.length + i := by rw [h.boundary]; rfl
    simp only [habs, h.stack]
    rw [List.set_append_right _ _ (by omega), Nat.add_sub_cancel_left]
  case boundary => exact h.boundary
  case plain =>
    intro v hv
    cases List.mem_or_eq_of_mem_set hv with
    | inl hv => exact h.plain v hv
    | inr he => exact he ▸ hw
  case outside =>
    intro v hv
    cases List.mem_cons.mp hv with
    | inl he => exact Value.outside_of_plain (he ▸ h.plain old (List.mem_of_getElem? ho))
    | inr hv => exact h.outside v (List.mem_cons_of_mem _ hv)
  case kept => exact h.kept
  case owns => exact ⟨(h.owns.perm hperm).toLinear, h.owns.plain⟩

-- A value is put in the place that is referred to, and the value there is at hand.
theorem overwrite (h : store.Holds base slots (w :: vs) K kept) (hw : w.is_ref = false)
    (hid : id.Outside K) (ho : store.read_ref id = .ok old) :
    ∃ slots', (store.overwrite w id).Holds base slots' (old :: vs) K kept := by
  cases id with
  | stack i => exact ⟨slots.set i w, h.set_slot hw (h.read_stack_slot ho)⟩
  | heap pos idx =>
    obtain ⟨us, hus, hold⟩ := read_region_eq_ok.mp ho
    have hover : store.overwrite w (.heap pos idx) = store.set_region pos (us.set idx w) := by
      simp only [Store.overwrite, set_region]
      congr 1
      refine List.ext_getElem? fun p => ?_
      rw [List.getElem?_modify, List.getElem?_set]
      grind
    have hnot : pos ∉ store.free_regions := by
      intro hf
      cases hus.symm.trans (h.owns.empty pos hf)
      cases hold
    have hws : ∀ u ∈ us.set idx w, u.is_ref = false := by
      intro u hu
      cases List.mem_or_eq_of_mem_set hu with
      | inl hu => exact h.owns.plain_region hus hu
      | inr he => exact he ▸ hw
    have hperm : (us.set idx w ++ old :: (slots ++ vs)).Perm (us ++ w :: (slots ++ vs)) :=
      List.perm_middle.trans (((RegionHeap.set_perm hold).append_right _).trans List.perm_middle.symm)
    obtain ⟨ho', hk⟩ := h.owns_cons.exchange hid hnot hus hws hperm
    have hout : old.Outside K :=
      Value.outside_of_plain (h.owns.plain_region hus (List.mem_of_getElem? hold))
    exact ⟨slots, hover ▸ h.forget.push ho' hk hout⟩

-- The value in a slot is dropped and another one written over it.
theorem write_slot {i : Nat} (h : store.Holds base slots (w :: vs) K kept) (hw : w.is_ref = false)
    (hwr : store.write (.stack i) w = .ok store') : ∃ slots', store'.Holds base slots' vs K kept := by
  simp only [Store.write, Except.bind_eq_ok] at hwr
  obtain ⟨old, ho, store₁, hd, he⟩ := hwr
  cases he
  have hslot := h.read_stack_slot ho
  have hset := h.set_slot hw hslot
  -- The old value is dropped while it is still in the slot, which is no matter for the owners.
  have ho₀ : store.Owns (old :: (slots.set i w ++ vs)) K := ⟨hset.owns_cons.toLinear, h.owns.plain⟩
  obtain ⟨ho', hk, _⟩ := drop_value_owned ho₀ hd
  refine ⟨slots.set i w, ?_, ?_, hset.plain, h.forget.outside, ?_, ?_⟩
  · rw [← hset.stack, Store.overwrite, abs_pos, abs_pos, hk.stack, hk.boundary]
  · exact h.boundary.trans (congrArg (· + 1) hk.boundary.symm)
  · exact fun pos hp => (hk.regions pos hp).trans (h.kept pos hp)
  · exact ⟨ho'.toLinear, ho'.plain⟩

-- Slots are cleared from the given one on.
theorem clear_slots {done rest : List Value} (h : store.Holds base (done ++ rest) vs K kept)
    (hc : store.clear_slots (List.range' (base.length + done.length) rest.length) = .ok store') :
    store'.Holds base (done ++ List.replicate rest.length .unassigned) vs K kept ∧
      (∀ v ∈ rest, ∀ pos, v.get_heap_pos = some pos → pos ∈ store'.free_regions) ∧
      store.free_regions ⊆ store'.free_regions := by
  induction rest generalizing done store with
  | nil =>
    cases hc
    exact ⟨h, by simp, List.Subset.refl _⟩
  | cons u rest ih =>
    simp only [List.length_cons, List.range'_succ, Store.clear_slots, Except.bind_eq_ok] at hc
    obtain ⟨value, hread, store₁, hdrop, hc⟩ := hc
    have hu : u = value := by
      simp only [read_stack, h.stack] at hread
      rw [List.getElem?_append_right (by omega), Nat.add_sub_cancel_left] at hread
      simpa using hread
    subst hu
    have hperm : (done ++ u :: rest ++ vs).Perm (u :: (done ++ rest ++ vs)) :=
      List.perm_middle.append_right vs
    obtain ⟨ho, hk, hfree, hf⟩ := drop_value_owned (h.owns.perm hperm) hdrop
    let store₂ := { store₁ with stack := store₁.stack.set (base.length + done.length) .unassigned }
    have h₂ : store₂.Holds base ((done ++ [.unassigned]) ++ rest) vs K kept := by
      constructor
      case stack =>
        simp only [store₂, hk.stack, h.stack]
        rw [List.set_append_right _ _ (by omega), Nat.add_sub_cancel_left,
          List.set_append_right _ _ (Nat.le_refl _), Nat.sub_self, List.set_cons_zero, List.append_assoc]
        rfl
      case boundary => exact h.boundary.trans (congrArg (· + 1) hk.boundary.symm)
      case plain =>
        intro v hv
        simp only [List.mem_append, List.mem_singleton] at hv
        obtain (hv | rfl) | hv := hv
        · exact h.plain v (List.mem_append_left _ hv)
        · rfl
        · exact h.plain v (List.mem_append_right _ (List.mem_cons_of_mem _ hv))
      case outside => exact h.outside
      case kept => exact fun pos hp => (hk.regions pos hp).trans (h.kept pos hp)
      case owns =>
        have hperm' : (.unassigned :: (done ++ rest ++ vs)).Perm (done ++ [.unassigned] ++ rest ++ vs) := by
          simpa using List.perm_middle.symm
        have ho' := (ho.of_none (rfl : Value.unassigned.get_heap_pos = none)).perm hperm'
        exact ⟨ho'.toLinear, ho'.plain⟩
    have hlen : base.length + done.length + 1 = base.length + (done ++ [Value.unassigned]).length := by
      rw [List.length_append, List.length_singleton, Nat.add_assoc]
    rw [hlen] at hc
    obtain ⟨h', hfree', hf'⟩ := ih h₂ hc
    refine ⟨?_, fun v hv pos hp => ?_, fun _ hp => hf' (hf hp)⟩
    · simpa [List.replicate_succ] using h'
    · cases List.mem_cons.mp hv with
      | inl he => exact hf' (hfree pos (he ▸ hp))
      | inr hv => exact hfree' v hv pos hp

-- What is above a slot is cleared.
theorem clear_stack {i : Nat} (h : store.Holds base slots vs K kept)
    (hc : store.clear_stack i = .ok store') :
    store'.Holds base (slots.take i ++ List.replicate (slots.drop i).length .unassigned) vs K kept ∧
      (∀ v ∈ slots.drop i, ∀ pos, v.get_heap_pos = some pos → pos ∈ store'.free_regions) ∧
      store.free_regions ⊆ store'.free_regions := by
  by_cases hi : i ≤ slots.length
  case neg =>
    have hlen : store.stack.length - (store.cur_stack_boundary + i + 1) = 0 := by
      rw [h.stack, List.length_append, h.boundary]
      omega
    simp only [Store.clear_stack, hlen] at hc
    cases hc
    have htake : slots.take i = slots := List.take_of_length_le (by omega)
    have hdrop : slots.drop i = [] := List.drop_of_length_le (by omega)
    rw [htake, hdrop]
    exact ⟨by simpa using h, by simp, List.Subset.refl _⟩
  case pos =>
    have hsize : store.cur_stack_boundary + i + 1 = base.length + (slots.take i).length := by
      rw [h.boundary, List.length_take_of_le hi]
      omega
    have hlen : store.stack.length - (base.length + (slots.take i).length) = (slots.drop i).length := by
      rw [h.stack, List.length_append, List.length_take_of_le hi, List.length_drop]
      omega
    simp only [Store.clear_stack, hsize, hlen] at hc
    exact clear_slots (by rwa [List.take_append_drop]) hc

theorem clone_onto {idxs : List Nat} {total total' : List Value}
    (h : store.Holds base slots (total ++ vs) K kept) (ht : ∀ v ∈ total, v.is_ref = false)
    (hc : Reowolf.clone_onto source idxs total store = .ok (total', store')) :
    store'.Holds base slots (total' ++ vs) K kept ∧ (∀ v ∈ total', v.is_ref = false) ∧
      store'.free_regions ⊆ store.free_regions := by
  induction idxs generalizing total store with
  | nil =>
    cases hc
    exact ⟨h, ht, List.Subset.refl _⟩
  | cons idx idxs ih =>
    simp only [Reowolf.clone_onto, Except.bind_eq_ok] at hc
    obtain ⟨value, hread, ⟨cloned, store₁⟩, hclone, hc⟩ := hc
    obtain ⟨us, hus, hvalue⟩ := read_region_eq_ok.mp hread
    obtain ⟨h₁, hp, hf₁⟩ := h.clone_value (h.owns.plain_region hus (List.mem_of_getElem? hvalue)) hclone
    have hperm : (cloned :: (total ++ vs)).Perm (total ++ [cloned] ++ vs) := by
      simpa using List.perm_middle.symm
    have ht₁ : ∀ v ∈ total ++ [cloned], v.is_ref = false := by
      intro v hv
      cases List.mem_append.mp hv with
      | inl hv => exact ht v hv
      | inr hv => exact List.mem_singleton.mp hv ▸ hp
    obtain ⟨h', hp', hf'⟩ := ih (h₁.perm hperm) ht₁ hc
    exact ⟨h', hp', fun _ hp => hf₁ (hf' hp)⟩

theorem take_ownership {values owned : List Value} (h : store.Holds base slots (values ++ vs) K kept)
    (ht : Reowolf.take_ownership values store = .ok (owned, store')) :
    store'.Holds base slots (owned ++ vs) K kept ∧ ∀ v ∈ owned, v.is_ref = false := by
  induction values generalizing owned store vs with
  | nil =>
    cases ht
    exact ⟨h, by simp⟩
  | cons v values ih =>
    simp only [Reowolf.take_ownership, Except.bind_eq_ok] at ht
    obtain ⟨⟨v', store₁⟩, hr, ⟨owned', store₂⟩, ht', he⟩ := ht
    cases he
    obtain ⟨h₁, hp⟩ := read_take_ownership h hr
    obtain ⟨h₂, hps⟩ := ih (h₁.perm List.perm_middle.symm) ht'
    refine ⟨h₂.perm List.perm_middle, fun u hu => ?_⟩
    cases List.mem_cons.mp hu with
    | inl he => exact he ▸ hp
    | inr hu => exact hps u hu

-- A region of a value at hand takes values from there.
theorem set_region (h : store.Holds base slots (ws ++ v :: vs) K kept) (hv : v.get_heap_pos = some pos)
    (hus : store.heap_regions[pos]? = some us) (hw : ∀ w ∈ ws, w.is_ref = false) :
    (store.set_region pos (us ++ ws)).Holds base slots (v :: vs) K kept := by
  have hm : v ∈ slots ++ (ws ++ v :: vs) := by simp
  have hws : ∀ u ∈ us ++ ws, u.is_ref = false := by
    intro u hu
    cases List.mem_append.mp hu with
    | inl hu => exact h.owns.plain_region hus hu
    | inr hu => exact hw u hu
  have hperm : (us ++ ws ++ (slots ++ v :: vs)).Perm (us ++ (slots ++ (ws ++ v :: vs))) := by
    rw [List.append_assoc]
    refine List.Perm.append_left us ?_
    rw [← List.append_assoc, ← List.append_assoc]
    exact List.perm_append_comm.append_right _
  obtain ⟨ho, hk⟩ := h.owns.exchange (h.owns.in_use hm hv).not_kept (h.owns.in_use hm hv).not_free hus hws hperm
  exact h.of_owns ho hk fun w hw => h.outside w (List.mem_append_right _ hw)

theorem alloc_heap (h : store.Holds base slots vs K kept) (ha : store.alloc_heap = (pos, store'))
    (hv : v.get_heap_pos = some pos) :
    store'.Holds base slots (v :: vs) K kept ∧ store'.heap_regions[pos]? = some [] ∧
      store'.free_regions ⊆ store.free_regions := by
  obtain ⟨ho, hus, hk, hf⟩ := h.owns.alloc_heap ha hv
  exact ⟨h.push ho (h.owns.keeps_lt hk) (Value.outside_of_plain (Value.is_ref_of_heap_pos hv)), hus, hf⟩

theorem forget_all (h : store.Holds base slots (ws ++ vs) K kept) : store.Holds base slots vs K kept := by
  induction ws with
  | nil          => exact h
  | cons w ws ih => exact ih h.forget

-- A region gets other values, from those at hand.
theorem put (h : store.Holds base slots (ws ++ vs) K kept) (hp : pos ∉ K) (hf : pos ∉ store.free_regions)
    (hw : ∀ w ∈ ws, w.is_ref = false) : (store.set_region pos ws).Holds base slots vs K kept := by
  by_cases hlt : pos < store.heap_regions.length
  case neg =>
    have hset : store.set_region pos ws = store := by
      simp only [Store.set_region, List.set_eq_of_length_le (Nat.le_of_not_lt hlt)]
    rw [hset]
    exact h.forget_all
  case pos =>
    have hus : store.heap_regions[pos]? = some store.heap_regions[pos] := List.getElem?_eq_getElem hlt
    generalize store.heap_regions[pos] = us at hus
    have hperm : (ws ++ (us ++ (slots ++ vs))).Perm (us ++ (slots ++ (ws ++ vs))) := by
      refine (List.perm_append_comm_assoc ws us _).trans (List.Perm.append_left us ?_)
      exact List.perm_append_comm_assoc ws slots vs
    obtain ⟨ho, hk⟩ := h.owns.exchange hp hf hus hw hperm
    exact h.forget_all.of_owns ho.forget_all hk h.forget_all.outside

-- A region at hand gets values that own nothing.
theorem set_leaves (h : store.Holds base slots (v :: vs) K kept) (hv : v.get_heap_pos = some pos)
    (hw : ∀ w ∈ ws, w.get_heap_pos = none ∧ w.is_ref = false) :
    (store.set_region pos ws).Holds base slots (v :: vs) K kept := by
  have hall {us : List Value} (hu : ∀ w ∈ us, w.get_heap_pos = none ∧ w.is_ref = false) :
      store.Holds base slots (us ++ v :: vs) K kept := by
    induction us with
    | nil => exact h
    | cons u us ih =>
      obtain ⟨hnone, hp⟩ := hu u List.mem_cons_self
      exact (ih fun w hw => hu w (List.mem_cons_of_mem _ hw)).add hnone (Value.outside_of_plain hp)
  have hm : v ∈ slots ++ v :: vs := by simp
  exact (hall hw).put (h.owns.in_use hm hv).not_kept (h.owns.in_use hm hv).not_free fun w hm => (hw w hm).2

theorem region_value {values : List Value} (h : store.Holds base slots (values ++ vs) K kept)
    (hr : Reowolf.region_value values store = .ok (pos, store')) (hv : v.get_heap_pos = some pos) :
    store'.Holds base slots (v :: vs) K kept := by
  generalize ha : store.alloc_heap = allocated at hr
  obtain ⟨pos', store₁⟩ := allocated
  simp only [Reowolf.region_value, ha, Except.bind_eq_ok, region_eq_ok] at hr
  obtain ⟨⟨owned, store₂⟩, ht, region, hregion, he⟩ := hr
  cases he
  obtain ⟨h₁, _, _⟩ := h.alloc_heap ha hv
  obtain ⟨h₂, hp⟩ := take_ownership (h₁.perm List.perm_middle.symm) ht
  exact h₂.set_region hv hregion hp

-- What `=` writes is the value on the right, and what it drops is the value on the left, if anything.
theorem assign_set_eq_ok {lhs rhs value : Value} {to_dealloc : Option HeapPos}
    (hp : rhs.is_ref = false) (h : assign_set lhs rhs = .ok (value, to_dealloc)) :
    value.get_heap_pos = rhs.get_heap_pos ∧ value.is_ref = false ∧
      (to_dealloc = none ∨ to_dealloc = lhs.get_heap_pos) := by
  cases lhs with
  | unassigned =>
    cases h
    exact ⟨rfl, hp, .inl rfl⟩
  | prevStackBoundary | ref | binding | null => cases h
  | integer type value =>
    obtain ⟨v, hv, he⟩ := Except.bind_eq_ok.mp h
    cases he
    cases rhs with
    | integer => exact ⟨rfl, rfl, .inl rfl⟩
    | _ => cases hv
  | union tag pos =>
    obtain ⟨v, hv, he⟩ := Except.bind_eq_ok.mp h
    cases he
    cases rhs <;> cases hv
    exact ⟨rfl, rfl, .inr rfl⟩
  | input | output | bool | char | string | enum =>
    obtain ⟨v, hv, he⟩ := Except.bind_eq_ok.mp h
    cases he
    cases rhs <;> cases hv
    exact ⟨rfl, rfl, .inl rfl⟩
  | message | array | struct =>
    obtain ⟨v, hv, he⟩ := Except.bind_eq_ok.mp h
    cases he
    cases rhs <;> cases hv
    exact ⟨rfl, rfl, .inr rfl⟩

theorem int_op_leaf {build : Build} {op : IntOp} {lhs rhs value : Value}
    (h : apply_int_op_and_return_self build op lhs rhs = .ok value) :
    value.get_heap_pos = none ∧ value.is_ref = false := by
  cases lhs with
  | integer type lhs =>
    simp only [apply_int_op_and_return_self, Except.bind_eq_ok] at h
    obtain ⟨_, _, _, _, he⟩ := h
    cases he
    exact ⟨rfl, rfl⟩
  | _ => cases h

theorem unwrap_heap_pos_eq_ok (h : unwrap_heap_pos v = .ok pos) : v.get_heap_pos = some pos := by
  unfold unwrap_heap_pos at h
  split at h
  case h_1 hp =>
    cases h
    exact hp
  case h_2 => cases h

theorem assign_concatenated {lhs rhs : Value} (h : store.Holds base slots (rhs :: vs) K kept)
    (hid : id.Outside K) (hl : store.read_ref id = .ok lhs)
    (ha : Reowolf.assign_concatenated store lhs rhs = .ok store') :
    store'.Holds base slots vs K kept := by
  simp only [Reowolf.assign_concatenated, Except.bind_eq_ok, region_eq_ok] at ha
  obtain ⟨lhs_pos, hlpos, rhs_pos, hrpos, total, htotal, rhs_values, _, ⟨total', store₁⟩, hc, hd⟩ := ha
  have hlp := unwrap_heap_pos_eq_ok hlpos
  have hrp := unwrap_heap_pos_eq_ok hrpos
  obtain ⟨_, hlhs⟩ := h.read_ref hid hl
  obtain ⟨_, hnot, hfree⟩ := hlhs lhs_pos hlp
  -- The values of the left region are at hand while it is extended.
  have hperm₁ : ([] ++ (slots ++ (total ++ rhs :: vs))).Perm (total ++ (slots ++ rhs :: vs)) := by
    rw [List.nil_append, ← List.append_assoc, ← List.append_assoc]
    exact List.perm_append_comm.append_right _
  have hplain : ∀ v ∈ total, v.is_ref = false := fun v hv => h.owns.plain_region htotal hv
  obtain ⟨ho₁, hk₁⟩ := h.owns.exchange hnot hfree htotal (by simp) hperm₁
  have h₁ : (store.set_region lhs_pos []).Holds base slots (total ++ rhs :: vs) K kept := by
    refine h.of_owns ho₁ hk₁ fun v hv => ?_
    cases List.mem_append.mp hv with
    | inl hv => exact Value.outside_of_plain (hplain v hv)
    | inr hv => exact h.outside v hv
  obtain ⟨h₂, hp₂, hf₂⟩ := h₁.clone_onto hplain hc
  have h₃ := h₂.put hnot (fun hf => hfree (hf₂ hf)) hp₂
  exact h₃.drop_value (by rwa [hrp])

theorem assign {env : EvalEnv} {op : AssignmentOperator} {to_value rhs : Value}
    (h : store.Holds base slots (rhs :: to_value :: vs) K kept)
    (ha : Reowolf.assign env op to_value rhs store = .ok store') :
    ∃ slots', store'.Holds base slots' vs K kept := by
  simp only [Reowolf.assign, Except.bind_eq_ok] at ha
  obtain ⟨to_id, hto, ⟨rhs', store₁⟩, hown, ha⟩ := ha
  have hid : to_id.Outside K := by
    cases to_value with
    | ref id =>
      cases hto
      exact h.outside (.ref to_id) (by simp)
    | _ => cases hto
  obtain ⟨h₁, hp⟩ := h.read_take_ownership hown
  have h₁ : store₁.Holds base slots (rhs' :: vs) K kept := (h₁.perm (.swap _ _ _)).forget
  simp only [apply_assignment_operator, Except.bind_eq_ok] at ha
  obtain ⟨lhs, hlhs, ha⟩ := ha
  split at ha
  case h_1 =>
    obtain ⟨⟨value, to_dealloc⟩, hset, hd⟩ := Except.bind_eq_ok.mp ha
    obtain ⟨hpos, hpv, hdealloc⟩ := assign_set_eq_ok hp hset
    obtain ⟨slots', h₂⟩ := (h₁.recast hpos (Value.outside_of_plain hpv)).overwrite hpv hid hlhs
    refine ⟨slots', ?_⟩
    cases hdealloc with
    | inl he =>
      subst he
      cases hd
      exact h₂.forget
    | inr he =>
      subst he
      exact h₂.drop_value hd
  case h_2 => exact ⟨slots, h₁.assign_concatenated hid hlhs ha⟩
  case h_3 =>
    split at ha
    case h_1 =>
      obtain ⟨value, hv, he⟩ := Except.bind_eq_ok.mp ha
      cases he
      obtain ⟨hnone, hpv⟩ := int_op_leaf hv
      have h₂ := h₁.forget.add hnone (Value.outside_of_plain hpv)
      obtain ⟨slots', h₃⟩ := h₂.overwrite hpv hid hlhs
      exact ⟨slots', h₃.forget⟩
    case h_2 => cases ha

-- What is required of a way to bind a value: it may only write to slots.
def Binds (bind : Store → Value → Value → Except Fault (Bool × Store)) : Prop :=
  ∀ {store store' base slots vs K kept lhs rhs result}, Store.Holds store base slots vs K kept →
    (lhs.is_ref → lhs.Outside K) → (rhs.is_ref → rhs.Outside K) →
    bind store lhs rhs = .ok (result, store') → ∃ slots', Store.Holds store' base slots' vs K kept

theorem Binds.elements {bind : Store → Value → Value → Except Fault (Bool × Store)} (hb : Binds bind)
    {lhs_pos rhs_pos : HeapPos} {idxs : List Nat} {result : Bool}
    (h : store.Holds base slots vs K kept)
    (he : bind_elements bind lhs_pos rhs_pos idxs store = .ok (result, store')) :
    ∃ slots', store'.Holds base slots' vs K kept := by
  induction idxs generalizing store slots with
  | nil =>
    cases he
    exact ⟨slots, h⟩
  | cons idx idxs ih =>
    simp only [bind_elements, Except.bind_eq_ok] at he
    obtain ⟨lhs, hlhs, rhs, hrhs, ⟨matched, store₁⟩, hbind, he⟩ := he
    obtain ⟨us, hus, hlm⟩ := read_region_eq_ok.mp hlhs
    obtain ⟨us', hus', hrm⟩ := read_region_eq_ok.mp hrhs
    have hl := h.owns.plain_region hus (List.mem_of_getElem? hlm)
    have hr := h.owns.plain_region hus' (List.mem_of_getElem? hrm)
    obtain ⟨slots₁, h₁⟩ := hb h (fun _ => Value.outside_of_plain hl) (fun _ => Value.outside_of_plain hr) hbind
    split at he
    case isTrue => exact ih h₁ he
    case isFalse =>
      cases he
      exact ⟨slots₁, h₁⟩

theorem Binds.heap {bind : Store → Value → Value → Except Fault (Bool × Store)} (hb : Binds bind)
    {lhs_pos rhs_pos : HeapPos} {result : Bool} (h : store.Holds base slots vs K kept)
    (he : bind_heap bind store lhs_pos rhs_pos = .ok (result, store')) :
    ∃ slots', store'.Holds base slots' vs K kept := by
  simp only [bind_heap, Except.bind_eq_ok] at he
  obtain ⟨_, _, _, _, he⟩ := he
  split at he
  case isTrue =>
    cases he
    exact ⟨slots, h⟩
  case isFalse => exact hb.elements h he

theorem read_or_plain (h : store.Holds base slots vs K kept) (hv : v.is_ref → v.Outside K)
    (hr : store.maybe_read_ref v = .ok w) : w.is_ref = false := by
  cases v with
  | ref id => exact (h.read_ref (hv rfl) hr).1
  | _ =>
    cases hr
    rfl

theorem apply_binding_operator_at (depth : Nat) : Binds (Reowolf.apply_binding_operator_at depth) := by
  induction depth with
  | zero =>
    intro store store' base slots vs K kept lhs rhs result _ _ _ he
    cases he
  | succ depth ih =>
    intro store store' base slots vs K kept lhs rhs result h hl hr he
    simp only [Reowolf.apply_binding_operator_at, Except.bind_eq_ok] at he
    obtain ⟨lhs', hlhs, rhs', hrhs, he⟩ := he
    have hrp := h.read_or_plain hr hrhs
    cases lhs' with
    | binding var_pos =>
      simp only [Except.bind_eq_ok] at he
      obtain ⟨⟨to_write, store₁⟩, hclone, store₂, hwrite, he⟩ := he
      cases he
      obtain ⟨h₁, hp, _⟩ := h.clone_value hrp hclone
      exact h₁.write_slot hp hwrite
    | message | string | array | struct =>
      obtain ⟨_, _, he⟩ := Except.bind_eq_ok.mp he
      exact ih.heap h he
    | union tag pos =>
      obtain ⟨⟨rhs_tag, rhs_pos⟩, _, he⟩ := Except.bind_eq_ok.mp he
      simp only at he
      split at he
      case isTrue =>
        cases he
        exact ⟨slots, h⟩
      case isFalse => exact ih.heap h he
    | input | output | bool | char | integer | enum =>
      obtain ⟨_, _, he⟩ := Except.bind_eq_ok.mp he
      cases he
      exact ⟨slots, h⟩
    | unassigned | prevStackBoundary | ref | null => cases he

theorem bind_values {bind_to bind_from result : Value}
    (h : store.Holds base slots (bind_to :: bind_from :: vs) K kept)
    (hb : Reowolf.bind_values bind_to bind_from store = .ok (result, store')) :
    ∃ slots', store'.Holds base slots' (result :: vs) K kept := by
  simp only [Reowolf.bind_values, Except.bind_eq_ok] at hb
  obtain ⟨⟨matched, store₁⟩, hbind, store₂, hd₁, store₃, hd₂, he⟩ := hb
  cases he
  obtain ⟨slots', h₁⟩ := apply_binding_operator_at _ h (fun _ => h.outside _ (by simp))
    (fun _ => h.outside _ (by simp)) hbind
  exact ⟨slots', ((h₁.drop_value hd₁).drop_value hd₂).add rfl trivial⟩

theorem concatenate {lhs rhs result : Value} (h : store.Holds base slots (lhs :: rhs :: vs) K kept)
    (hc : apply_concatenate store lhs rhs = .ok (result, store')) :
    store'.Holds base slots (result :: lhs :: rhs :: vs) K kept := by
  generalize ha : store.alloc_heap = allocated at hc
  obtain ⟨target, store₁⟩ := allocated
  simp only [apply_concatenate, ha, Except.bind_eq_ok, region_eq_ok] at hc
  obtain ⟨lhs', hl, rhs', _, ⟨lhs_pos, rhs_pos⟩, hpos, _, _, _, _, ⟨concatenated, store₂⟩, hc₁,
    ⟨concatenated', store₃⟩, hc₂, he⟩ := hc
  cases he
  have hlpos : lhs'.get_heap_pos = some lhs_pos := by
    cases lhs' with
    | message | string | array =>
      obtain ⟨_, _, he⟩ := Except.bind_eq_ok.mp hpos
      cases he
      rfl
    | _ => cases hpos
  have hv : (lhs'.with_heap_pos target).get_heap_pos = some target := Value.get_heap_pos_with hlpos
  obtain ⟨h₁, _, _⟩ := h.alloc_heap ha hv
  have h₁' : store₁.Holds base slots ([] ++ lhs'.with_heap_pos target :: lhs :: rhs :: vs) K kept := h₁
  obtain ⟨h₂, hp₂, hf₂⟩ := h₁'.clone_onto (by simp) hc₁
  obtain ⟨h₃, hp₃, hf₃⟩ := h₂.clone_onto hp₂ hc₂
  have hm : lhs'.with_heap_pos target ∈ slots ++ (lhs'.with_heap_pos target :: lhs :: rhs :: vs) := by simp
  exact h₃.put (h₁.owns.in_use hm hv).not_kept (fun hf => (h₁.owns.in_use hm hv).not_free (hf₂ (hf₃ hf))) hp₃

theorem bool_op_leaf {op : Int → Int → Bool} {lhs rhs value : Value}
    (h : apply_int_op_and_return_bool op lhs rhs = .ok value) :
    value.get_heap_pos = none ∧ value.is_ref = false := by
  cases lhs with
  | integer =>
    obtain ⟨_, _, he⟩ := Except.bind_eq_ok.mp h
    cases he
    exact ⟨rfl, rfl⟩
  | _ => cases h

-- The operators that leave the store as it is give numbers and truth values.
theorem pure_leaf {build : Build} {lhs rhs value : Value} {op : BinaryOperator}
    (h : apply_pure_binary_operator build store lhs op rhs = .ok value) :
    value.get_heap_pos = none ∧ value.is_ref = false := by
  simp only [apply_pure_binary_operator, Except.bind_eq_ok] at h
  obtain ⟨lhs', _, rhs', _, h⟩ := h
  cases op with
  | concatenate => cases h
  | logicalOr =>
    obtain ⟨_, _, h⟩ := Except.bind_eq_ok.mp h
    split at h
    case isTrue =>
      cases h
      exact ⟨rfl, rfl⟩
    case isFalse =>
      obtain ⟨_, _, h⟩ := Except.bind_eq_ok.mp h
      cases h
      exact ⟨rfl, rfl⟩
  | logicalAnd =>
    obtain ⟨_, _, h⟩ := Except.bind_eq_ok.mp h
    split at h
    case isTrue =>
      obtain ⟨_, _, h⟩ := Except.bind_eq_ok.mp h
      cases h
      exact ⟨rfl, rfl⟩
    case isFalse =>
      cases h
      exact ⟨rfl, rfl⟩
  | bitwiseOr | bitwiseXor | bitwiseAnd | shiftLeft | shiftRight | add | subtract | multiply | divide
  | remainder => exact int_op_leaf h
  | lessThan | greaterThan | lessThanEqual | greaterThanEqual => exact bool_op_leaf h
  | equality | inequality =>
    obtain ⟨_, _, he⟩ := Except.bind_eq_ok.mp h
    cases he
    exact ⟨rfl, rfl⟩

theorem binary_value {env : EvalEnv} {op : BinaryOperator} {lhs rhs result : Value}
    (h : store.Holds base slots (lhs :: rhs :: vs) K kept)
    (hb : Reowolf.binary_value env op lhs rhs store = .ok (result, store')) :
    store'.Holds base slots (result :: vs) K kept := by
  simp only [Reowolf.binary_value, Except.bind_eq_ok] at hb
  obtain ⟨⟨value, store₁⟩, hop, store₂, hd₁, store₃, hd₂, he⟩ := hb
  cases he
  have h₁ : store₁.Holds base slots (lhs :: rhs :: value :: vs) K kept := by
    unfold apply_binary_operator at hop
    split at hop
    case isTrue =>
      have hperm : (value :: lhs :: rhs :: vs).Perm (lhs :: rhs :: value :: vs) :=
        (List.Perm.swap _ _ _).trans ((List.Perm.swap _ _ _).cons lhs)
      exact (h.concatenate hop).perm hperm
    case isFalse =>
      obtain ⟨_, hv, he⟩ := Except.bind_eq_ok.mp hop
      cases he
      obtain ⟨hnone, hp⟩ := pure_leaf hv
      have hperm : (value :: lhs :: rhs :: vs).Perm (lhs :: rhs :: value :: vs) :=
        (List.Perm.swap _ _ _).trans ((List.Perm.swap _ _ _).cons lhs)
      exact (h.add hnone (Value.outside_of_plain hp)).perm hperm
  exact (h₁.drop_value hd₁).drop_value hd₂

-- The operand of an operator on numbers owns nothing.
theorem unary_value {env : EvalEnv} {op : UnaryOperator} {operand result : Value}
    (h : store.Holds base slots (operand :: vs) K kept)
    (ht : op = .positive → ∀ w, store.maybe_read_ref operand = .ok w → w.get_heap_pos = none)
    (hu : Reowolf.unary_value env op operand store = .ok (result, store')) :
    store'.Holds base slots (result :: vs) K kept := by
  simp only [Reowolf.unary_value, Except.bind_eq_ok] at hu
  obtain ⟨result', hop, store₁, hd, he⟩ := hu
  cases he
  have hleaf : result.get_heap_pos = none ∧ result.is_ref = false := by
    simp only [apply_unary_operator, Except.bind_eq_ok] at hop
    obtain ⟨w, hr, hop⟩ := hop
    cases op with
    | positive =>
      cases hop
      exact ⟨ht rfl result hr, (h.read List.mem_cons_self hr).1⟩
    | negative =>
      cases w with
      | integer type v =>
        simp only at hop
        split at hop
        case isTrue =>
          obtain ⟨_, _, he⟩ := Except.bind_eq_ok.mp hop
          cases he
          exact ⟨rfl, rfl⟩
        case isFalse => cases hop
      | _ => cases hop
    | bitwiseNot =>
      cases w with
      | integer =>
        cases hop
        exact ⟨rfl, rfl⟩
      | _ => cases hop
    | logicalNot =>
      obtain ⟨_, _, he⟩ := Except.bind_eq_ok.mp hop
      cases he
      exact ⟨rfl, rfl⟩
  exact (h.drop_value hd).add hleaf.1 (Value.outside_of_plain hleaf.2)

theorem part_value {subject result : Value} (h : store.Holds base slots (subject :: vs) K kept)
    (hs : store.maybe_read_ref subject = .ok w) (hw : w.get_heap_pos = some pos)
    (hp : Reowolf.part_value subject pos idx store = .ok (result, store')) :
    store'.Holds base slots (result :: vs) K kept := by
  obtain ⟨_, hpos⟩ := h.read List.mem_cons_self hs
  have hnot := (hpos pos hw).not_kept
  by_cases href : subject.is_ref
  case pos =>
    cases subject with
    | ref id =>
      cases hp
      exact h.forget.add rfl hnot
    | _ => cases href
  case neg =>
    have he : w = subject := by
      cases subject <;> first | (cases hs; rfl) | exact absurd rfl href
    subst he
    have hp' : (store.clone_value (.ref (.heap pos idx)) >>= fun copy =>
        copy.2.drop_value (some pos) >>= fun store => .ok (copy.1, store)) = .ok (result, store') := by
      cases w <;> first | exact hp | exact absurd rfl href
    simp only [Except.bind_eq_ok] at hp'
    obtain ⟨⟨value, store₁⟩, hc, store₂, hd, he⟩ := hp'
    cases he
    have hid : ValueId.Outside K (.heap pos idx) := hnot
    obtain ⟨h₁, _⟩ := h.clone_ref hid hc
    exact (h₁.perm (.swap _ _ _)).drop_value (by rwa [hw])

theorem array_heap_pos_eq_ok (h : array_heap_pos w = .ok pos) : w.get_heap_pos = some pos := by
  cases w with
  | string | array | message =>
    cases h
    rfl
  | _ => cases h

theorem index_value {subject index result : Value}
    (h : store.Holds base slots (subject :: index :: vs) K kept)
    (hi : Reowolf.index_value subject index store = .ok (result, store')) :
    store'.Holds base slots (result :: vs) K kept := by
  simp only [Reowolf.index_value, Except.bind_eq_ok] at hi
  obtain ⟨_, _, _, _, w, hs, pos, hpos, idx, _, hp⟩ := hi
  have h₁ : store.Holds base slots (subject :: vs) K kept := (h.perm (.swap _ _ _)).forget
  exact h₁.part_value hs (array_heap_pos_eq_ok hpos) hp

theorem select_value {env : EvalEnv} {frame : Frame} {this : ExpressionId} {subject result : Value}
    (h : store.Holds base slots (subject :: vs) K kept)
    (hs : Reowolf.select_value env frame this subject store = .ok (result, store')) :
    store'.Holds base slots (result :: vs) K kept := by
  simp only [Reowolf.select_value, Except.bind_eq_ok] at hs
  obtain ⟨_, _, w, hw, pos, hpos, hp⟩ := hs
  have hwp : w.get_heap_pos = some pos := by
    cases w with
    | struct =>
      cases hpos
      rfl
    | _ => cases hpos
  exact h.part_value hw hwp hp

theorem slice_value {subject from_index to_index result : Value}
    (h : store.Holds base slots (subject :: from_index :: to_index :: vs) K kept)
    (hs : Reowolf.slice_value subject from_index to_index store = .ok (result, store')) :
    store'.Holds base slots (result :: vs) K kept := by
  simp only [Reowolf.slice_value, Except.bind_eq_ok] at hs
  obtain ⟨_, _, _, _, _, _, _, _, w, hw, pos, hpos, _, _, _, _, ⟨new_values, store₂⟩, hc, store₃, hd, he⟩ := hs
  cases he
  have hv : (w.with_heap_pos store.alloc_heap.1).get_heap_pos = some store.alloc_heap.1 :=
    Value.get_heap_pos_with (array_heap_pos_eq_ok hpos)
  have h₀ : store.Holds base slots (subject :: vs) K kept :=
    ((h.perm (.swap _ _ _)).forget.perm (.swap _ _ _)).forget
  obtain ⟨h₁, _, _⟩ := h₀.alloc_heap rfl hv
  have h₁' : store.alloc_heap.2.Holds base slots
    ([] ++ w.with_heap_pos store.alloc_heap.1 :: subject :: vs) K kept := h₁
  obtain ⟨h₂, hp₂, hf₂⟩ := h₁'.clone_onto (by simp) hc
  have hm : w.with_heap_pos store.alloc_heap.1 ∈ slots ++ w.with_heap_pos store.alloc_heap.1 :: subject :: vs := by
    simp
  split at hd
  case isTrue =>
    have h₃ := h₂.put (h₁.owns.in_use hm hv).not_kept (fun hf => (h₁.owns.in_use hm hv).not_free (hf₂ hf)) hp₂
    exact (h₃.perm (.swap _ _ _)).drop_value hd
  case isFalse => exact (h₂.forget_all.perm (.swap _ _ _)).drop_value hd

theorem create_value {size result : Value} (h : store.Holds base slots (size :: vs) K kept)
    (hc : Reowolf.create_value size store = .ok (result, store')) :
    store'.Holds base slots (result :: vs) K kept := by
  simp only [Reowolf.create_value, Except.bind_eq_ok] at hc
  obtain ⟨_, _, length, _, hc⟩ := hc
  split at hc
  case isTrue => cases hc
  case isFalse =>
    obtain ⟨region, hregion, he⟩ := Except.bind_eq_ok.mp hc
    cases he
    obtain ⟨h₁, hus, _⟩ := h.forget.alloc_heap rfl (rfl : (Value.message store.alloc_heap.1).get_heap_pos = _)
    cases hus.symm.trans (region_eq_ok.mp hregion)
    exact h₁.set_leaves rfl fun w hw => by
      simp only [List.take_nil, List.nil_append] at hw
      exact List.eq_of_mem_replicate hw ▸ ⟨rfl, rfl⟩

theorem length_value {array result : Value} (h : store.Holds base slots (array :: vs) K kept)
    (hl : Reowolf.length_value array store = .ok (result, store')) :
    store'.Holds base slots (result :: vs) K kept := by
  simp only [Reowolf.length_value, Except.bind_eq_ok] at hl
  obtain ⟨w, hw, hl⟩ := hl
  cases w with
  | array | string =>
    obtain ⟨pos, _, hl⟩ := Except.bind_eq_ok.mp hl
    obtain ⟨region, _, hl⟩ := Except.bind_eq_ok.mp hl
    obtain ⟨store₁, hd, he⟩ := Except.bind_eq_ok.mp hl
    cases he
    exact (h.drop_value hd).add rfl trivial
  | _ => cases hl

-- The casts between simple types give simple values.
theorem cast_integer_leaf {build : Build} {part : ConcreteTypePart} {type : IntegerType}
    {i : Integer type} {value : Value} (h : cast_integer build part i = .ok (.ok value)) :
    value.get_heap_pos = none ∧ value.is_ref = false := by
  cases part with
  | bool =>
    cases h
    exact ⟨rfl, rfl⟩
  | character | integer =>
    simp only [cast_integer] at h
    split at h <;> split at h <;> cases h <;> exact ⟨rfl, rfl⟩
  | _ => cases h

theorem unchecked_cast_leaf {part : ConcreteTypePart} {input : Nat} {value : Value}
    (h : unchecked_cast part input = .ok (.ok value)) :
    value.get_heap_pos = none ∧ value.is_ref = false := by
  cases part with
  | integer =>
    cases h
    exact ⟨rfl, rfl⟩
  | _ => cases h

theorem cast {build : Build} {output_type : ConcreteType} {subject value : Value}
    (h : store.Holds base slots (subject :: vs) K kept)
    (hc : apply_casting build store output_type subject = .ok (.ok value, store')) :
    store'.Holds base slots (value :: subject :: vs) K kept := by
  cases output_type with
  | nil => cases hc
  | cons part parts =>
    simp only [apply_casting] at hc
    split at hc
    case isTrue =>
      obtain ⟨⟨cloned, store₁⟩, hclone, he⟩ := Except.bind_eq_ok.mp hc
      cases he
      obtain ⟨w, depth, hr, hclone⟩ := clone_value_eq_ok hclone
      exact (h.clone_value_at (h.read List.mem_cons_self hr).1 hclone).1
    case isFalse =>
      obtain ⟨w, hr, hc⟩ := Except.bind_eq_ok.mp hc
      have hleaf : value.get_heap_pos = none ∧ value.is_ref = false ∧ store' = store := by
        cases w with
        | bool =>
          cases part with
          | bool | character =>
            cases hc
            exact ⟨rfl, rfl, rfl⟩
          | _ =>
            obtain ⟨_, hv, he⟩ := Except.bind_eq_ok.mp hc
            cases he
            obtain ⟨hnone, hp⟩ := unchecked_cast_leaf hv
            exact ⟨hnone, hp, rfl⟩
        | char =>
          cases part with
          | bool | character =>
            cases hc
            exact ⟨rfl, rfl, rfl⟩
          | _ =>
            obtain ⟨_, hv, he⟩ := Except.bind_eq_ok.mp hc
            cases he
            obtain ⟨hnone, hp⟩ := unchecked_cast_leaf hv
            exact ⟨hnone, hp, rfl⟩
        | integer =>
          obtain ⟨_, hv, he⟩ := Except.bind_eq_ok.mp hc
          cases he
          obtain ⟨hnone, hp⟩ := cast_integer_leaf hv
          exact ⟨hnone, hp, rfl⟩
        | _ => cases hc
      obtain ⟨hnone, hp, rfl⟩ := hleaf
      exact h.add hnone (Value.outside_of_plain hp)

theorem cast_value {env : EvalEnv} {frame : Frame} {this : ExpressionId} {subject result : Value}
    (h : store.Holds base slots (subject :: vs) K kept)
    (hc : Reowolf.cast_value env frame this subject store = .ok (result, store')) :
    store'.Holds base slots (result :: vs) K kept := by
  simp only [Reowolf.cast_value, Except.bind_eq_ok] at hc
  obtain ⟨data, _, ⟨cast, store₁⟩, happly, hc⟩ := hc
  cases cast with
  | error => cases hc
  | ok value =>
    obtain ⟨store₂, hd, he⟩ := Except.bind_eq_ok.mp hc
    cases he
    have h₁ : store₁.Holds base slots (result :: subject :: vs) K kept := h.cast happly
    exact (h₁.perm (.swap _ _ _)).drop_value hd

theorem literal_value {env : EvalEnv} {frame : Frame} {this : ExpressionId} {form : Literal}
    {operands : List Value} {result : Value} (h : store.Holds base slots (operands ++ vs) K kept)
    (hl : Reowolf.literal_value env frame this form operands store = .ok (result, store')) :
    store'.Holds base slots (result :: vs) K kept := by
  cases form with
  | struct | union | array =>
    obtain ⟨⟨pos, store₁⟩, hr, he⟩ := Except.bind_eq_ok.mp hl
    cases he
    exact h.region_value hr rfl
  | string s =>
    obtain ⟨region, hregion, he⟩ := Except.bind_eq_ok.mp hl
    cases he
    obtain ⟨h₁, hus, _⟩ := h.forget_all.alloc_heap rfl
      (rfl : (Value.string store.alloc_heap.1).get_heap_pos = _)
    cases hus.symm.trans (region_eq_ok.mp hregion)
    refine h₁.set_leaves rfl fun w hw => ?_
    simp only [List.nil_append, string_values, List.mem_map] at hw
    obtain ⟨_, _, hw⟩ := hw
    exact hw ▸ ⟨rfl, rfl⟩
  | integer =>
    obtain ⟨data, _, hl⟩ := Except.bind_eq_ok.mp hl
    split at hl
    case h_1 =>
      cases hl
      exact h.forget_all.add rfl trivial
    case h_2 => cases hl
  | null | true | false | character | enum =>
    cases hl
    exact h.forget_all.add rfl trivial

end Store.Holds

end Reowolf
