import Reowolf.Protocol.TypedValues

namespace Reowolf

namespace ValueGroup

variable {store : Store} {depth : Nat} {v : Value} {values : List Value} {t : RegionHeap.Tree Value}
variable {ts : List (RegionHeap.Tree Value)} {regions : List (List Value)}

-- The trees that values in a group stand for: a group holds no references.
abbrev Denotes (regions : List (List Value)) : List Value → List (RegionHeap.Tree Value) → Prop :=
  RegionHeap.Denotes some Value.get_heap_pos (Value.with_heap_pos 0) regions

-- What is required of a transfer into a group: it is possible for every value of so small a height, and
-- puts what it needs behind the regions that there are.
def Retrieves (store : Store) (depth : Nat) : Prop :=
  ∀ (regions : List (List Value)) {v t}, store.Denotes [v] [t] → t.height ≤ depth → ∃ v' new,
    retrieve_value store depth v regions = .ok (v', regions ++ new) ∧ Denotes (regions ++ new) [v'] [t]

theorem Denotes.extend {vs : List Value} {new : List (List Value)} (h : Denotes regions vs ts) :
    Denotes (regions ++ new) vs ts := by
  apply RegionHeap.Denotes.mono h
  intro pos us hus
  rw [List.getElem?_append_left (List.getElem?_eq_some_iff.mp hus).1, hus]

theorem Retrieves.all (hr : Retrieves store depth) (regions : List (List Value)) (h : store.Denotes values ts)
    (hd : RegionHeap.Tree.heights ts ≤ depth) : ∃ transferred new,
      retrieve_values (retrieve_value store depth) values regions = .ok (transferred, regions ++ new) ∧
        Denotes (regions ++ new) transferred ts := by
  induction values generalizing ts regions with
  | nil =>
    cases h
    exact ⟨[], [], by rw [List.append_nil]; rfl, .nil⟩
  | cons v values ih =>
    obtain ⟨t, ts, he, hv, hvs⟩ := h.uncons
    subst he
    rw [RegionHeap.Tree.heights_cons, max_le_iff] at hd
    obtain ⟨v', new, hv', hden⟩ := hr regions hv hd.1
    obtain ⟨rest, new', hrest, hdens⟩ := ih (regions ++ new) hvs hd.2
    refine ⟨v' :: rest, new ++ new', ?_, ?_⟩
    · simp only [retrieve_values, hv', Except.ok_bind, hrest, ← List.append_assoc]
    · rw [← List.append_assoc]
      exact hden.extend.append hdens

theorem retrieve_value_retrieves (store : Store) (depth : Nat) : Retrieves store depth := by
  induction depth with
  | zero =>
    intro regions v t _ hd
    cases t
    cases hd
  | succ depth ih =>
    intro regions v t h hd
    obtain ⟨w, hread, hw⟩ := h.exists_read
    obtain ⟨hread, _⟩ := Store.deref_eq_some.mp hread
    rw [retrieve_value, hread, Except.ok_bind]
    obtain ⟨hp, rfl⟩ | ⟨pos, us, children, hp, hus, hcs, rfl⟩ := hw
    · rw [hp]
      exact ⟨w, [], by rw [List.append_nil], .leaf rfl hp .nil⟩
    · obtain ⟨transferred, new, hvalues, hden⟩ :=
        ih.all regions hcs (Nat.le_of_succ_le_succ hd)
      rw [hp]
      refine ⟨w.with_heap_pos (regions ++ new).length, new ++ [transferred], ?_, ?_⟩
      · change (store.region pos >>= _) = _
        simp only [Store.region_eq_ok.mpr hus, hvalues, Except.ok_bind, ← List.append_assoc]
      · rw [← List.append_assoc]
        have hnew : (regions ++ new ++ [transferred])[(regions ++ new).length]? = some transferred := by simp
        have hnode : Denotes (regions ++ new ++ [transferred]) [w.with_heap_pos (regions ++ new).length] _ :=
          .node rfl (Value.get_heap_pos_with hp) hnew hden.extend .nil
        rwa [Value.with_heap_pos_twice] at hnode

variable {group : ValueGroup} {A F K : Multiset HeapPos} {target : HeapPos}

-- What is required of a transfer out of a group: the value gets regions of its own.
def Provides (group : ValueGroup) (depth : Nat) : Prop :=
  ∀ (store : Store) {v t F K}, Denotes group.regions [v] [t] → t.height ≤ depth →
    RegionHeap.Accounts store.heap_regions store.free_regions F K → ∃ v' store' G,
      group.provide_value depth v store = .ok (v', store') ∧ store'.Reps [v'] [t] G ∧
        RegionHeap.Accounts store'.heap_regions store'.free_regions (G + F) K ∧ store.Keeps store' (F + K)

theorem Provides.all {acc : List Value} {as : List (RegionHeap.Tree Value)} (hp : Provides group depth)
    (h : Denotes group.regions values ts) (hd : RegionHeap.Tree.heights ts ≤ depth)
    (htarget : store.heap_regions[target]? = some acc) (hacc : store.Reps acc as A)
    (ha : RegionHeap.Accounts store.heap_regions store.free_regions (target ::ₘ (A + F)) K) :
    ∃ store' acc' A', provide_values (group.provide_value depth) target values store = .ok store' ∧
      store'.heap_regions[target]? = some acc' ∧ store'.Reps acc' (as ++ ts) A' ∧
      RegionHeap.Accounts store'.heap_regions store'.free_regions (target ::ₘ (A' + F)) K ∧
      store.Keeps store' (F + K) := by
  induction values generalizing store ts acc as A with
  | nil =>
    cases h
    exact ⟨store, acc, A, rfl, htarget, by rwa [List.append_nil], ha, .refl⟩
  | cons v values ih =>
    obtain ⟨t, ts, he, hv, hvs⟩ := h.uncons
    subst he
    rw [RegionHeap.Tree.heights_cons, max_le_iff] at hd
    obtain ⟨v', store₁, G, hv', hreps, ha₁, hk₁⟩ := hp store hv hd.1 ha
    -- The value is put at the end of the target.
    have htarget₁ := (hk₁.regions target (by simp)).trans htarget
    have hacc₁ : store₁.Reps acc as A := hk₁.reps (fun pos hp => by simp [hp]) hacc
    have hsum : G + target ::ₘ (A + F) = target ::ₘ (A + G + F) := by
      simp only [← Multiset.singleton_add]
      abel
    rw [hsum] at ha₁
    obtain ⟨htarget₂, hacc₂, ha₂, hk₂⟩ := Store.fill_accounts ha₁ (hacc₁.append hreps)
    obtain ⟨store', acc', A', hvalues, htarget', hacc', ha', hk'⟩ := ih hvs hd.2 htarget₂ hacc₂ ha₂
    have hk := (hk₁.mono fun pos (hp : pos ∈ F + K) => by
      simp only [Multiset.mem_add, Multiset.mem_cons] at hp ⊢
      tauto).trans (hk₂.mono fun pos (hp : pos ∈ F + K) => by
        simp only [Multiset.mem_add] at hp ⊢
        tauto)
    refine ⟨store', acc', A', ?_, htarget', by rwa [List.append_assoc] at hacc', ha', hk.trans hk'⟩
    simp only [provide_values, hv', Except.ok_bind, Store.push_region, Store.region_eq_ok.mpr htarget₁,
      hvalues]

theorem provide_value_provides (group : ValueGroup) (depth : Nat) : Provides group depth := by
  induction depth with
  | zero =>
    intro store v t F K _ hd
    cases t
    cases hd
  | succ depth ih =>
    intro store v t F K h hd ha
    unfold provide_value
    obtain ⟨w, hread, hw⟩ := h.exists_read
    cases hread
    obtain ⟨hp, rfl⟩ | ⟨pos, us, children, hp, hus, hcs, rfl⟩ := hw
    · rw [hp]
      exact ⟨v, store, 0, rfl, .singleton_leaf hp, by rwa [zero_add], .refl⟩
    · generalize halloc : store.alloc_heap = allocated
      obtain ⟨to_pos, store₁⟩ := allocated
      obtain ⟨ha₁, htarget, hk₁⟩ := Store.alloc_heap_accounts ha halloc
      have ha₁' : RegionHeap.Accounts store₁.heap_regions store₁.free_regions (to_pos ::ₘ (0 + F)) K := by
        rwa [zero_add]
      obtain ⟨store', acc, A, hvalues, hacc, hreps, ha', hk'⟩ :=
        ih.all hcs (Nat.le_of_succ_le_succ hd) htarget .nil ha₁'
      have hnode := RegionHeap.Reps.singleton_node (Value.get_heap_pos_with hp) hacc hreps
      rw [Value.with_heap_pos_twice] at hnode
      refine ⟨v.with_heap_pos to_pos, store', to_pos ::ₘ A, ?_, hnode, ?_, hk₁.trans hk'⟩
      · simp only [hp, hus, hvalues, Except.ok_bind]
      · rwa [Multiset.cons_add]

theorem push_values_total (h : Denotes group.regions values ts)
    (hd : RegionHeap.Tree.heights ts ≤ group.regions.length + 1)
    (ha : RegionHeap.Accounts store.heap_regions store.free_regions F K) : ∃ pushed store' G,
      group.push_values values store = .ok store' ∧ store'.stack = store.stack ++ pushed ∧
        store'.cur_stack_boundary = store.cur_stack_boundary ∧ store'.Reps pushed ts G ∧
        RegionHeap.Accounts store'.heap_regions store'.free_regions (G + F) K ∧
        ∀ pos ∈ F + K, store'.heap_regions[pos]? = store.heap_regions[pos]? := by
  induction values generalizing store ts F with
  | nil =>
    cases h
    exact ⟨[], store, 0, rfl, (List.append_nil _).symm, rfl, .nil, by rwa [zero_add], fun _ _ => rfl⟩
  | cons v values ih =>
    obtain ⟨t, ts, he, hv, hvs⟩ := h.uncons
    subst he
    rw [RegionHeap.Tree.heights_cons, max_le_iff] at hd
    obtain ⟨v', store₁, G, hv', hreps, ha₁, hk₁⟩ := provide_value_provides group _ store hv hd.1 ha
    let store₂ := { store₁ with stack := store₁.stack ++ [v'] }
    have ha₂ : RegionHeap.Accounts store₂.heap_regions store₂.free_regions (G + F) K := ha₁
    obtain ⟨pushed, store', G', hpush, hstack, hb, hreps', ha', hk'⟩ := ih hvs hd.2 ha₂
    have hv₁ : store'.Reps [v'] [t] G := hreps.congr fun pos hp => hk' pos (by simp [hp])
    refine ⟨v' :: pushed, store', G + G', ?_, ?_, hb.trans hk₁.boundary, hv₁.append hreps', ?_, ?_⟩
    · simp only [push_values, hv', Except.ok_bind]
      exact hpush
    · have hstack₂ : store₂.stack = store.stack ++ [v'] := congrArg (· ++ _) hk₁.stack
      rw [hstack, hstack₂, List.append_assoc]
      rfl
    · rwa [← add_assoc, add_comm G' G] at ha'
    · intro pos hp
      refine (hk' pos ?_).trans (hk₁.regions pos hp)
      simp only [Multiset.mem_add] at hp ⊢
      tauto

theorem from_store_total (h : store.Denotes values ts) :
    ∃ group, from_store store values = .ok group ∧ Denotes group.regions group.values ts := by
  have hd : RegionHeap.Tree.heights ts ≤ store.depth := Nat.le_succ_of_le h.heights_le
  obtain ⟨transferred, new, hr, hden⟩ := (retrieve_value_retrieves store store.depth).all [] h hd
  rw [List.nil_append] at hr hden
  exact ⟨⟨transferred, new⟩, by simp only [from_store, hr, Except.ok_bind], hden⟩

theorem into_store_total (h : Denotes group.regions group.values ts)
    (ha : RegionHeap.Accounts store.heap_regions store.free_regions F K) : ∃ pushed store' G,
      group.into_store store = .ok store' ∧ store'.stack = store.stack ++ pushed ∧
        store'.cur_stack_boundary = store.cur_stack_boundary ∧ store'.Reps pushed ts G ∧
        RegionHeap.Accounts store'.heap_regions store'.free_regions (G + F) K ∧
        ∀ pos ∈ F + K, store'.heap_regions[pos]? = store.heap_regions[pos]? :=
  push_values_total h h.heights_le ha

-- Values go to another store as they are, each with regions of its own that were free or did not exist.
theorem transfer_keeps_values {source target : Store} (h : source.Denotes values ts)
    (hn : target.free_regions.Nodup)
    (he : ∀ pos ∈ target.free_regions, target.heap_regions[pos]? = some []) :
    ∃ group target' pushed taken,
      from_store source values = .ok group ∧ group.into_store target = .ok target' ∧
      target'.stack = target.stack ++ pushed ∧ target'.cur_stack_boundary = target.cur_stack_boundary ∧
      target'.Reps pushed ts taken ∧ taken.Nodup ∧
      (∀ pos ∈ taken, pos ∈ target.free_regions ∨ target.heap_regions.length ≤ pos) ∧
      (∀ pos < target.heap_regions.length, pos ∉ target.free_regions →
        target'.heap_regions[pos]? = target.heap_regions[pos]?) ∧
      target'.free_regions.Nodup ∧
      ∀ pos ∈ target'.free_regions, pos ∉ taken ∧ target'.heap_regions[pos]? = some [] := by
  obtain ⟨group, hgroup, hden⟩ := from_store_total h
  have ha := RegionHeap.Accounts.of_free hn he
  obtain ⟨pushed, target', taken, hinto, hstack, hb, hreps, ha', hk⟩ := into_store_total hden ha
  rw [add_zero] at ha'
  have hnodup := ha'.nodup
  rw [Multiset.nodup_add, Multiset.nodup_add] at hnodup
  obtain ⟨⟨htaken, hfree, hapart⟩, _, hkept⟩ := hnodup
  have hlive (pos : HeapPos) (hlt : pos < target.heap_regions.length) (hp : pos ∉ target.free_regions) :
      pos ∈ Multiset.range target.heap_regions.length - ↑target.free_regions := by
    have hm := Multiset.mem_range.mpr hlt
    rw [← ha.all, zero_add, Multiset.mem_add] at hm
    exact hm.resolve_left hp
  refine ⟨group, target', pushed, taken, hgroup, hinto, hstack, hb, hreps, htaken, ?_, ?_,
    Multiset.coe_nodup.mp hfree, ?_⟩
  · intro pos hp
    by_contra hneither
    rw [not_or, not_le] at hneither
    exact Multiset.disjoint_left.mp hkept (Multiset.mem_add.mpr (.inl hp)) (hlive pos hneither.2 hneither.1)
  · intro pos hlt hp
    exact hk pos (by rw [zero_add]; exact hlive pos hlt hp)
  · intro pos hp
    exact ⟨fun ht => Multiset.disjoint_left.mp hapart ht (Multiset.mem_coe.mpr hp), ha'.empty pos hp⟩

-- An array that holds one struct twice and a variable of the sender, for a store with a free region.
theorem transfer_keeps_values_shared :
    let source : Store :=
      { Store.new with
        stack        := [.prevStackBoundary (-1), .bool true]
        heap_regions := [[.char 'c'], [.struct 0, .struct 0, .ref (.stack 0)]] }
    let target : Store :=
      { Store.new with
        heap_regions := [[.bool false], []]
        free_regions := [1] }
    let trees : List (RegionHeap.Tree Value) :=
      [.node (.array 0) [.node (.struct 0) [.node (.char 'c') []], .node (.struct 0) [.node (.char 'c') []],
        .node (.bool true) []]]
    ∃ group target' pushed taken,
      from_store source [.array 1] = .ok group ∧ group.into_store target = .ok target' ∧
      target'.stack = target.stack ++ pushed ∧ target'.cur_stack_boundary = target.cur_stack_boundary ∧
      target'.Reps pushed trees taken ∧ taken.Nodup ∧
      (∀ pos ∈ taken, pos ∈ target.free_regions ∨ target.heap_regions.length ≤ pos) ∧
      (∀ pos < target.heap_regions.length, pos ∉ target.free_regions →
        target'.heap_regions[pos]? = target.heap_regions[pos]?) ∧
      target'.free_regions.Nodup ∧
      ∀ pos ∈ target'.free_regions, pos ∉ taken ∧ target'.heap_regions[pos]? = some [] := by
  intro source target trees
  have hchar : source.Denotes [.char 'c'] [.node (.char 'c') []] :=
    Store.denotes_leaf (.char 'c') (.char 'c') rfl rfl .nil
  have hstructs : source.Denotes [.struct 0, .struct 0, .ref (.stack 0)] _ :=
    Store.denotes_node (.struct 0) (.struct 0) rfl rfl rfl hchar
      (Store.denotes_node (.struct 0) (.struct 0) rfl rfl rfl hchar
        (Store.denotes_leaf (.ref (.stack 0)) (.bool true) rfl rfl .nil))
  exact transfer_keeps_values (Store.denotes_node (.array 1) (.array 1) rfl rfl rfl hstructs .nil)
    (by decide) (by decide)

end ValueGroup

end Reowolf
