import Reowolf.Protocol.Operators
import Reowolf.Protocol.TypedValues

namespace Reowolf

namespace Store

variable {store store' store₁ : Store} {A B F G K : Multiset HeapPos} {pos source target : HeapPos}
variable {us vs done rest : List Value} {ts : List (RegionHeap.Tree Value)} {t : RegionHeap.Tree Value} {v v' : Value}
variable {depth : Nat}

-- The clone of a value that stands for a tree stands for the same tree.
theorem clone_value_at_spec (ha : store.Accounts A K) (hr : store.Reps [v] [t] G)
    (hG : ∀ pos ∈ G, pos ∈ A + K) (hp : v.is_ref = false)
    (hc : clone_value_at depth store v = .ok (v', store')) :
    ∃ B, store'.Reps [v'] [t] B ∧ store'.Accounts (B + A) K ∧ store.Keeps store' (A + K) ∧
      v'.is_ref = false := by
  have hclosed : store.Closed (· ∈ G) := by
    intro pos hpos us hus u hu p hp
    obtain ⟨_, _, G', hus', hr', hle⟩ := hr.inside hpos
    cases hus.symm.trans hus'
    exact Multiset.mem_of_le hle (Multiset.mem_cons_of_mem (hr'.pointer_mem hu hp))
  have hv : ∀ pos, v.get_heap_pos = some pos → pos ∈ G :=
    fun _ => hr.pointer_mem (List.mem_singleton.mpr rfl)
  obtain ⟨t', _, B, _, hr', htree, ha', hk, hp'⟩ :=
    clone_value_at_clones depth hclosed hG hp hv ha hc
  obtain ⟨ht, _⟩ := hr'.unique hr
  cases ht
  exact ⟨B, htree, ha', hk, hp'⟩

-- The recursion is deep enough for every value of so small a height.
def ClonesWithin (depth : Nat) : Prop :=
  ∀ {store v t G A K}, store.Accounts A K → store.Reps [v] [t] G → (∀ pos ∈ G, pos ∈ A + K) →
    v.is_ref = false → t.height ≤ depth → ∃ result, clone_value_at depth store v = .ok result

theorem ClonesWithin.elements (hc : ClonesWithin depth) (ha : store.Accounts (target ::ₘ A) K)
    (hsource : store.heap_regions[source]? = some (done ++ rest)) (hs : source ∈ A + K)
    (hr : store.Reps rest ts G) (hG : ∀ pos ∈ G, pos ∈ A + K) (hd : RegionHeap.Tree.heights ts ≤ depth) :
    ∃ store', clone_elements (clone_value_at depth) source target
      (List.range' done.length rest.length) store = .ok store' := by
  induction rest generalizing done store A ts G with
  | nil => exact ⟨store, rfl⟩
  | cons u rest ih =>
    obtain ⟨t, ts', Gu, G', hts, hsum, hu, hrest⟩ := hr.uncons
    subst hts hsum
    have hsub : ∀ pos ∈ A + K, pos ∈ target ::ₘ A + K := by
      intro pos hp
      simp only [Multiset.mem_add, Multiset.mem_cons] at hp ⊢
      tauto
    have hread : store.read_region source done.length = .ok u :=
      read_region_eq_ok.mpr ⟨_, hsource, by simp⟩
    have hplain : u.is_ref = false := ha.plain_region hsource (by simp)
    rw [RegionHeap.Tree.heights_cons, max_le_iff] at hd
    have hGu : ∀ pos ∈ Gu, pos ∈ target ::ₘ A + K :=
      fun pos hp => hsub pos (hG pos (Multiset.mem_add.mpr (.inl hp)))
    obtain ⟨⟨cloned, store₁⟩, hclone⟩ := hc ha hu hGu hplain hd.1
    obtain ⟨B, hcloned, ha₁, hk₁, hplain'⟩ := clone_value_at_spec ha hu hGu hplain hclone
    -- The clone is put at the end of the target.
    have htarget : target ∈ B + target ::ₘ A := by simp
    have hlt : target < store₁.heap_regions.length := ha₁.lt_length (by simp)
    have hacc : store₁.heap_regions[target]? = some store₁.heap_regions[target] :=
      List.getElem?_eq_getElem hlt
    generalize store₁.heap_regions[target] = acc at hacc
    have hpush : store₁.push_region target cloned = .ok (store₁.set_region target (acc ++ [cloned])) := by
      simp only [push_region, region_eq_ok.mpr hacc]
      rfl
    have hplains : ∀ w ∈ acc ++ [cloned], w.is_ref = false := by
      intro w hw
      cases List.mem_append.mp hw with
      | inl hw => exact ha₁.plain_region hacc hw
      | inr hw => exact List.mem_singleton.mp hw ▸ hplain'
    have ha₂ : (store₁.set_region target (acc ++ [cloned])).Accounts (target ::ₘ (B + A)) K :=
      (ha₁.set_region htarget hplains).cast (Multiset.add_cons ..)
    have hnot : target ∉ A + K := by
      rw [Multiset.mem_add, not_or]
      exact ⟨ha.apart_cons, ha.not_kept (Multiset.mem_cons_self _ _)⟩
    have hk : store.Keeps (store₁.set_region target (acc ++ [cloned])) (A + K) :=
      (hk₁.mono hsub).trans (keeps_set_region hnot)
    have hsub' : ∀ pos ∈ A + K, pos ∈ B + A + K := by
      intro pos hp
      simp only [Multiset.mem_add] at hp ⊢
      tauto
    have hsource₂ := (hk.regions source hs).trans hsource
    rw [List.append_cons done u rest] at hsource₂
    have hG' : ∀ pos ∈ G', pos ∈ A + K := fun pos hp => hG pos (Multiset.mem_add.mpr (.inr hp))
    obtain ⟨store', h⟩ := ih ha₂ hsource₂ (hsub' _ hs) (hk.reps hG' hrest)
      (fun pos hp => hsub' _ (hG' pos hp)) hd.2
    refine ⟨store', ?_⟩
    rw [List.length_append, List.length_singleton] at h
    simpa only [List.length_cons, List.range'_succ, clone_elements, hread, hclone, hpush,
      Except.ok_bind] using h

theorem clone_value_at_within (depth : Nat) : ClonesWithin depth := by
  induction depth with
  | zero =>
    intro _ _ t _ _ _ _ _ _ _ hd
    cases t
    cases hd
  | succ depth ih =>
    intro store v t G A K ha hr hG hp hd
    unfold clone_value_at
    cases hr with
    | leaf hnone _ =>
      cases v with
      | message | string | array | union | struct => cases hnone
      | ref => cases hp
      | _   => exact ⟨_, rfl⟩
    | @node _ source us children G' _ _ F' hsource hus hchildren hnil =>
      cases hnil
      rw [add_zero] at hG
      generalize halloc : store.alloc_heap = allocated
      obtain ⟨target, store₁⟩ := allocated
      obtain ⟨ha₁, _, hk₁⟩ := ha.alloc_heap halloc
      have hs : source ∈ A + K := hG source (Multiset.mem_cons_self _ _)
      have hG' : ∀ pos ∈ G', pos ∈ A + K := fun pos hp => hG pos (Multiset.mem_cons_of_mem hp)
      have hus₁ : store₁.heap_regions[source]? = some ([] ++ us) := (hk₁.regions source hs).trans hus
      obtain ⟨store', h⟩ := ih.elements ha₁ hus₁ hs (hk₁.reps hG' hchildren) hG'
        (Nat.le_of_succ_le_succ hd)
      rw [List.length_nil, ← List.range_eq_range'] at h
      rw [hsource]
      simp only [region_eq_ok.mpr hus₁, List.nil_append, h, Except.ok_bind]
      exact ⟨_, rfl⟩

theorem clone_value_total (ha : store.Accounts A K) (hr : store.Reps [v] [t] G)
    (hG : ∀ pos ∈ G, pos ∈ A + K) (hp : v.is_ref = false) :
    ∃ v' store' B, store.clone_value v = .ok (v', store') ∧ store'.Reps [v'] [t] B ∧
      store'.Accounts (B + A) K ∧ store.Keeps store' (A + K) ∧ v'.is_ref = false := by
  have hplains : ∀ w ∈ [v], w.is_ref = false := fun w hw => List.mem_singleton.mp hw ▸ hp
  have hd : t.height ≤ store.depth :=
    (le_max_left _ _).trans (Nat.le_succ_of_le (Reps.denotes hr hplains ha.plain).heights_le)
  obtain ⟨⟨v', store'⟩, hc⟩ := clone_value_at_within store.depth ha hr hG hp hd
  obtain ⟨B, htree, ha', hk, hp'⟩ := clone_value_at_spec ha hr hG hp hc
  exact ⟨v', store', B, hc, htree, ha', hk, hp'⟩

-- These regions were freed, and all else is as it was.
structure Drops (store store' : Store) (F : Multiset HeapPos) : Prop where
  stack    : store'.stack = store.stack
  boundary : store'.cur_stack_boundary = store.cur_stack_boundary
  kept     : ∀ pos ∉ F, store'.heap_regions[pos]? = store.heap_regions[pos]?
  free     : (store'.free_regions : Multiset HeapPos) = F + store.free_regions

namespace Drops

theorem refl : store.Drops store 0 where
  stack    := rfl
  boundary := rfl
  kept _ _ := rfl
  free     := (zero_add _).symm

theorem trans (h : store.Drops store₁ F) (h' : store₁.Drops store' G) : store.Drops store' (F + G) where
  stack    := h'.stack.trans h.stack
  boundary := h'.boundary.trans h.boundary
  kept pos hp := by
    rw [Multiset.mem_add, not_or] at hp
    exact (h'.kept pos hp.right).trans (h.kept pos hp.left)
  free := by
    rw [h'.free, h.free]
    abel

theorem reps (h : store.Drops store' F) (hr : store.Reps vs ts G) (hd : ∀ pos ∈ G, pos ∉ F) :
    store'.Reps vs ts G :=
  hr.congr fun pos hp => h.kept pos (hd pos hp)

end Drops

-- The recursion is deep enough to drop every value on so few regions.
def DropsWithin (depth : Nat) : Prop :=
  ∀ {store pos v t F}, v.get_heap_pos = some pos → store.Reps [v] [t] F → F.Nodup →
    Multiset.card F < depth → ∃ store', drop_heap_pos_at depth store pos = .ok store' ∧ store.Drops store' F

theorem DropsWithin.elements (hd : DropsWithin depth)
    (hus : store.heap_regions[pos]? = some (done ++ rest)) (hr : store.Reps rest ts G)
    (hn : (pos ::ₘ G).Nodup) (hc : Multiset.card G < depth) :
    ∃ store', drop_elements (drop_heap_pos_at depth) pos (List.range' done.length rest.length) store =
      .ok store' ∧ store.Drops store' G := by
  induction rest generalizing done store ts G with
  | nil =>
    cases hr
    exact ⟨store, rfl, .refl⟩
  | cons u rest ih =>
    obtain ⟨t, ts', Gu, G', hts, hsum, hu, hrest⟩ := hr.uncons
    subst hts hsum
    obtain ⟨hnot, hn⟩ := Multiset.nodup_cons.mp hn
    obtain ⟨hnu, hnrest, hdisjoint⟩ := Multiset.nodup_add.mp hn
    rw [Multiset.mem_add, not_or] at hnot
    rw [Multiset.card_add] at hc
    have hread : store.read_region pos done.length = .ok u :=
      read_region_eq_ok.mpr ⟨_, hus, by simp⟩
    have hstep : ∃ store₁, store.Drops store₁ Gu ∧
        u.get_heap_pos.elim (.ok store) (drop_heap_pos_at depth store) = .ok store₁ := by
      cases hp : u.get_heap_pos with
      | none =>
        cases hu with
        | leaf _ hnil =>
          cases hnil
          exact ⟨store, .refl, rfl⟩
        | node hp' => cases hp.symm.trans hp'
      | some other =>
        obtain ⟨store₁, hdrop, hdrops⟩ := hd hp hu hnu (by omega)
        exact ⟨store₁, hdrops, hdrop⟩
    obtain ⟨store₁, hdrops, he⟩ := hstep
    have hus₁ := (hdrops.kept pos hnot.left).trans hus
    rw [List.append_cons done u rest] at hus₁
    have hrest₁ := hdrops.reps hrest fun p hp hpu => Multiset.disjoint_left.mp hdisjoint hpu hp
    obtain ⟨store', h, hdrops'⟩ := ih hus₁ hrest₁ (Multiset.nodup_cons.mpr ⟨hnot.right, hnrest⟩) (by omega)
    refine ⟨store', ?_, hdrops.trans hdrops'⟩
    rw [List.length_append, List.length_singleton] at h
    simp only [List.length_cons, List.range'_succ, drop_elements, hread, Except.ok_bind]
    cases hp : u.get_heap_pos with
    | none =>
      rw [hp] at he
      cases he
      exact h
    | some other =>
      rw [hp] at he
      change drop_heap_pos_at depth store other >>= _ = _
      rw [show drop_heap_pos_at depth store other = .ok store₁ from he]
      exact h

theorem drop_heap_pos_at_within (depth : Nat) : DropsWithin depth := by
  induction depth with
  | zero =>
    intro _ _ _ _ _ _ _ _ hd
    omega
  | succ depth ih =>
    intro store pos v t F hv hr hn hd
    cases hr with
    | leaf hnone => cases hv.symm.trans hnone
    | @node _ p us children G _ _ F' hp hus hchildren hnil =>
      cases hv.symm.trans hp
      cases hnil
      rw [add_zero] at hn hd ⊢
      rw [Multiset.card_cons] at hd
      have hus₀ : store.heap_regions[pos]? = some ([] ++ us) := hus
      obtain ⟨store₁, h, hdrops⟩ := ih.elements hus₀ hchildren hn (by omega)
      rw [List.length_nil, ← List.range_eq_range'] at h
      have hus₁ := (hdrops.kept pos (Multiset.nodup_cons.mp hn).left).trans hus
      refine ⟨{ store₁.set_region pos [] with free_regions := pos :: store₁.free_regions }, ?_, ?_⟩
      · simp only [drop_heap_pos_at, region_eq_ok.mpr hus, h, region_eq_ok.mpr hus₁, Except.ok_bind]
      · constructor
        case stack    => exact hdrops.stack
        case boundary => exact hdrops.boundary
        case kept     =>
          intro q hq
          rw [Multiset.mem_cons, not_or] at hq
          have hset := List.getElem?_set_ne (a := ([] : List Value)) (l := store₁.heap_regions)
            (fun he => hq.left he.symm : pos ≠ q)
          exact hset.trans (hdrops.kept q hq.right)
        case free =>
          rw [← Multiset.cons_coe, hdrops.free, Multiset.cons_add]

theorem drop_heap_pos_total (hv : v.get_heap_pos = some pos) (hr : store.Reps [v] [t] F) (hn : F.Nodup) :
    ∃ store', store.drop_heap_pos pos = .ok store' ∧ store.Drops store' F :=
  drop_heap_pos_at_within store.depth hv hr hn (Nat.lt_succ_of_le (Nat.le_succ_of_le (hr.card_le hn)))

end Store

end Reowolf
