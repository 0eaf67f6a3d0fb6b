import Reowolf.Library.Machine
import Reowolf.Library.RegionHeap
import Reowolf.Protocol.Store

namespace Reowolf

def Value.is_ref : Value → Bool
  | ref _ => true
  | _     => false

@[simp]
theorem Value.with_heap_pos_twice {v : Value} {pos pos' : HeapPos} :
    (v.with_heap_pos pos).with_heap_pos pos' = v.with_heap_pos pos' := by
  cases v <;> rfl

theorem Value.get_heap_pos_with {v : Value} {pos pos' : HeapPos} (h : v.get_heap_pos = some pos) :
    (v.with_heap_pos pos').get_heap_pos = some pos' := by
  cases v <;> first | rfl | cases h

theorem Value.is_ref_of_heap_pos {v : Value} {pos : HeapPos} (h : v.get_heap_pos = some pos) :
    v.is_ref = false := by
  cases v <;> first | rfl | cases h

@[simp]
theorem Value.is_ref_with {v : Value} {pos : HeapPos} : (v.with_heap_pos pos).is_ref = v.is_ref := by
  cases v <;> rfl

-- The trees that values stand for, and the regions that they own.
abbrev Store.Reps (store : Store) : List Value → List (RegionHeap.Tree Value) → Multiset HeapPos → Prop :=
  RegionHeap.Reps Value.get_heap_pos (Value.with_heap_pos 0) store.heap_regions

namespace Store

-- Every region is owned by the values at hand, free, or kept for others. No region holds a reference.
structure Accounts (store : Store) (F K : Multiset HeapPos) : Prop extends
    RegionHeap.Accounts store.heap_regions store.free_regions F K where
  plain : ∀ us ∈ store.heap_regions, ∀ u ∈ us, u.is_ref = false

-- The stack and these regions are as they were.
structure Keeps (store store' : Store) (Q : Multiset HeapPos) : Prop where
  stack    : store'.stack = store.stack
  boundary : store'.cur_stack_boundary = store.cur_stack_boundary
  regions  : ∀ pos ∈ Q, store'.heap_regions[pos]? = store.heap_regions[pos]?

variable {store store' store₁ store₂ : Store} {F G K Q R : Multiset HeapPos} {pos source target : HeapPos}
variable {us vs : List Value} {ts : List (RegionHeap.Tree Value)} {t : RegionHeap.Tree Value} {v v' : Value}

namespace Keeps

theorem refl : store.Keeps store Q := ⟨rfl, rfl, fun _ _ => rfl⟩

theorem trans (h : store.Keeps store₁ Q) (h' : store₁.Keeps store₂ Q) : store.Keeps store₂ Q where
  stack           := h'.stack.trans h.stack
  boundary        := h'.boundary.trans h.boundary
  regions pos hp  := (h'.regions pos hp).trans (h.regions pos hp)

theorem mono (h : store.Keeps store' Q) (hs : ∀ pos ∈ R, pos ∈ Q) : store.Keeps store' R :=
  { h with regions := fun pos hp => h.regions pos (hs pos hp) }

theorem reps (h : store.Keeps store' Q) (hs : ∀ pos ∈ F, pos ∈ Q) (hr : store.Reps vs ts F) :
    store'.Reps vs ts F :=
  hr.congr fun pos hp => h.regions pos (hs pos hp)

end Keeps

theorem region_eq_ok : store.region pos = .ok us ↔ store.heap_regions[pos]? = some us := by
  unfold region
  cases store.heap_regions[pos]? <;> simp

theorem read_region_eq_ok {idx : Nat} :
    store.read_region pos idx = .ok v ↔
      ∃ us, store.heap_regions[pos]? = some us ∧ us[idx]? = some v := by
  simp only [read_region, Except.bind_eq_ok, region_eq_ok]
  refine exists_congr fun us => and_congr_right fun _ => ?_
  cases us[idx]? <;> simp

theorem Accounts.plain_region (h : store.Accounts F K) (hus : store.heap_regions[pos]? = some us)
    (hv : v ∈ us) : v.is_ref = false :=
  h.plain us (List.mem_of_getElem? hus) v hv

theorem Accounts.cast (h : store.Accounts F K) (hF : F = G) : store.Accounts G K :=
  hF ▸ h

-- A fresh region.
theorem alloc_heap_accounts (h : RegionHeap.Accounts store.heap_regions store.free_regions F K)
    (ha : store.alloc_heap = (pos, store')) :
    RegionHeap.Accounts store'.heap_regions store'.free_regions (pos ::ₘ F) K ∧
      store'.heap_regions[pos]? = some [] ∧ store.Keeps store' (F + K) := by
  obtain ⟨stack, boundary, heap_regions, free_regions⟩ := store
  cases free_regions with
  | nil =>
    cases ha
    refine ⟨h.alloc_new, by simp, ⟨rfl, rfl, fun p hp => ?_⟩⟩
    exact List.getElem?_append_left (h.lt_length (by simpa using hp))
  | cons first free =>
    cases ha
    exact ⟨h.alloc_free, h.empty pos List.mem_cons_self, ⟨rfl, rfl, fun _ _ => rfl⟩⟩

theorem alloc_heap_plain (h : ∀ us ∈ store.heap_regions, ∀ u ∈ us, u.is_ref = false)
    (ha : store.alloc_heap = (pos, store')) : ∀ us ∈ store'.heap_regions, ∀ u ∈ us, u.is_ref = false := by
  obtain ⟨stack, boundary, heap_regions, free_regions⟩ := store
  cases free_regions with
  | nil =>
    cases ha
    intro us hus u hu
    cases List.mem_append.mp hus with
    | inl hus => exact h us hus u hu
    | inr hus =>
      cases List.mem_singleton.mp hus
      cases hu
  | cons first free =>
    cases ha
    exact h

theorem Accounts.alloc_heap (h : store.Accounts F K) (ha : store.alloc_heap = (pos, store')) :
    store'.Accounts (pos ::ₘ F) K ∧ store'.heap_regions[pos]? = some [] ∧ store.Keeps store' (F + K) := by
  obtain ⟨ha', hpos, hk⟩ := alloc_heap_accounts h.toAccounts ha
  exact ⟨{ ha' with plain := alloc_heap_plain h.plain ha }, hpos, hk⟩

-- A region in use gets other values.
theorem Accounts.set_region (h : store.Accounts F K) (hp : pos ∈ F) (hus : ∀ u ∈ us, u.is_ref = false) :
    (store.set_region pos us).Accounts F K where
  toAccounts := h.toAccounts.set hp
  plain us' hus' u hu := by
    cases List.mem_or_eq_of_mem_set hus' with
    | inl hus' => exact h.plain us' hus' u hu
    | inr he   => exact hus u (he ▸ hu)

theorem keeps_set_region (hp : pos ∉ Q) : store.Keeps (store.set_region pos us) Q where
  stack    := rfl
  boundary := rfl
  regions p hm := by
    have hne : pos ≠ p := fun he => hp (he ▸ hm)
    exact List.getElem?_set_ne hne

theorem getElem?_set_region (hlt : pos < store.heap_regions.length) :
    (store.set_region pos us).heap_regions[pos]? = some us :=
  List.getElem?_set_self hlt

-- A region in use gets values that are at hand.
theorem fill_accounts (h : RegionHeap.Accounts store.heap_regions store.free_regions (target ::ₘ (G + F)) K)
    (hus : store.Reps us ts G) :
    (store.set_region target us).heap_regions[target]? = some us ∧
      (store.set_region target us).Reps us ts G ∧
      RegionHeap.Accounts (store.set_region target us).heap_regions store.free_regions (target ::ₘ (G + F)) K ∧
      store.Keeps (store.set_region target us) (G + F + K) := by
  have hnot : target ∉ G + F + K := by
    rw [Multiset.mem_add, not_or]
    exact ⟨h.apart_cons, h.not_kept (Multiset.mem_cons_self _ _)⟩
  have hk : store.Keeps (store.set_region target us) (G + F + K) := keeps_set_region hnot
  exact ⟨getElem?_set_region (h.lt_length (by simp)), hk.reps (fun pos hp => by simp [hp]) hus,
    h.set (Multiset.mem_cons_self _ _), hk⟩

theorem Accounts.fill (h : store.Accounts (target ::ₘ (G + F)) K) (hus : store.Reps us ts G)
    (hp : ∀ u ∈ us, u.is_ref = false) :
    (store.set_region target us).heap_regions[target]? = some us ∧
      (store.set_region target us).Reps us ts G ∧
      (store.set_region target us).Accounts (target ::ₘ (G + F)) K ∧
      store.Keeps (store.set_region target us) (G + F + K) := by
  obtain ⟨htarget, hreps, _, hk⟩ := fill_accounts h.toAccounts hus
  exact ⟨htarget, hreps, h.set_region (Multiset.mem_cons_self _ _) hp, hk⟩

-- The values in these regions own no others.
def Closed (store : Store) (S : HeapPos → Prop) : Prop :=
  ∀ pos, S pos → ∀ us, store.heap_regions[pos]? = some us → ∀ u ∈ us, ∀ p, u.get_heap_pos = some p → S p

theorem Keeps.closed {S : HeapPos → Prop} (h : store.Keeps store' Q) (hs : ∀ pos, S pos → pos ∈ Q)
    (hc : store.Closed S) : store'.Closed S :=
  fun pos hp us hus => hc pos hp us (h.regions pos (hs pos hp) ▸ hus)

-- What is required of a clone of a value: it stands for the same, on regions of its own.
def Clones (clone : Store → Value → Except Fault (Value × Store)) : Prop :=
  ∀ {store store' v v' S F K}, store.Closed S → (∀ pos, S pos → pos ∈ F + K) → v.is_ref = false →
    (∀ pos, v.get_heap_pos = some pos → S pos) → store.Accounts F K → clone store v = .ok (v', store') →
    ∃ t G F', (∀ pos ∈ G, S pos) ∧ store.Reps [v] [t] G ∧ store'.Reps [v'] [t] F' ∧
      store'.Accounts (F' + F) K ∧ store.Keeps store' (F + K) ∧ v'.is_ref = false

-- The values of the region `source` after the first few are cloned behind those of the region `target`.
theorem Clones.elements {clone : Store → Value → Except Fault (Value × Store)} (hc : Clones clone)
    {S : HeapPos → Prop} {done rest acc : List Value} {as : List (RegionHeap.Tree Value)} {A : Multiset HeapPos}
    (hS : store.Closed S) (hs : ∀ pos, S pos → pos ∈ F + K) (hp : S source)
    (hsource : store.heap_regions[source]? = some (done ++ rest))
    (htarget : store.heap_regions[target]? = some acc) (hacc : store.Reps acc as A)
    (ha : store.Accounts (target ::ₘ (A + F)) K)
    (h : clone_elements clone source target (List.range' done.length rest.length) store = .ok store') :
    ∃ ts G acc' A', (∀ pos ∈ G, S pos) ∧ store.Reps rest ts G ∧
      store'.heap_regions[target]? = some acc' ∧ store'.Reps acc' (as ++ ts) A' ∧
      store'.Accounts (target ::ₘ (A' + F)) K ∧ store.Keeps store' (F + K) := by
  induction rest generalizing done store acc as A with
  | nil =>
    cases h
    exact ⟨[], 0, acc, A, by simp, .nil, htarget, by rwa [List.append_nil], ha, .refl⟩
  | cons u rest ih =>
    simp only [List.length_cons, List.range'_succ, clone_elements, Except.bind_eq_ok] at h
    obtain ⟨value, hread, ⟨cloned, store₁⟩, hclone, store₂, hpush, h⟩ := h
    obtain ⟨_, hus, hvalue⟩ := read_region_eq_ok.mp hread
    cases hsource.symm.trans hus
    obtain rfl : u = value := by simpa using hvalue
    have hplain : u.is_ref = false := ha.plain_region hsource (by simp)
    have hsub : ∀ pos ∈ F + K, pos ∈ target ::ₘ (A + F) + K := by
      intro pos hp
      simp only [Multiset.mem_add, Multiset.mem_cons] at hp ⊢
      tauto
    have hu : ∀ p, u.get_heap_pos = some p → S p := hS source hp _ hsource u (by simp)
    obtain ⟨t, Gu, F', hGu, htree, hcloned, ha₁, hk₁, hplain'⟩ :=
      hc hS (fun pos hp => hsub pos (hs pos hp)) hplain hu ha hclone
    -- The clone is put at the end of the target.
    have htarget₁ : store₁.heap_regions[target]? = some acc :=
      (hk₁.regions target (by simp)).trans htarget
    have hacc₁ : store₁.Reps acc as A := hk₁.reps (fun pos hp => by simp [hp]) hacc
    simp only [push_region, Except.bind_eq_ok, region_eq_ok, htarget₁] at hpush
    obtain ⟨_, he, hpush⟩ := hpush
    cases he
    cases hpush
    have hplains : ∀ u ∈ acc ++ [cloned], u.is_ref = false := by
      intro u hu
      cases List.mem_append.mp hu with
      | inl hu => exact ha₁.plain_region htarget₁ hu
      | inr hu => exact List.mem_singleton.mp hu ▸ hplain'
    have ha₁' : store₁.Accounts (target ::ₘ (A + F' + F)) K :=
      ha₁.cast (by simp only [← Multiset.singleton_add]; abel)
    obtain ⟨htarget₂, hacc₂, ha₂, hk₂⟩ := ha₁'.fill (hacc₁.append hcloned) hplains
    have hk : store.Keeps (store₁.set_region target (acc ++ [cloned])) (F + K) :=
      (hk₁.mono hsub).trans (hk₂.mono fun pos hp => by
        simp only [Multiset.mem_add] at hp ⊢
        tauto)
    have hsource₂ := (hk.regions source (hs source hp)).trans hsource
    rw [List.append_cons done u rest] at hsource₂
    have hlen : done.length + 1 = (done ++ [u]).length := by simp
    rw [hlen] at h
    obtain ⟨ts, G, acc', A', hG, hrest, htarget', hacc', ha', hk'⟩ :=
      ih (hk.closed hs hS) hsource₂ htarget₂ hacc₂ ha₂ h
    have hrest : store.Reps rest ts G :=
      hrest.congr fun pos hp => (hk.regions pos (hs pos (hG pos hp))).symm
    refine ⟨t :: ts, Gu + G, acc', A', fun pos hp => ?_, htree.cons hrest, htarget', by simpa using hacc',
      ha', hk.trans hk'⟩
    cases Multiset.mem_add.mp hp with
    | inl hp => exact hGu pos hp
    | inr hp => exact hG pos hp

theorem clone_value_at_clones (depth : Nat) : Clones (clone_value_at depth) := by
  induction depth with
  | zero =>
    intro store store' v v' S F K _ _ _ _ _ h
    cases h
  | succ depth ih =>
    intro store store' v v' S F K hS hs hplain hv ha h
    unfold clone_value_at at h
    split at h
    case h_1 hnone =>
      have hcopy : v' = v ∧ store' = store := by
        cases v <;> first | (cases h; exact ⟨rfl, rfl⟩) | cases hplain
      have htree : store.Reps [v] [.node (v.with_heap_pos 0) []] 0 := .singleton_leaf hnone
      obtain ⟨rfl, rfl⟩ := hcopy
      exact ⟨_, 0, 0, by simp, htree, htree, by rwa [zero_add], .refl, hplain⟩
    case h_2 source hsource =>
      generalize halloc : store.alloc_heap = allocated at h
      obtain ⟨target, store₁⟩ := allocated
      obtain ⟨ha₁, htarget, hk₁⟩ := ha.alloc_heap halloc
      have hp : S source := hv source hsource
      simp only [Except.bind_eq_ok, region_eq_ok] at h
      obtain ⟨us, hus₁, store₂, helements, h⟩ := h
      cases h
      rw [List.range_eq_range'] at helements
      have hus₁ : store₁.heap_regions[source]? = some ([] ++ us) := hus₁
      have hus := (hk₁.regions source (hs source hp)).symm.trans hus₁
      obtain ⟨ts, G, acc, A, hG, hchildren, hacc, hreps, ha₂, hk₂⟩ := ih.elements (hk₁.closed hs hS) hs hp
        hus₁ htarget .nil (by rwa [zero_add]) helements
      have hchildren : store.Reps us ts G :=
        hchildren.congr fun pos hp => (hk₁.regions pos (hs pos (hG pos hp))).symm
      have htree := RegionHeap.Reps.singleton_node (Value.get_heap_pos_with hsource) hacc hreps
      rw [Value.with_heap_pos_twice] at htree
      refine ⟨_, source ::ₘ G, target ::ₘ A, fun pos hm => ?_, .singleton_node hsource hus hchildren, htree,
        ha₂.cast (Multiset.cons_add ..).symm, hk₁.trans hk₂, Value.is_ref_with.trans hplain⟩
      cases Multiset.mem_cons.mp hm with
      | inl he => exact he ▸ hp
      | inr hm => exact hG pos hm

-- A region that values own.
structure InUse (store : Store) (K : Multiset HeapPos) (pos : HeapPos) : Prop where
  lt       : pos < store.heap_regions.length
  not_kept : pos ∉ K
  not_free : pos ∉ store.free_regions

-- Every region has one owner: a value at hand, a value in another region, the list of free regions, or
-- whoever it is kept for. No region holds a reference.
structure Owns (store : Store) (vs : List Value) (K : Multiset HeapPos) : Prop extends
    RegionHeap.Linear Value.get_heap_pos store.heap_regions store.free_regions vs K where
  plain : ∀ us ∈ store.heap_regions, ∀ u ∈ us, u.is_ref = false

namespace Owns

theorem perm {ws : List Value} (h : store.Owns vs K) (hp : vs.Perm ws) : store.Owns ws K where
  toLinear := h.toLinear.perm hp
  plain    := h.plain

theorem forget (h : store.Owns (v :: vs) K) : store.Owns vs K where
  toLinear := h.toLinear.forget
  plain    := h.plain

theorem forget_all {ws : List Value} (h : store.Owns (ws ++ vs) K) : store.Owns vs K := by
  induction ws with
  | nil          => exact h
  | cons w ws ih => exact ih h.forget

theorem of_none (h : store.Owns vs K) (hv : v.get_heap_pos = none) : store.Owns (v :: vs) K where
  toLinear := by
    refine h.toLinear.of_le (le_of_eq ?_) le_rfl h.empty
    rw [RegionHeap.pointers_cons, RegionHeap.pointers_none hv, zero_add]
  plain := h.plain

theorem keeps_lt (h : store.Owns vs K) (hk : store.Keeps store' (Multiset.range store.heap_regions.length)) :
    store.Keeps store' K :=
  hk.mono fun pos hp => Multiset.mem_range.mpr (h.lt pos (Multiset.mem_add.mpr (.inr hp)))

theorem alloc_heap (h : store.Owns vs K) (ha : store.alloc_heap = (pos, store'))
    (hv : v.get_heap_pos = some pos) :
    store'.Owns (v :: vs) K ∧ store'.heap_regions[pos]? = some [] ∧
      store.Keeps store' (Multiset.range store.heap_regions.length) ∧
      store'.free_regions ⊆ store.free_regions := by
  have hplain := alloc_heap_plain h.plain ha
  obtain ⟨stack, boundary, heap_regions, free_regions⟩ := store
  cases free_regions with
  | nil =>
    cases ha
    exact ⟨{ h.toLinear.alloc_new hv with plain := hplain }, by simp,
      ⟨rfl, rfl, fun p hp => List.getElem?_append_left (Multiset.mem_range.mp hp)⟩, List.Subset.refl _⟩
  | cons first free =>
    cases ha
    exact ⟨{ h.toLinear.alloc_free hv with plain := hplain }, h.empty pos List.mem_cons_self,
      ⟨rfl, rfl, fun _ _ => rfl⟩, List.subset_cons_self _ _⟩

-- A region and the values at hand exchange values.
theorem exchange {ws vs' : List Value} (h : store.Owns vs K) (hp : pos ∉ K)
    (hf : pos ∉ store.free_regions) (hus : store.heap_regions[pos]? = some us)
    (hw : ∀ w ∈ ws, w.is_ref = false) (he : (ws ++ vs').Perm (us ++ vs)) :
    (store.set_region pos ws).Owns vs' K ∧ store.Keeps (store.set_region pos ws) K := by
  refine ⟨{ toLinear := h.toLinear.exchange hp hf hus ?_, plain := ?_ }, keeps_set_region hp⟩
  · rw [← RegionHeap.pointers_append, ← RegionHeap.pointers_append, RegionHeap.pointers_perm he]
  · intro us' hus' u hu
    cases List.mem_or_eq_of_mem_set hus' with
    | inl hus' => exact h.plain us' hus' u hu
    | inr he   => exact hw u (he ▸ hu)

theorem in_use (h : store.Owns vs K) (hm : v ∈ vs) (hv : v.get_heap_pos = some pos) :
    store.InUse K pos := by
  have hp := RegionHeap.mem_pointers.mpr ⟨v, hm, hv⟩
  constructor
  case lt       => exact h.lt pos (by simp [hp])
  case not_kept => exact h.toLinear.not_kept (by simp [hp])
  case not_free => exact h.toLinear.not_free (by simp [hp])

-- The same of a value in a region.
theorem inner_in_use (h : store.Owns vs K) (hs : source ∉ K)
    (hus : store.heap_regions[source]? = some us) (hm : v ∈ us) (hv : v.get_heap_pos = some pos) :
    store.InUse K pos := by
  have hp := RegionHeap.mem_inner hs hus hm hv
  constructor
  case lt       => exact h.lt pos (by simp [hp])
  case not_kept => exact h.toLinear.not_kept (by simp [hp])
  case not_free => exact h.toLinear.not_free (by simp [hp])

theorem closed (h : store.Owns vs K) : store.Closed (store.InUse K) :=
  fun _ hp _ hus _ hu _ hv => h.inner_in_use hp.not_kept hus hu hv

theorem keep {ws : List Value} (hr : store.Reps ws ts F) (h : store.Owns (ws ++ vs) K) :
    store.Owns vs (F + K) where
  toLinear := h.toLinear.keep hr
  plain    := h.plain

theorem exists_reps {ws : List Value} (h : store.Owns (ws ++ vs) K) : ∃ ts F, store.Reps ws ts F :=
  h.toLinear.exists_reps store.heap_regions.length (Nat.le_add_left _ _)

-- All that is not free, as if it were kept.
theorem accounts (h : store.Owns vs K) :
    store.Accounts 0 (Multiset.range store.heap_regions.length - store.free_regions) where
  toAccounts := by
    have hn := h.nodup
    rw [add_right_comm, Multiset.nodup_add] at hn
    exact .of_free (Multiset.coe_nodup.mp hn.2.1) h.empty
  plain := h.plain

theorem plain_region (h : store.Owns vs K) (hus : store.heap_regions[pos]? = some us) (hu : v ∈ us) :
    v.is_ref = false :=
  h.plain us (List.mem_of_getElem? hus) v hu

end Owns

-- What a clone does to the owners: it comes with regions of its own.
def ClonesOwned (clone : Store → Value → Except Fault (Value × Store)) : Prop :=
  ∀ {store store' v v' vs K}, store.Owns vs K → v.is_ref = false → clone store v = .ok (v', store') →
    store'.Owns (v' :: vs) K ∧ store.Keeps store' K ∧ v'.is_ref = false ∧
      store'.free_regions ⊆ store.free_regions

theorem ClonesOwned.elements {clone : Store → Value → Except Fault (Value × Store)}
    (hc : ClonesOwned clone) {idxs : List Nat} (h : store.Owns vs K) (hm : v ∈ vs)
    (hv : v.get_heap_pos = some target)
    (he : clone_elements clone source target idxs store = .ok store') :
    store'.Owns vs K ∧ store.Keeps store' K ∧ store'.free_regions ⊆ store.free_regions := by
  induction idxs generalizing store with
  | nil =>
    cases he
    exact ⟨h, .refl, List.Subset.refl _⟩
  | cons idx idxs ih =>
    simp only [clone_elements, push_region, Except.bind_eq_ok, region_eq_ok] at he
    obtain ⟨value, hread, ⟨cloned, store₁⟩, hclone, store₂, ⟨acc, hacc, hpush⟩, he⟩ := he
    obtain ⟨us, hus, hvalue⟩ := read_region_eq_ok.mp hread
    have hplain := h.plain_region hus (List.mem_of_getElem? hvalue)
    obtain ⟨h₁, hk₁, hplain', hf₁⟩ := hc h hplain hclone
    cases hpush
    have hm₁ : v ∈ cloned :: vs := List.mem_cons_of_mem _ hm
    have hw : ∀ w ∈ acc ++ [cloned], w.is_ref = false := by
      intro w hw
      cases List.mem_append.mp hw with
      | inl hw => exact h₁.plain_region hacc hw
      | inr hw => exact List.mem_singleton.mp hw ▸ hplain'
    have hperm : (acc ++ [cloned] ++ vs).Perm (acc ++ cloned :: vs) := by simp
    obtain ⟨h₂, hk₂⟩ := h₁.exchange (h₁.in_use hm₁ hv).not_kept (h₁.in_use hm₁ hv).not_free hacc hw hperm
    obtain ⟨h', hk', hf'⟩ := ih h₂ he
    exact ⟨h', (hk₁.trans hk₂).trans hk', fun _ hp => hf₁ (hf' hp)⟩

theorem clone_value_at_clones_owned (depth : Nat) : ClonesOwned (clone_value_at depth) := by
  induction depth with
  | zero =>
    intro store store' v v' vs K _ _ h
    cases h
  | succ depth ih =>
    intro store store' v v' vs K h hplain hc
    unfold clone_value_at at hc
    split at hc
    case h_1 hnone =>
      have hcopy : v' = v ∧ store' = store := by
        cases v <;> first | (cases hc; exact ⟨rfl, rfl⟩) | cases hplain
      obtain ⟨rfl, rfl⟩ := hcopy
      exact ⟨h.of_none hnone, .refl, hplain, List.Subset.refl _⟩
    case h_2 source hsource =>
      generalize halloc : store.alloc_heap = allocated at hc
      obtain ⟨target, store₁⟩ := allocated
      have hv : (v.with_heap_pos target).get_heap_pos = some target := Value.get_heap_pos_with hsource
      obtain ⟨h₁, _, hk₁, hf₁⟩ := h.alloc_heap halloc hv
      simp only [Except.bind_eq_ok] at hc
      obtain ⟨values, _, store₂, helements, hc⟩ := hc
      cases hc
      obtain ⟨h₂, hk₂, hf₂⟩ := ih.elements h₁ List.mem_cons_self hv helements
      exact ⟨h₂, (h.keeps_lt hk₁).trans hk₂, Value.is_ref_with.trans hplain, fun _ hp => hf₁ (hf₂ hp)⟩

-- What a drop does to the owners: the region is free afterwards.
def DropsOwned (drop : Store → HeapPos → Except Fault Store) : Prop :=
  ∀ {store store' pos v vs K}, v.get_heap_pos = some pos → store.Owns (v :: vs) K →
    drop store pos = .ok store' →
    store'.Owns vs K ∧ store.Keeps store' K ∧ pos ∈ store'.free_regions ∧
      store.free_regions ⊆ store'.free_regions

theorem DropsOwned.elements {drop : Store → HeapPos → Except Fault Store} (hd : DropsOwned drop)
    {done rest : List Value} (hp : pos ∈ K) (hus : store.heap_regions[pos]? = some (done ++ rest))
    (h : store.Owns (rest ++ vs) K)
    (he : drop_elements drop pos (List.range' done.length rest.length) store = .ok store') :
    store'.Owns vs K ∧ store.Keeps store' K ∧ store.free_regions ⊆ store'.free_regions := by
  induction rest generalizing done store with
  | nil =>
    cases he
    exact ⟨h, .refl, List.Subset.refl _⟩
  | cons u rest ih =>
    simp only [List.length_cons, List.range'_succ, drop_elements, Except.bind_eq_ok] at he
    obtain ⟨value, hread, he⟩ := he
    obtain ⟨_, hus', hvalue⟩ := read_region_eq_ok.mp hread
    cases hus.symm.trans hus'
    obtain rfl : u = value := by simpa using hvalue
    have hstep : ∃ store₁, store₁.Owns (rest ++ vs) K ∧ store.Keeps store₁ K ∧
        store.free_regions ⊆ store₁.free_regions ∧
        drop_elements drop pos (List.range' (done.length + 1) rest.length) store₁ = .ok store' := by
      cases hpos : u.get_heap_pos with
      | none =>
        rw [hpos] at he
        exact ⟨store, h.forget, .refl, List.Subset.refl _, he⟩
      | some other =>
        rw [hpos] at he
        obtain ⟨store₁, hdrop, he⟩ := Except.bind_eq_ok.mp he
        obtain ⟨h₁, hk₁, _, hf₁⟩ := hd hpos h hdrop
        exact ⟨store₁, h₁, hk₁, hf₁, he⟩
    obtain ⟨store₁, h₁, hk₁, hf₁, he⟩ := hstep
    have hus₁ := (hk₁.regions pos hp).trans hus
    rw [List.append_cons done u rest] at hus₁
    have hlen : done.length + 1 = (done ++ [u]).length := by simp
    rw [hlen] at he
    obtain ⟨h', hk', hf'⟩ := ih hus₁ h₁ he
    exact ⟨h', hk₁.trans hk', fun _ hp => hf' (hf₁ hp)⟩

theorem drop_heap_pos_at_drops_owned (depth : Nat) : DropsOwned (drop_heap_pos_at depth) := by
  induction depth with
  | zero =>
    intro store store' pos v vs K _ _ h
    cases h
  | succ depth ih =>
    intro store store' pos v vs K hv h hd
    simp only [drop_heap_pos_at, Except.bind_eq_ok, region_eq_ok] at hd
    obtain ⟨us, hus, store₁, helements, _, _, hd⟩ := hd
    cases hd
    rw [List.range_eq_range'] at helements
    have hus₀ : store.heap_regions[pos]? = some ([] ++ us) := hus
    have h₀ : store.Owns (us ++ vs) (pos ::ₘ K) := ⟨h.toLinear.take hv hus, h.plain⟩
    obtain ⟨h₁, hk₁, hf₁⟩ := ih.elements (Multiset.mem_cons_self _ _) hus₀ h₀ helements
    have hk₂ : store₁.Keeps (store₁.set_region pos []) K := 
      keeps_set_region (h.in_use List.mem_cons_self hv).not_kept
    have hk := (hk₁.mono fun p (hp : p ∈ K) => Multiset.mem_cons_of_mem hp).trans hk₂
    refine ⟨{ toLinear := h₁.toLinear.release, plain := ?_ }, ⟨hk.stack, hk.boundary, hk.regions⟩,
      List.mem_cons_self, fun p hp => List.mem_cons_of_mem _ (hf₁ hp)⟩
    intro us' hus' u hu
    cases List.mem_or_eq_of_mem_set hus' with
    | inl hus' => exact h₁.plain us' hus' u hu
    | inr he   => exact absurd (he ▸ hu) List.not_mem_nil

theorem clone_value_owned : ClonesOwned clone_value :=
  fun h hp hc => clone_value_at_clones_owned _ h hp hc

-- The clone stands for what the value stands for.
theorem clone_value_reps {depth : Nat} (h : store.Owns vs K) (hp : v.is_ref = false)
    (hv : ∀ pos, v.get_heap_pos = some pos → store.InUse K pos)
    (hc : clone_value_at depth store v = .ok (v', store')) :
    ∃ t F F', store.Reps [v] [t] F ∧ store'.Reps [v'] [t] F' := by
  have ha := h.accounts
  have hs (pos : HeapPos) (hu : store.InUse K pos) :
      pos ∈ 0 + (Multiset.range store.heap_regions.length - store.free_regions) := by
    have hm := Multiset.mem_range.mpr hu.lt
    rw [← ha.all] at hm
    simpa [hu.not_free] using hm
  obtain ⟨t, F, F', _, ht, ht', _⟩ := clone_value_at_clones depth h.closed hs hp hv ha hc
  exact ⟨t, F, F', ht, ht'⟩

-- A clone of a reference is a clone of what it refers to.
theorem clone_value_eq_ok (h : store.clone_value v = .ok (v', store')) :
    ∃ w depth, store.maybe_read_ref v = .ok w ∧ clone_value_at depth store w = .ok (v', store') := by
  by_cases hv : v.is_ref
  case neg =>
    refine ⟨v, store.depth, ?_, h⟩
    cases v <;> first | rfl | exact absurd rfl hv
  case pos =>
    cases v with
    | ref id =>
      obtain ⟨w, hr, hc⟩ := Except.bind_eq_ok.mp h
      exact ⟨w, _, hr, hc⟩
    | _ => cases hv

theorem drop_value_owned (h : store.Owns (v :: vs) K) (hd : store.drop_value v.get_heap_pos = .ok store') :
    store'.Owns vs K ∧ store.Keeps store' K ∧
      (∀ pos, v.get_heap_pos = some pos → pos ∈ store'.free_regions) ∧
      store.free_regions ⊆ store'.free_regions := by
  cases hv : v.get_heap_pos with
  | none =>
    rw [hv] at hd
    cases hd
    exact ⟨h.forget, .refl, by simp, List.Subset.refl _⟩
  | some pos =>
    rw [hv] at hd
    obtain ⟨h', hk, hp, hf⟩ := drop_heap_pos_at_drops_owned _ hv h hd
    exact ⟨h', hk, fun _ he => Option.some.inj he ▸ hp, hf⟩

end Store

end Reowolf
