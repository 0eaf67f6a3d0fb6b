import Mathlib.Algebra.BigOperators.Group.Finset.Basic
import Mathlib.Algebra.Order.Group.Multiset
import Mathlib.Data.List.Perm.Basic
import Mathlib.Data.Multiset.Range
import Mathlib.Tactic.Abel

-- A heap of regions, each a list of values, in which a value may own a region.
namespace RegionHeap

theorem set_perm {α : Type} {l : List α} {i : Nat} {a b : α} (h : l[i]? = some a) :
    (a :: l.set i b).Perm (b :: l) := by
  induction l generalizing i with
  | nil => cases h
  | cons x l ih =>
    cases i with
    | zero =>
      cases h
      exact .swap _ _ _
    | succ i => exact (List.Perm.swap _ _ _).trans (((ih h).cons x).trans (.swap _ _ _))

-- What a value stands for, wherever its region is.
inductive Tree (α : Type) where
  | node (label : α) (children : List (Tree α))

-- Values that own what is below them: the trees that they stand for, and the regions that they take up.
inductive Reps {α : Type} (ptr : α → Option Nat) (label : α → α) (heap : List (List α)) :
    List α → List (Tree α) → Multiset Nat → Prop
  | nil : Reps ptr label heap [] [] 0
  | leaf {v vs ts F} : ptr v = none → Reps ptr label heap vs ts F →
    Reps ptr label heap (v :: vs) (.node (label v) [] :: ts) F
  | node {v pos us children G vs ts F} : ptr v = some pos → heap[pos]? = some us →
    Reps ptr label heap us children G → Reps ptr label heap vs ts F →
    Reps ptr label heap (v :: vs) (.node (label v) children :: ts) (pos ::ₘ (G + F))

variable {α : Type} {ptr : α → Option Nat} {label : α → α} {heap heap' : List (List α)}
variable {vs ws us : List α} {ts ts' : List (Tree α)} {F F' G : Multiset Nat} {v u : α} {pos : Nat}

namespace Reps

theorem congr (h : Reps ptr label heap vs ts F) (hk : ∀ pos ∈ F, heap'[pos]? = heap[pos]?) :
    Reps ptr label heap' vs ts F := by
  induction h with
  | nil            => exact .nil
  | leaf hv _ ih   => exact .leaf hv (ih hk)
  | node hv hus _ _ ih₁ ih₂ =>
    simp only [Multiset.mem_cons, Multiset.mem_add] at hk
    exact .node hv ((hk _ (.inl rfl)).trans hus) (ih₁ fun pos hp => hk pos (.inr (.inl hp)))
      (ih₂ fun pos hp => hk pos (.inr (.inr hp)))

theorem length (h : Reps ptr label heap vs ts F) : ts.length = vs.length := by
  induction h with
  | nil => rfl
  | leaf _ _ ih | node _ _ _ _ _ ih => simp [ih]

theorem append (h : Reps ptr label heap vs ts F) (h' : Reps ptr label heap ws ts' F') :
    Reps ptr label heap (vs ++ ws) (ts ++ ts') (F + F') := by
  induction h with
  | nil          => simpa using h'
  | leaf hv _ ih => exact .leaf hv ih
  | node hv hus h₁ _ _ ih =>
    rw [Multiset.cons_add, add_assoc]
    exact .node hv hus h₁ ih

theorem cons {t : Tree α} (h : Reps ptr label heap [v] [t] G) (h' : Reps ptr label heap vs ts F) :
    Reps ptr label heap (v :: vs) (t :: ts) (G + F) :=
  h.append h'

theorem singleton_leaf (hv : ptr v = none) : Reps ptr label heap [v] [.node (label v) []] 0 :=
  .leaf hv .nil

theorem singleton_node (hv : ptr v = some pos) (hus : heap[pos]? = some us)
    (h : Reps ptr label heap us ts F) :
    Reps ptr label heap [v] [.node (label v) ts] (pos ::ₘ F) := by
  simpa using Reps.node hv hus h .nil

-- Values stand for one thing.
theorem unique (h : Reps ptr label heap vs ts F) (h' : Reps ptr label heap vs ts' F') :
    ts' = ts ∧ F' = F := by
  induction h generalizing ts' F' with
  | nil =>
    cases h'
    exact ⟨rfl, rfl⟩
  | leaf hv _ ih =>
    cases h' with
    | leaf _ h' =>
      obtain ⟨ht, hF⟩ := ih h'
      exact ⟨ht ▸ rfl, hF⟩
    | node hv' => cases hv.symm.trans hv'
  | node hv hus _ _ ih₁ ih₂ =>
    cases h' with
    | leaf hv' => cases hv.symm.trans hv'
    | node hv' hus' h₁ h₂ =>
      cases hv.symm.trans hv'
      cases hus.symm.trans hus'
      obtain ⟨ht₁, hG⟩ := ih₁ h₁
      obtain ⟨ht₂, hF⟩ := ih₂ h₂
      exact ⟨ht₁ ▸ ht₂ ▸ rfl, hG ▸ hF ▸ rfl⟩

theorem uncons (h : Reps ptr label heap (v :: vs) ts F) :
    ∃ t ts' G F', ts = t :: ts' ∧ F = G + F' ∧ Reps ptr label heap [v] [t] G ∧
      Reps ptr label heap vs ts' F' := by
  cases h with
  | leaf hv h'       => exact ⟨_, _, 0, _, rfl, (zero_add _).symm, .singleton_leaf hv, h'⟩
  | node hv hus h' h₂ =>
    exact ⟨_, _, _, _, rfl, (Multiset.cons_add _ _ _).symm, .singleton_node hv hus h', h₂⟩

theorem of_some {t : Tree α} (h : Reps ptr label heap [v] [t] F) (hp : ptr v = some pos) :
    ∃ us children G, F = pos ::ₘ G ∧ t = .node (label v) children ∧ heap[pos]? = some us ∧
      Reps ptr label heap us children G := by
  cases h with
  | leaf hnone => cases hnone.symm.trans hp
  | node hp' hus h' hnil =>
    cases hp'.symm.trans hp
    cases hnil
    exact ⟨_, _, _, by rw [add_zero], rfl, hus, h'⟩

-- A value that stands for a tree has nothing below it, or it has a region.
theorem of_singleton {t : Tree α} (h : Reps ptr label heap [v] [t] F) :
    (ptr v = none ∧ t = .node (label v) []) ∨ ∃ (pos : Nat) (us : List α) (children : List (Tree α))
      (G : Multiset Nat), ptr v = some pos ∧ F = pos ::ₘ G ∧ t = .node (label v) children ∧
        heap[pos]? = some us ∧ Reps ptr label heap us children G := by
  cases hv : ptr v with
  | none =>
    cases h with
    | leaf     => exact .inl ⟨rfl, rfl⟩
    | node hv' => cases hv.symm.trans hv'
  | some pos =>
    obtain ⟨us, children, G, hF, ht, hus, hr⟩ := h.of_some hv
    exact .inr ⟨pos, us, children, G, rfl, hF, ht, hus, hr⟩

theorem of_mem (h : Reps ptr label heap vs ts F) (hv : v ∈ vs) :
    ∃ t G, Reps ptr label heap [v] [t] G ∧ G ≤ F := by
  induction h with
  | nil => cases hv
  | leaf hnone _ ih =>
    cases List.mem_cons.mp hv with
    | inl he =>
      subst he
      exact ⟨_, 0, .singleton_leaf hnone, Multiset.zero_le _⟩
    | inr hv => exact ih hv
  | node hp hus h₁ _ _ ih =>
    cases List.mem_cons.mp hv with
    | inl he =>
      subst he
      refine ⟨_, _, .singleton_node hp hus h₁, ?_⟩
      rw [← Multiset.cons_add]
      exact Multiset.le_add_right _ _
    | inr hv =>
      obtain ⟨t, G', h', hle⟩ := ih hv
      refine ⟨t, G', h', hle.trans ?_⟩
      rw [← Multiset.cons_add]
      exact Multiset.le_add_left _ _

-- What is in one of the regions.
theorem inside (h : Reps ptr label heap vs ts F) (hp : pos ∈ F) :
    ∃ us children G, heap[pos]? = some us ∧ Reps ptr label heap us children G ∧ pos ::ₘ G ≤ F := by
  induction h with
  | nil          => cases hp
  | leaf _ _ ih  => exact ih hp
  | @node v' p us' children G' vs' ts' F' hv hus h₁ h₂ ih₁ ih₂ =>
    have hle₁ : G' ≤ p ::ₘ (G' + F') := (Multiset.le_add_right _ _).trans (Multiset.le_cons_self _ _)
    have hle₂ : F' ≤ p ::ₘ (G' + F') := (Multiset.le_add_left _ _).trans (Multiset.le_cons_self _ _)
    simp only [Multiset.mem_cons, Multiset.mem_add] at hp
    obtain rfl | hp | hp := hp
    · exact ⟨_, _, _, hus, h₁, Multiset.cons_le_cons _ (Multiset.le_add_right _ _)⟩
    · obtain ⟨us, children, G, hus, h, hle⟩ := ih₁ hp
      exact ⟨us, children, G, hus, h, hle.trans hle₁⟩
    · obtain ⟨us, children, G, hus, h, hle⟩ := ih₂ hp
      exact ⟨us, children, G, hus, h, hle.trans hle₂⟩

theorem lt_length (h : Reps ptr label heap vs ts F) (hp : pos ∈ F) : pos < heap.length := by
  obtain ⟨_, _, _, hus, _⟩ := h.inside hp
  exact (List.getElem?_eq_some_iff.mp hus).1

theorem card_le (h : Reps ptr label heap vs ts F) (hn : F.Nodup) : Multiset.card F ≤ heap.length := by
  have hsub : F ⊆ Multiset.range heap.length := fun pos hp => Multiset.mem_range.mpr (h.lt_length hp)
  simpa using Multiset.card_le_card ((Multiset.le_iff_subset hn).mpr hsub)

theorem pointer_mem (h : Reps ptr label heap vs ts F) (hv : v ∈ vs) (hp : ptr v = some pos) : pos ∈ F := by
  obtain ⟨_, G, h', hle⟩ := h.of_mem hv
  cases h' with
  | leaf hnone _ => cases hnone.symm.trans hp
  | node hp' =>
    cases hp'.symm.trans hp
    exact Multiset.mem_of_le hle (Multiset.mem_cons_self _ _)

end Reps

-- Every region is in use, free, or kept for somebody else, and only one of these, once.
structure Accounts (heap : List (List α)) (free : List Nat) (F K : Multiset Nat) : Prop where
  all   : F + free + K = Multiset.range heap.length
  empty : ∀ pos ∈ free, heap[pos]? = some []

namespace Accounts

variable {free : List Nat} {K : Multiset Nat}

-- All that is not free counts as kept.
theorem of_free (hn : free.Nodup) (he : ∀ pos ∈ free, heap[pos]? = some []) :
    Accounts heap free 0 (Multiset.range heap.length - free) where
  all := by
    have hsub : (free : Multiset Nat) ≤ Multiset.range heap.length := by
      refine (Multiset.le_iff_subset (Multiset.coe_nodup.mpr hn)).mpr fun pos hp => ?_
      exact Multiset.mem_range.mpr (List.getElem?_eq_some_iff.mp (he pos hp)).1
    rw [zero_add, add_tsub_cancel_of_le hsub]
  empty := he

theorem nodup (h : Accounts heap free F K) : (F + free + K).Nodup :=
  h.all ▸ Multiset.nodup_range _

theorem lt_length (h : Accounts heap free F K) (hp : pos ∈ F + free + K) : pos < heap.length :=
  Multiset.mem_range.mp (h.all ▸ hp)

theorem not_kept (h : Accounts heap free F K) (hp : pos ∈ F) : pos ∉ K := by
  have hn := h.nodup
  rw [Multiset.nodup_add] at hn
  exact Multiset.disjoint_left.mp hn.2.2 (Multiset.mem_add.mpr (.inl hp))

theorem not_free (h : Accounts heap free F K) (hp : pos ∈ F) : pos ∉ free := by
  have hn := h.nodup
  rw [Multiset.nodup_add, Multiset.nodup_add] at hn
  exact fun hf => Multiset.disjoint_left.mp hn.1.2.2 hp (Multiset.mem_coe.mpr hf)

theorem apart_cons (h : Accounts heap free (pos ::ₘ F) K) : pos ∉ F := by
  have hn := h.nodup
  rw [Multiset.nodup_add, Multiset.nodup_add] at hn
  exact (Multiset.nodup_cons.mp hn.1.1).1

theorem alloc_free (h : Accounts heap (pos :: free) F K) : Accounts heap free (pos ::ₘ F) K where
  all := by
    rw [← h.all, ← Multiset.cons_coe, Multiset.cons_add, Multiset.add_cons]
  empty p hp := h.empty p (List.mem_cons_of_mem _ hp)

theorem alloc_new (h : Accounts heap [] F K) :
    Accounts (heap ++ [[]]) [] (heap.length ::ₘ F) K where
  all := by
    rw [List.length_append, List.length_singleton, Multiset.range_succ, ← h.all, Multiset.cons_add,
      Multiset.cons_add]
  empty _ hp := by cases hp

theorem set (h : Accounts heap free F K) (hp : pos ∈ F) : Accounts (heap.set pos us) free F K where
  all := by rw [List.length_set, h.all]
  empty p hf := by
    have hne : pos ≠ p := fun he => h.not_free hp (he ▸ hf)
    rw [List.getElem?_set_ne hne, h.empty p hf]

end Accounts

-- The regions that values own at once.
def pointers (ptr : α → Option Nat) (vs : List α) : Multiset Nat := vs.filterMap ptr

-- The regions that values in other regions own, but for those in the regions that are kept.
def inner (ptr : α → Option Nat) (heap : List (List α)) (K : Multiset Nat) : Multiset Nat :=
  ∑ pos ∈ (Finset.range heap.length).filter (· ∉ K), pointers ptr (heap.getD pos [])

@[simp]
theorem pointers_nil : pointers ptr ([] : List α) = 0 := rfl

theorem pointers_append : pointers ptr (vs ++ ws) = pointers ptr vs + pointers ptr ws := by
  simp only [pointers, List.filterMap_append, Multiset.coe_add]

theorem pointers_cons : pointers ptr (v :: vs) = pointers ptr [v] + pointers ptr vs :=
  (pointers_append : pointers ptr ([v] ++ vs) = _)

theorem pointers_perm (h : vs.Perm ws) : pointers ptr vs = pointers ptr ws :=
  Multiset.coe_eq_coe.mpr (h.filterMap ptr)

theorem pointers_none (h : ptr v = none) : pointers ptr [v] = 0 := by
  simp [pointers, h]

theorem pointers_some (h : ptr v = some pos) : pointers ptr [v] = {pos} := by
  simp [pointers, h]

theorem mem_pointers : pos ∈ pointers ptr vs ↔ ∃ v ∈ vs, ptr v = some pos := by
  simp [pointers]

variable {K : Multiset Nat}

-- A region is kept from now on.
theorem inner_keep (hp : pos ∉ K) (hus : heap[pos]? = some us) :
    inner ptr heap K = pointers ptr us + inner ptr heap (pos ::ₘ K) := by
  have hlt : pos < heap.length := (List.getElem?_eq_some_iff.mp hus).1
  have hmem : pos ∈ (Finset.range heap.length).filter (· ∉ K) := by simp [hlt, hp]
  have herase : (Finset.range heap.length).filter (· ∉ pos ::ₘ K) =
      ((Finset.range heap.length).filter (· ∉ K)).erase pos := by
    ext q
    simp only [Finset.mem_filter, Finset.mem_erase, Multiset.mem_cons]
    tauto
  rw [inner, inner, herase, ← Finset.add_sum_erase _ _ hmem, List.getD_eq_getElem?_getD, hus]
  rfl

theorem inner_set_kept (hp : pos ∈ K) : inner ptr (heap.set pos us) K = inner ptr heap K := by
  rw [inner, inner, List.length_set]
  refine Finset.sum_congr rfl fun q hq => ?_
  have hne : pos ≠ q := fun he => (Finset.mem_filter.mp hq).2 (he ▸ hp)
  rw [List.getD_eq_getElem?_getD, List.getD_eq_getElem?_getD, List.getElem?_set_ne hne]

theorem inner_new : inner ptr (heap ++ [[]]) K = inner ptr heap K := by
  rw [inner, inner, List.length_append, List.length_singleton, Finset.range_add_one, Finset.filter_insert]
  have hsum : ∑ q ∈ (Finset.range heap.length).filter (· ∉ K), pointers ptr ((heap ++ [[]]).getD q []) =
      ∑ q ∈ (Finset.range heap.length).filter (· ∉ K), pointers ptr (heap.getD q []) := by
    refine Finset.sum_congr rfl fun q hq => ?_
    have hlt : q < heap.length := by simpa using (Finset.mem_filter.mp hq).1
    rw [List.getD_eq_getElem?_getD, List.getD_eq_getElem?_getD, List.getElem?_append_left hlt]
  split
  · rw [Finset.sum_insert (by simp), hsum]
    simp
  · exact hsum

theorem mem_inner {q : Nat} (hp : pos ∉ K) (hus : heap[pos]? = some us) (hv : v ∈ us)
    (hq : ptr v = some q) : q ∈ inner ptr heap K := by
  rw [inner_keep hp hus, Multiset.mem_add]
  exact .inl (mem_pointers.mpr ⟨v, hv, hq⟩)

-- Every region has one owner: a value at hand, a value in another region, the list of free regions, or
-- whoever it is kept for.
structure Linear (ptr : α → Option Nat) (heap : List (List α)) (free : List Nat) (vs : List α)
    (K : Multiset Nat) : Prop where
  nodup : (pointers ptr vs + inner ptr heap K + free + K).Nodup
  lt    : ∀ pos ∈ pointers ptr vs + inner ptr heap K + free + K, pos < heap.length
  empty : ∀ pos ∈ free, heap[pos]? = some []

namespace Linear

variable {free : List Nat}

theorem perm (h : Linear ptr heap free vs K) (hp : vs.Perm ws) : Linear ptr heap free ws K where
  nodup := pointers_perm hp ▸ h.nodup
  lt    := pointers_perm hp ▸ h.lt
  empty := h.empty

-- What a change of the accounts leaves of them.
theorem of_le {free' : List Nat} {K' : Multiset Nat} (h : Linear ptr heap free vs K)
    (hle : pointers ptr ws + inner ptr heap' K' + free' + K' ≤ pointers ptr vs + inner ptr heap K + free + K)
    (hlen : heap.length ≤ heap'.length) (hempty : ∀ pos ∈ free', heap'[pos]? = some []) :
    Linear ptr heap' free' ws K' where
  nodup        := Multiset.nodup_of_le hle h.nodup
  lt pos hp    := (h.lt pos (Multiset.mem_of_le hle hp)).trans_le hlen
  empty        := hempty

theorem forget (h : Linear ptr heap free (v :: vs) K) : Linear ptr heap free vs K := by
  refine h.of_le ?_ le_rfl h.empty
  rw [pointers_cons, add_assoc, add_assoc, add_assoc, add_assoc, add_assoc]
  exact Multiset.le_add_left _ _

theorem not_kept (h : Linear ptr heap free vs K) (hp : pos ∈ pointers ptr vs + inner ptr heap K) :
    pos ∉ K := by
  have hn := h.nodup
  rw [Multiset.nodup_add] at hn
  exact Multiset.disjoint_left.mp hn.2.2 (Multiset.mem_add.mpr (.inl hp))

theorem free_not_kept (h : Linear ptr heap free vs K) (hp : pos ∈ free) : pos ∉ K := by
  have hn := h.nodup
  rw [Multiset.nodup_add] at hn
  refine Multiset.disjoint_left.mp hn.2.2 ?_
  simp only [Multiset.mem_add, Multiset.mem_coe]
  exact .inr hp

theorem not_free (h : Linear ptr heap free vs K) (hp : pos ∈ pointers ptr vs + inner ptr heap K + K) :
    pos ∉ free := by
  have hn := h.nodup
  rw [add_right_comm, Multiset.nodup_add] at hn
  exact fun hf => Multiset.disjoint_left.mp hn.2.2 hp (Multiset.mem_coe.mpr hf)

theorem alloc_free (h : Linear ptr heap (pos :: free) vs K) (hv : ptr v = some pos) :
    Linear ptr heap free (v :: vs) K := by
  refine h.of_le (le_of_eq ?_) le_rfl fun p hp => h.empty p (List.mem_cons_of_mem _ hp)
  rw [pointers_cons, pointers_some hv, ← Multiset.cons_coe, ← Multiset.singleton_add pos (free : Multiset Nat)]
  abel

theorem alloc_new (h : Linear ptr heap [] vs K) (hv : ptr v = some heap.length) :
    Linear ptr (heap ++ [[]]) [] (v :: vs) K := by
  have hsum : pointers ptr (v :: vs) + inner ptr (heap ++ [[]]) K + ↑([] : List Nat) + K =
      heap.length ::ₘ (pointers ptr vs + inner ptr heap K + ↑([] : List Nat) + K) := by
    rw [pointers_cons, pointers_some hv, inner_new, ← Multiset.singleton_add]
    abel
  constructor
  case nodup =>
    rw [hsum]
    exact Multiset.nodup_cons.mpr ⟨fun hm => Nat.lt_irrefl _ (h.lt _ hm), h.nodup⟩
  case lt =>
    intro p hp
    rw [hsum] at hp
    rw [List.length_append, List.length_singleton]
    cases Multiset.mem_cons.mp hp with
    | inl he => exact he ▸ Nat.lt_succ_self _
    | inr hp => exact (h.lt p hp).trans (Nat.lt_succ_self _)
  case empty =>
    intro p hp
    cases hp

-- A region and the values at hand exchange values.
theorem exchange {vs' : List α} (h : Linear ptr heap free vs K) (hp : pos ∉ K) (hf : pos ∉ free)
    (hus : heap[pos]? = some us) (he : pointers ptr ws + pointers ptr vs' = pointers ptr us + pointers ptr vs) :
    Linear ptr (heap.set pos ws) free vs' K := by
  refine h.of_le (le_of_eq ?_) (by rw [List.length_set]) fun p hm => ?_
  · have hi : inner ptr heap K = _ := inner_keep hp hus
    have hlt : pos < heap.length := (List.getElem?_eq_some_iff.mp hus).1
    rw [hi, inner_keep hp (List.getElem?_set_self hlt), inner_set_kept (Multiset.mem_cons_self _ _)]
    have hsum (I : Multiset Nat) : pointers ptr vs' + (pointers ptr ws + I) =
        pointers ptr vs + (pointers ptr us + I) := by
      rw [← add_assoc, add_comm (pointers ptr vs'), he, add_comm (pointers ptr us), add_assoc]
    rw [hsum]
  · have hne : pos ≠ p := fun he => hf (he ▸ hm)
    rw [List.getElem?_set_ne hne, h.empty p hm]

-- A value is taken apart, and its region is kept.
theorem take (h : Linear ptr heap free (v :: vs) K) (hv : ptr v = some pos) (hus : heap[pos]? = some us) :
    Linear ptr heap free (us ++ vs) (pos ::ₘ K) := by
  have hp : pos ∉ K := by
    apply h.not_kept
    rw [Multiset.mem_add]
    exact .inl (mem_pointers.mpr ⟨v, List.mem_cons_self, hv⟩)
  refine h.of_le (le_of_eq ?_) le_rfl h.empty
  rw [pointers_cons, pointers_some hv, inner_keep hp hus, pointers_append, ← Multiset.singleton_add]
  abel

-- A region that is kept is freed.
theorem release (h : Linear ptr heap free vs (pos ::ₘ K)) :
    Linear ptr (heap.set pos []) (pos :: free) vs K := by
  have hlt : pos < heap.length := h.lt pos (by simp)
  have hp : pos ∉ K := by
    have hn := h.nodup
    rw [Multiset.nodup_add] at hn
    exact (Multiset.nodup_cons.mp hn.2.1).1
  refine h.of_le (le_of_eq ?_) (by rw [List.length_set]) fun p hm => ?_
  · rw [inner_keep hp (List.getElem?_set_self hlt), inner_set_kept (Multiset.mem_cons_self _ _),
      pointers_nil, zero_add, ← Multiset.cons_coe, ← Multiset.singleton_add pos (free : Multiset Nat),
      ← Multiset.singleton_add pos K]
    abel
  · cases List.mem_cons.mp hm with
    | inl he => rw [he, List.getElem?_set_self hlt]
    | inr hm =>
      have hne : pos ≠ p := fun he => h.free_not_kept hm (he ▸ Multiset.mem_cons_self _ _)
      rw [List.getElem?_set_ne hne, h.empty p hm]

-- All that values stand for is kept.
theorem keep (hr : Reps ptr label heap ws ts F) (h : Linear ptr heap free (ws ++ vs) K) :
    Linear ptr heap free vs (F + K) := by
  induction hr generalizing vs K with
  | nil => rwa [zero_add]
  | leaf _ _ ih => exact ih h.forget
  | @node v pos us children G vs' ts F hv hus _ _ ih₁ ih₂ =>
    have h' : Linear ptr heap free vs (F + (G + pos ::ₘ K)) := ih₂ (ih₁ (h.take hv hus))
    have hK : F + (G + pos ::ₘ K) = pos ::ₘ (G + F) + K := by
      simp only [← Multiset.singleton_add]
      abel
    exact hK ▸ h'

theorem card_le (h : Linear ptr heap free vs K) : Multiset.card K ≤ heap.length := by
  have hn : K.Nodup := (Multiset.nodup_add.mp h.nodup).2.1
  have hsub : K ⊆ Multiset.range heap.length := fun pos hp =>
    Multiset.mem_range.mpr (h.lt pos (Multiset.mem_add.mpr (.inr hp)))
  simpa using Multiset.card_le_card ((Multiset.le_iff_subset hn).mpr hsub)

-- Values at hand stand for something: they can be taken apart, and this comes to an end as no region is
-- reached twice.
theorem exists_reps (n : Nat) {ws vs : List α} {K : Multiset Nat} (h : Linear ptr heap free (ws ++ vs) K)
    (hn : heap.length ≤ Multiset.card K + n) : ∃ ts F, Reps ptr label heap ws ts F :=
  match ws with
  | [] => ⟨[], 0, .nil⟩
  | w :: ws => by
    obtain ⟨ts, F, hr⟩ := exists_reps n h.forget hn
    cases hw : ptr w with
    | none => exact ⟨_, F, .leaf hw hr⟩
    | some pos =>
      have hlt : pos < heap.length := h.lt pos (by simp [pointers, hw])
      have hus : heap[pos]? = some heap[pos] := List.getElem?_eq_getElem hlt
      have h' := h.take hw hus
      have hcard := h'.card_le
      rw [Multiset.card_cons] at hcard
      match n with
      | 0     => exact absurd hn (by omega)
      | n + 1 =>
        have hn' : heap.length ≤ Multiset.card (pos ::ₘ K) + n := by
          rw [Multiset.card_cons]
          omega
        obtain ⟨_, _, hr'⟩ := exists_reps n h' hn'
        exact ⟨_, _, .node hw hus hr' hr⟩
termination_by (n, ws.length)

end Linear

end RegionHeap
