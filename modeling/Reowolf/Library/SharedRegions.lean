import Mathlib.Order.Interval.Finset.Nat
import Reowolf.Library.RegionHeap

-- Values that may refer to one another and may share regions.
namespace RegionHeap

namespace Tree

variable {α : Type}

mutual

def height : Tree α → Nat
  | node _ children => heights children + 1

def heights : List (Tree α) → Nat
  | []      => 0
  | t :: ts => max t.height (heights ts)

end

variable {label : α} {t : Tree α} {ts ts' : List (Tree α)}

@[simp]
theorem heights_nil : heights ([] : List (Tree α)) = 0 := rfl

@[simp]
theorem heights_cons : heights (t :: ts) = max t.height (heights ts) := rfl

@[simp]
theorem height_node : (node label ts).height = heights ts + 1 := rfl

end Tree

-- The trees that values stand for: `read` says what a value refers to, which is the value itself if it
-- is not a reference.
inductive Denotes {α : Type} (read : α → Option α) (ptr : α → Option Nat) (label : α → α)
    (heap : List (List α)) : List α → List (Tree α) → Prop
  | nil : Denotes read ptr label heap [] []
  | leaf {v w vs ts} : read v = some w → ptr w = none → Denotes read ptr label heap vs ts →
    Denotes read ptr label heap (v :: vs) (.node (label w) [] :: ts)
  | node {v w pos us children vs ts} : read v = some w → ptr w = some pos → heap[pos]? = some us →
    Denotes read ptr label heap us children → Denotes read ptr label heap vs ts →
    Denotes read ptr label heap (v :: vs) (.node (label w) children :: ts)

variable {α : Type} {read : α → Option α} {ptr : α → Option Nat} {label : α → α} {heap : List (List α)}
variable {vs ws us : List α} {ts ts' children : List (Tree α)} {t : Tree α} {F : Multiset Nat} {v w : α} {pos : Nat}

namespace Denotes

theorem length (h : Denotes read ptr label heap vs ts) : ts.length = vs.length := by
  induction h with
  | nil => rfl
  | leaf _ _ _ ih | node _ _ _ _ _ _ ih => simp [ih]

theorem append (h : Denotes read ptr label heap vs ts) (h' : Denotes read ptr label heap ws ts') :
    Denotes read ptr label heap (vs ++ ws) (ts ++ ts') := by
  induction h with
  | nil                        => exact h'
  | leaf hr hv _ ih            => exact .leaf hr hv ih
  | node hr hv hus h₁ _ _ ih   => exact .node hr hv hus h₁ ih

theorem mono {heap' : List (List α)} (h : Denotes read ptr label heap vs ts)
    (hk : ∀ (pos : Nat) (us : List α), heap[pos]? = some us → heap'[pos]? = some us) :
    Denotes read ptr label heap' vs ts := by
  induction h with
  | nil                            => exact .nil
  | leaf hr hv _ ih                => exact .leaf hr hv ih
  | node hr hv hus _ _ ih₁ ih₂     => exact .node hr hv (hk _ _ hus) ih₁ ih₂

-- Values stand for one thing.
theorem unique (h : Denotes read ptr label heap vs ts) (h' : Denotes read ptr label heap vs ts') :
    ts' = ts := by
  induction h generalizing ts' with
  | nil =>
    cases h'
    rfl
  | leaf hr hv _ ih =>
    cases h' with
    | leaf hr' _ h' =>
      cases hr.symm.trans hr'
      exact ih h' ▸ rfl
    | node hr' hv' =>
      cases hr.symm.trans hr'
      cases hv.symm.trans hv'
  | node hr hv hus _ _ ih₁ ih₂ =>
    cases h' with
    | leaf hr' hv' =>
      cases hr.symm.trans hr'
      cases hv.symm.trans hv'
    | node hr' hv' hus' h₁ h₂ =>
      cases hr.symm.trans hr'
      cases hv.symm.trans hv'
      cases hus.symm.trans hus'
      exact ih₁ h₁ ▸ ih₂ h₂ ▸ rfl

theorem uncons (h : Denotes read ptr label heap (v :: vs) ts) :
    ∃ t ts', ts = t :: ts' ∧ Denotes read ptr label heap [v] [t] ∧ Denotes read ptr label heap vs ts' := by
  cases h with
  | leaf hr hv h'      => exact ⟨_, _, rfl, .leaf hr hv .nil, h'⟩
  | node hr hv hus h' h₂ => exact ⟨_, _, rfl, .node hr hv hus h' .nil, h₂⟩

-- A value that stands for a tree has nothing below it, or it has a region.
theorem exists_read (h : Denotes read ptr label heap [v] [t]) : ∃ w, read v = some w ∧
    (ptr w = none ∧ t = .node (label w) [] ∨ ∃ (pos : Nat) (us : List α) (children : List (Tree α)),
      ptr w = some pos ∧ heap[pos]? = some us ∧ Denotes read ptr label heap us children ∧
        t = .node (label w) children) := by
  cases h with
  | leaf hr hv        => exact ⟨_, hr, .inl ⟨hv, rfl⟩⟩
  | node hr hv hus h₁ => exact ⟨_, hr, .inr ⟨_, _, _, hv, hus, h₁, rfl⟩⟩

-- Below a region there are regions of every smaller height.
theorem exists_region {k : Nat} (h : Denotes read ptr label heap vs ts) (hk : 0 < k)
    (hlt : k < Tree.heights ts) :
    ∃ (pos : Nat) (us : List α) (children : List (Tree α)), heap[pos]? = some us ∧
      Denotes read ptr label heap us children ∧ Tree.heights children = k := by
  induction h with
  | nil => cases hlt
  | leaf _ _ _ ih =>
    rw [Tree.heights_cons, Tree.height_node, Tree.heights_nil] at hlt
    exact ih (by omega)
  | @node _ _ _ us children _ ts _ _ hus h₁ _ ih₁ ih₂ =>
    rw [Tree.heights_cons, Tree.height_node] at hlt
    obtain hlt | he | hlt : k < Tree.heights children ∨ k = Tree.heights children ∨ k < Tree.heights ts := by
      omega
    · exact ih₁ hlt
    · exact ⟨_, us, children, hus, h₁, he.symm⟩
    · exact ih₂ hlt

-- No region is reached from itself, so that the regions bound the height.
theorem heights_le (h : Denotes read ptr label heap vs ts) : Tree.heights ts ≤ heap.length + 1 := by
  have hex (k : Nat) : ∃ pos : Nat, 0 < k → k < Tree.heights ts → ∃ (us : List α) (children : List (Tree α)),
      heap[pos]? = some us ∧ Denotes read ptr label heap us children ∧ Tree.heights children = k := by
    by_cases hk : 0 < k ∧ k < Tree.heights ts
    case pos =>
      obtain ⟨pos, hpos⟩ := h.exists_region hk.1 hk.2
      exact ⟨pos, fun _ _ => hpos⟩
    case neg => exact ⟨0, fun h₀ hlt => absurd ⟨h₀, hlt⟩ hk⟩
  obtain ⟨region, hregion⟩ := Classical.axiomOfChoice hex
  have hmaps : Set.MapsTo region (Finset.Ico 1 (Tree.heights ts)) (Finset.range heap.length) := by
    intro k hk
    rw [Finset.coe_Ico, Set.mem_Ico] at hk
    obtain ⟨_, _, hus, _⟩ := hregion k hk.1 hk.2
    rw [Finset.coe_range]
    exact (List.getElem?_eq_some_iff.mp hus).1
  -- Regions of different heights are different.
  have hinj : Set.InjOn region (Finset.Ico 1 (Tree.heights ts)) := by
    intro k hk k' hk' he
    rw [Finset.coe_Ico, Set.mem_Ico] at hk hk'
    obtain ⟨_, _, hus, h₁, hh⟩ := hregion k hk.1 hk.2
    obtain ⟨_, _, hus', h₁', hh'⟩ := hregion k' hk'.1 hk'.2
    rw [← he] at hus'
    cases hus.symm.trans hus'
    rw [← hh, ← hh', h₁.unique h₁']
  have hcard := Finset.card_le_card_of_injOn region hmaps hinj
  rw [Nat.card_Ico, Finset.card_range] at hcard
  omega

end Denotes

-- Values that own what is below them, where no reference is in the way.
theorem Reps.denotes (h : Reps ptr label heap vs ts F) (hv : ∀ v ∈ vs, read v = some v)
    (hheap : ∀ us ∈ heap, ∀ u ∈ us, read u = some u) : Denotes read ptr label heap vs ts := by
  induction h with
  | nil => exact .nil
  | leaf hp _ ih => exact .leaf (hv _ (by simp)) hp (ih fun v hm => hv v (List.mem_cons_of_mem _ hm))
  | node hp hus _ _ ih₁ ih₂ =>
    exact .node (hv _ (by simp)) hp hus (ih₁ (hheap _ (List.mem_of_getElem? hus)))
      (ih₂ fun v hm => hv v (List.mem_cons_of_mem _ hm))

end RegionHeap
