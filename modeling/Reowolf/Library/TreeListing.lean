import Mathlib.Data.List.Flatten
import Mathlib.Logic.Relation

-- A tree is listed from a node down: what the node has of its own, and then what is listed of its
-- children.
structure TreeListing (α β : Type*) where
  own         : α → List β
  children    : α → List α
  list        : α → List β
  list_eq     : ∀ a, list a = own a ++ (children a).flatMap list
  wellFounded : WellFounded fun child a => child ∈ children a

namespace TreeListing

variable {α β : Type*} {tree : TreeListing α β} {a a' : α} {b : β}

-- A node and another one that is somewhere below it.
def Below (tree : TreeListing α β) : α → α → Prop :=
  Relation.ReflTransGen fun a child => child ∈ tree.children a

theorem mem_list_child {child : α} (h : child ∈ tree.children a) (hb : b ∈ tree.list child) :
    b ∈ tree.list a := by
  rw [tree.list_eq]
  exact List.mem_append_right _ (List.mem_flatMap_of_mem h hb)

theorem mem_of_below (h : tree.Below a a') (hb : b ∈ tree.own a') : b ∈ tree.list a := by
  induction h using Relation.ReflTransGen.head_induction_on with
  | refl =>
    rw [tree.list_eq]
    exact List.mem_append_left _ hb
  | head hc _ ih => exact mem_list_child hc ih

theorem below_of_mem (h : b ∈ tree.list a) : ∃ a', tree.Below a a' ∧ b ∈ tree.own a' := by
  induction a using tree.wellFounded.induction with
  | h a ih =>
    rw [tree.list_eq, List.mem_append, List.mem_flatMap] at h
    obtain h | ⟨child, hc, h⟩ := h
    · exact ⟨a, .refl, h⟩
    · obtain ⟨a', hbelow, hb⟩ := ih child hc h
      exact ⟨a', .head hc hbelow, hb⟩

theorem mem_list : b ∈ tree.list a ↔ ∃ a', tree.Below a a' ∧ b ∈ tree.own a' := by
  constructor
  · exact below_of_mem
  · rintro ⟨a', hbelow, hb⟩
    exact mem_of_below hbelow hb

end TreeListing
