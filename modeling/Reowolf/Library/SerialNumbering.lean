import Mathlib.Data.List.Nodup
import Mathlib.Data.Set.Function
import Mathlib.Order.Interval.Set.Defs

-- Keys get consecutive numbers, one after the other, each of them together with a mark.
structure SerialNumbering (κ α : Type*) where
  next    : Nat
  entries : κ → α × Nat

namespace SerialNumbering

variable {κ α : Type*} [DecidableEq κ]

def assign (s : SerialNumbering κ α) (node : κ × α) : SerialNumbering κ α where
  next    := s.next + 1
  entries := Function.update s.entries node.1 (node.2, s.next)

def assignAll (s : SerialNumbering κ α) (nodes : List (κ × α)) : SerialNumbering κ α :=
  nodes.foldl assign s

def number (s : SerialNumbering κ α) (k : κ) : Nat :=
  (s.entries k).2

def mark (s : SerialNumbering κ α) (k : κ) : α :=
  (s.entries k).1

variable {s : SerialNumbering κ α} {nodes nodes' : List (κ × α)} {node : κ × α} {k : κ} {a : α}

theorem assignAll_cons : s.assignAll (node :: nodes) = (s.assign node).assignAll nodes :=
  rfl

theorem assignAll_append : s.assignAll (nodes ++ nodes') = (s.assignAll nodes).assignAll nodes' :=
  List.foldl_append

theorem next_assignAll : (s.assignAll nodes).next = s.next + nodes.length := by
  induction nodes generalizing s with
  | nil => rfl
  | cons node nodes ih =>
    rw [assignAll_cons, ih, List.length_cons]
    exact Nat.add_right_comm ..

theorem entries_of_not_mem (h : k ∉ nodes.map Prod.fst) :
    (s.assignAll nodes).entries k = s.entries k := by
  induction nodes generalizing s with
  | nil => rfl
  | cons node nodes ih =>
    rw [List.map_cons, List.mem_cons, not_or] at h
    rw [assignAll_cons, ih h.right]
    exact Function.update_of_ne h.left _ _

-- The number of a key is its place in the list.
theorem entries_of_getElem? {i : Nat} (hn : (nodes.map Prod.fst).Nodup) (h : nodes[i]? = some (k, a)) :
    (s.assignAll nodes).entries k = (a, s.next + i) := by
  induction nodes generalizing s i with
  | nil => cases h
  | cons node nodes ih =>
    obtain ⟨hnew, hn⟩ := List.nodup_cons.mp hn
    rw [assignAll_cons]
    cases i with
    | zero =>
      cases h
      rw [entries_of_not_mem hnew]
      exact Function.update_self ..
    | succ i =>
      rw [ih hn h]
      exact congrArg _ (Nat.add_right_comm ..)

theorem exists_number (hn : (nodes.map Prod.fst).Nodup) (h : (k, a) ∈ nodes) :
    ∃ i, nodes[i]? = some (k, a) ∧ (s.assignAll nodes).entries k = (a, s.next + i) := by
  obtain ⟨i, hi⟩ := List.mem_iff_getElem?.mp h
  exact ⟨i, hi, entries_of_getElem? hn hi⟩

theorem mark_of_mem (hn : (nodes.map Prod.fst).Nodup) (h : (k, a) ∈ nodes) :
    (s.assignAll nodes).mark k = a := by
  obtain ⟨_, _, he⟩ := @exists_number _ _ _ s _ _ _ hn h
  rw [mark, he]

theorem mapsTo (hn : (nodes.map Prod.fst).Nodup) :
    Set.MapsTo (s.assignAll nodes).number {k | k ∈ nodes.map Prod.fst}
      (Set.Ico s.next (s.assignAll nodes).next) := by
  intro k hk
  obtain ⟨⟨k', a⟩, hmem, he⟩ := List.mem_map.mp hk
  cases he
  obtain ⟨i, hi, hentry⟩ := @exists_number _ _ _ s _ _ _ hn hmem
  have hlt := (List.getElem?_eq_some_iff.mp hi).fst
  rw [number, hentry, next_assignAll]
  exact ⟨Nat.le_add_right .., Nat.add_lt_add_left hlt _⟩

theorem injOn (hn : (nodes.map Prod.fst).Nodup) :
    Set.InjOn (s.assignAll nodes).number {k | k ∈ nodes.map Prod.fst} := by
  intro k hk k' hk' he
  obtain ⟨⟨_, a⟩, hmem, rfl⟩ := List.mem_map.mp hk
  obtain ⟨⟨_, a'⟩, hmem', rfl⟩ := List.mem_map.mp hk'
  obtain ⟨i, hi, hentry⟩ := @exists_number _ _ _ s _ _ _ hn hmem
  obtain ⟨i', hi', hentry'⟩ := @exists_number _ _ _ s _ _ _ hn hmem'
  rw [number, number, hentry, hentry'] at he
  cases Nat.add_left_cancel he
  cases hi.symm.trans hi'
  rfl

theorem surjOn (hn : (nodes.map Prod.fst).Nodup) :
    Set.SurjOn (s.assignAll nodes).number {k | k ∈ nodes.map Prod.fst}
      (Set.Ico s.next (s.assignAll nodes).next) := by
  rintro n ⟨hle, hlt⟩
  rw [next_assignAll] at hlt
  have hi : n - s.next < nodes.length := by omega
  obtain ⟨⟨k, a⟩, hget⟩ : ∃ node, nodes[n - s.next]? = some node := ⟨_, List.getElem?_eq_getElem hi⟩
  refine ⟨k, List.mem_map.mpr ⟨_, List.mem_of_getElem? hget, rfl⟩, ?_⟩
  rw [number, entries_of_getElem? hn hget]
  exact Nat.add_sub_of_le hle

-- Different keys get exactly the numbers from the one to the other state of the counter.
theorem bijOn (hn : (nodes.map Prod.fst).Nodup) :
    Set.BijOn (s.assignAll nodes).number {k | k ∈ nodes.map Prod.fst}
      (Set.Ico s.next (s.assignAll nodes).next) :=
  ⟨mapsTo hn, injOn hn, surjOn hn⟩

end SerialNumbering
