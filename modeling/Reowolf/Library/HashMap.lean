import Mathlib.Data.Finmap

-- Hash maps and hash sets are unordered: two of them are equal when they have the same contents.
-- A loop over one is given the order in which it visits the contents.
abbrev HashMap (κ ν : Type*) :=
  Finmap fun _ : κ => ν

-- The list visits every element of the set, and each of them once.
def Iterates {κ : Type*} [DecidableEq κ] (order : List κ) (s : Finset κ) : Prop :=
  order.Nodup ∧ order.toFinset = s

instance {κ : Type*} [DecidableEq κ] (order : List κ) (s : Finset κ) : Decidable (Iterates order s) :=
  inferInstanceAs (Decidable (_ ∧ _))

theorem Iterates.mem_iff {κ : Type*} [DecidableEq κ] {order : List κ} {s : Finset κ}
    (h : Iterates order s) {k : κ} : k ∈ order ↔ k ∈ s := by
  rw [← h.right, List.mem_toFinset]

namespace HashMap

variable {κ ν : Type*} [DecidableEq κ]

def get? (m : HashMap κ ν) (k : κ) : Option ν :=
  Finmap.lookup k m

def insert (m : HashMap κ ν) (k : κ) (v : ν) : HashMap κ ν :=
  Finmap.insert k v m

def erase (m : HashMap κ ν) (k : κ) : HashMap κ ν :=
  Finmap.erase k m

def modify (m : HashMap κ ν) (k : κ) (f : ν → ν) : HashMap κ ν :=
  match m.get? k with
  | none   => m
  | some v => m.insert k (f v)

def IsEmpty (m : HashMap κ ν) : Prop :=
  Finmap.keys m = ∅

instance (m : HashMap κ ν) : Decidable m.IsEmpty :=
  inferInstanceAs (Decidable (_ = _))

-- The value is merged with the one that is already there, if any.
def insertWith (merge : ν → ν → ν) (m : HashMap κ ν) (k : κ) (v : ν) : HashMap κ ν :=
  match m.get? k with
  | none     => m.insert k v
  | some old => m.insert k (merge old v)

def insertAll (merge : ν → ν → ν) (m : HashMap κ ν) (es : List (κ × ν)) : HashMap κ ν :=
  es.foldl (fun m e => m.insertWith merge e.1 e.2) m

-- The entries of `m₁`, and those of `m₂` for the other keys.
def override (m₁ m₂ : HashMap κ ν) : HashMap κ ν :=
  m₁ ∪ m₂

variable {m m₁ m₂ : HashMap κ ν} {k k' : κ} {v v' : ν} {f : ν → ν}

theorem ext_get? (h : ∀ k, m₁.get? k = m₂.get? k) : m₁ = m₂ :=
  Finmap.ext_lookup h

@[simp]
theorem get?_empty : (∅ : HashMap κ ν).get? k = none :=
  Finmap.lookup_empty k

theorem get?_insert : (m.insert k v).get? k' = if k' = k then some v else m.get? k' := by
  split
  case isTrue h  => exact h ▸ Finmap.lookup_insert m
  case isFalse h => exact Finmap.lookup_insert_of_ne m h

@[simp]
theorem get?_insert_self : (m.insert k v).get? k = some v :=
  Finmap.lookup_insert m

theorem get?_insert_ne (h : k' ≠ k) : (m.insert k v).get? k' = m.get? k' :=
  Finmap.lookup_insert_of_ne m h

theorem get?_erase : (m.erase k).get? k' = if k' = k then none else m.get? k' := by
  split
  case isTrue h  => exact h ▸ Finmap.lookup_erase k m
  case isFalse h => exact Finmap.lookup_erase_ne h

@[simp]
theorem get?_erase_self : (m.erase k).get? k = none :=
  Finmap.lookup_erase k m

theorem get?_modify :
    (m.modify k f).get? k' = if k' = k then (m.get? k).map f else m.get? k' := by
  cases h : m.get? k
  case none =>
    simp only [modify, h, Option.map_none]
    split
    case isTrue hk => exact hk ▸ h
    case isFalse   => rfl
  case some v =>
    simp only [modify, h, Option.map_some]
    exact get?_insert

theorem get?_override : (m₁.override m₂).get? k = (m₁.get? k).or (m₂.get? k) := by
  cases h : m₁.get? k
  case none   => exact Finmap.lookup_union_right (Finmap.lookup_eq_none.mp h)
  case some v => exact (Finmap.lookup_union_left (Finmap.mem_of_lookup_eq_some h)).trans h

theorem mem_keys_iff : k ∈ Finmap.keys m ↔ ∃ v, m.get? k = some v :=
  Finmap.mem_keys.trans Finmap.mem_iff

theorem eq_empty_iff : m = ∅ ↔ ∀ k, m.get? k = none :=
  ⟨fun h _ => h ▸ get?_empty, fun h => ext_get? fun k => (h k).trans get?_empty.symm⟩

theorem isEmpty_iff : m.IsEmpty ↔ m = ∅ := by
  refine Finset.eq_empty_iff_forall_notMem.trans (Iff.trans ?_ eq_empty_iff.symm)
  refine forall_congr' fun k => ?_
  rw [mem_keys_iff, Option.eq_none_iff_forall_ne_some, not_exists]

theorem get?_insertWith {merge : ν → ν → ν} : (m.insertWith merge k v).get? k' =
    if k' = k then some ((m.get? k).elim v (merge · v)) else m.get? k' := by
  unfold insertWith
  cases h : m.get? k <;> exact get?_insert

theorem insertAll_append {merge : ν → ν → ν} {es es' : List (κ × ν)} :
    m.insertAll merge (es ++ es') = (m.insertAll merge es).insertAll merge es' :=
  List.foldl_append

section FoldlInsert

variable {es : List (κ × ν)}

theorem mem_of_foldl_insert (h : (es.foldl (fun m (k, v) => insert m k v) m).get? k = some v) :
    (k, v) ∈ es ∨ m.get? k = some v := by
  induction es generalizing m with
  | nil => exact .inr h
  | cons hd tl ih =>
    cases ih h
    case inl h => exact .inl (.tail _ h)
    case inr h =>
      rw [get?_insert] at h
      split at h
      case isFalse => exact .inr h
      case isTrue hk =>
        cases h
        exact .inl (hk ▸ .head _)

theorem exists_foldl_insert (h : (∃ v, (k, v) ∈ es) ∨ ∃ v, m.get? k = some v) :
    ∃ v, (es.foldl (fun m (k, v) => insert m k v) m).get? k = some v := by
  induction es generalizing m with
  | nil => exact h.resolve_left nofun
  | cons hd tl ih =>
    by_cases hk : k = hd.1
    case pos => exact ih (.inr ⟨hd.2, hk ▸ get?_insert_self⟩)
    case neg =>
      refine ih (h.imp (fun h => ?_) fun h => h.imp fun v h => (get?_insert_ne hk).trans h)
      obtain ⟨v, h⟩ := h
      cases h
      case head   => exact absurd rfl hk
      case tail h => exact ⟨v, h⟩

end FoldlInsert

section Merging

variable {merge : ν → ν → ν} {Good : κ → ν → Prop} {le : ν → ν → Prop} {es : List (κ × ν)}

-- Merging keeps values good, and it keeps what either of the two values has.
structure LawfulMerge (merge : ν → ν → ν) (Good : κ → ν → Prop) (le : ν → ν → Prop) : Prop where
  refl  : ∀ v, le v v
  trans : ∀ {v₁ v₂ v₃}, le v₁ v₂ → le v₂ v₃ → le v₁ v₃
  good  : ∀ {k old v}, Good k old → Good k v → Good k (merge old v)
  left  : ∀ {k old v}, Good k old → Good k v → le old (merge old v)
  right : ∀ {k old v}, Good k old → Good k v → le v (merge old v)

theorem good_insertWith (hl : LawfulMerge merge Good le) (hm : ∀ k v, m.get? k = some v → Good k v)
    (hv : Good k v) : ∀ k' v', (m.insertWith merge k v).get? k' = some v' → Good k' v' := by
  intro k' v' h
  rw [get?_insertWith] at h
  split at h
  case isFalse => exact hm k' v' h
  case isTrue hk =>
    cases Option.some.inj h
    subst hk
    cases hk : m.get? k'
    case none     => exact hv
    case some old => exact hl.good (hm k' old hk) hv

theorem le_insertWith (hl : LawfulMerge merge Good le) (hm : ∀ k v, m.get? k = some v → Good k v)
    (hv : Good k v) (h : m.get? k' = some v') :
    ∃ w, (m.insertWith merge k v).get? k' = some w ∧ le v' w := by
  rw [get?_insertWith]
  split
  case isFalse => exact ⟨v', h, hl.refl v'⟩
  case isTrue hk =>
    subst hk
    exact ⟨_, rfl, h ▸ hl.left (hm _ _ h) hv⟩

theorem insertWith_self (hl : LawfulMerge merge Good le)
    (hm : ∀ k v, m.get? k = some v → Good k v) (hv : Good k v) :
    ∃ w, (m.insertWith merge k v).get? k = some w ∧ le v w := by
  rw [get?_insertWith, if_pos rfl]
  refine ⟨_, rfl, ?_⟩
  cases hk : m.get? k
  case none     => exact hl.refl v
  case some old => exact hl.right (hm k old hk) hv

theorem good_insertAll (hl : LawfulMerge merge Good le) (hm : ∀ k v, m.get? k = some v → Good k v)
    (hes : ∀ e ∈ es, Good e.1 e.2) :
    ∀ k v, (m.insertAll merge es).get? k = some v → Good k v := by
  induction es generalizing m with
  | nil => exact hm
  | cons hd tl ih =>
    obtain ⟨hd, htl⟩ := List.forall_mem_cons.mp hes
    exact ih (good_insertWith hl hm hd) htl

theorem le_insertAll (hl : LawfulMerge merge Good le) (hm : ∀ k v, m.get? k = some v → Good k v)
    (hes : ∀ e ∈ es, Good e.1 e.2) (h : m.get? k = some v) :
    ∃ w, (m.insertAll merge es).get? k = some w ∧ le v w := by
  induction es generalizing m v with
  | nil => exact ⟨v, h, hl.refl v⟩
  | cons hd tl ih =>
    obtain ⟨hd, htl⟩ := List.forall_mem_cons.mp hes
    obtain ⟨w, hw, hle⟩ := le_insertWith hl hm hd h
    obtain ⟨w', hw', hle'⟩ := ih (good_insertWith hl hm hd) htl hw
    exact ⟨w', hw', hl.trans hle hle'⟩

-- Every inserted value is below what the map holds in the end.
theorem mem_insertAll (hl : LawfulMerge merge Good le) (hm : ∀ k v, m.get? k = some v → Good k v)
    (hes : ∀ e ∈ es, Good e.1 e.2) (h : (k, v) ∈ es) :
    ∃ w, (m.insertAll merge es).get? k = some w ∧ le v w := by
  induction es generalizing m with
  | nil => cases h
  | cons hd tl ih =>
    obtain ⟨hg, htl⟩ := List.forall_mem_cons.mp hes
    have hm' := good_insertWith hl hm hg
    cases List.mem_cons.mp h
    case inr h => exact ih hm' htl h
    case inl h =>
      subst h
      obtain ⟨w, hw, hle⟩ := insertWith_self hl hm hg
      obtain ⟨w', hw', hle'⟩ := le_insertAll hl hm' htl hw
      exact ⟨w', hw', hl.trans hle hle'⟩

end Merging
end HashMap
