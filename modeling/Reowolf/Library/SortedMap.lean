import Mathlib.Data.List.Sort
import Mathlib.Order.Defs.LinearOrder

-- A finite map kept as the list of its entries in strictly increasing key order. Two maps with the
-- same bindings are the same list, so equality of maps is decidable and is equality of contents.
@[ext]
structure SortedMap (κ ν : Type*) [LinearOrder κ] where
  entries : List (κ × ν)
  sorted  : entries.Pairwise (·.1 < ·.1)

namespace SortedMap

variable {κ ν : Type*} [LinearOrder κ]

instance [DecidableEq ν] : DecidableEq (SortedMap κ ν) :=
  fun a b => decidable_of_iff (a.entries = b.entries) SortedMap.ext_iff.symm

instance : EmptyCollection (SortedMap κ ν) :=
  ⟨⟨[], .nil⟩⟩

instance : Inhabited (SortedMap κ ν) :=
  ⟨∅⟩

def get? (m : SortedMap κ ν) (k : κ) : Option ν :=
  m.entries.find? (·.1 = k) |>.map (·.2)

namespace Entries

def insert (k : κ) (v : ν) : List (κ × ν) → List (κ × ν)
  | [] => [(k, v)]
  | (k', v') :: tl =>
    if k < k' then (k, v) :: (k', v') :: tl
    else if k = k' then (k, v) :: tl
    else (k', v') :: insert k v tl

variable {k k' : κ} {v v' : ν} {l l₁ l₂ : List (κ × ν)}

theorem mem_insert (h : l.Pairwise (·.1 < ·.1)) :
    (k', v') ∈ insert k v l ↔ (k' = k ∧ v' = v) ∨ (k' ≠ k ∧ (k', v') ∈ l) := by
  induction l with
  | nil => simp [insert]
  | cons hd tl hi =>
    obtain ⟨kh, vh⟩ := hd
    obtain ⟨hlt, ht⟩ := List.pairwise_cons.mp h
    have hlt : ∀ e ∈ tl, kh < e.1 := hlt
    unfold insert
    split
    case isTrue hk =>
      have hne : k' = k → (k', v') ∉ (kh, vh) :: tl := by
        rintro rfl hm
        cases List.mem_cons.mp hm
        case inl he => cases he; exact lt_irrefl _ hk
        case inr hm => exact lt_asymm hk (hlt _ hm)
      grind
    case isFalse =>
      split
      case isTrue hk =>
        subst hk
        have hne : k' = k → (k', v') ∉ tl := by
          rintro rfl hm
          exact lt_irrefl _ (hlt _ hm)
        grind
      case isFalse hk hne => grind

theorem insert_sorted (h : l.Pairwise (·.1 < ·.1)) :
    (insert k v l).Pairwise (·.1 < ·.1) := by
  induction l with
  | nil => simp [insert]
  | cons hd tl hi =>
    obtain ⟨kh, vh⟩ := hd
    obtain ⟨hlt, ht⟩ := List.pairwise_cons.mp h
    unfold insert
    split
    case isTrue hk =>
      refine List.pairwise_cons.mpr ⟨fun e he => ?_, h⟩
      cases List.mem_cons.mp he
      case inl he => exact he ▸ hk
      case inr he => exact lt_trans hk (hlt _ he)
    case isFalse hk =>
      split
      case isTrue he => exact List.pairwise_cons.mpr ⟨he ▸ hlt, ht⟩
      case isFalse hne =>
        refine List.pairwise_cons.mpr ⟨fun e he => ?_, hi ht⟩
        have hkh : kh < k := lt_of_le_of_ne (not_lt.mp hk) (Ne.symm hne)
        obtain ⟨ke, ve⟩ := e
        cases (mem_insert ht).mp he
        case inl he => exact he.left ▸ hkh
        case inr he => exact hlt _ he.right

theorem nodup (h : l.Pairwise (·.1 < ·.1)) : l.Nodup := by
  apply h.imp
  intro a b hlt he
  exact lt_irrefl _ (he ▸ hlt)

theorem unique (h : l.Pairwise (·.1 < ·.1)) (h₁ : (k, v) ∈ l) (h₂ : (k, v') ∈ l) : v = v' := by
  induction l with
  | nil => cases h₁
  | cons hd tl hi =>
    obtain ⟨hlt, ht⟩ := List.pairwise_cons.mp h
    cases List.mem_cons.mp h₁ <;> cases List.mem_cons.mp h₂
    case inl.inl e₁ e₂ => exact congrArg Prod.snd (e₁.trans e₂.symm)
    case inl.inr e₁ m₂ => exact absurd (hlt _ m₂) (e₁ ▸ lt_irrefl _)
    case inr.inl m₁ e₂ => exact absurd (hlt _ m₁) (e₂ ▸ lt_irrefl _)
    case inr.inr m₁ m₂ => exact hi ht m₁ m₂

theorem eq_of_mem_iff (h₁ : l₁.Pairwise (·.1 < ·.1)) (h₂ : l₂.Pairwise (·.1 < ·.1))
    (h : ∀ e, e ∈ l₁ ↔ e ∈ l₂) : l₁ = l₂ := by
  have hp := (List.perm_ext_iff_of_nodup (nodup h₁) (nodup h₂)).mpr h
  exact hp.eq_of_pairwise (fun _ _ _ _ hab hba => absurd hba (lt_asymm hab)) h₁ h₂

end Entries

def insert (m : SortedMap κ ν) (k : κ) (v : ν) : SortedMap κ ν where
  entries := Entries.insert k v m.entries
  sorted  := Entries.insert_sorted m.sorted

variable {m m₁ m₂ : SortedMap κ ν} {k k' : κ} {v v' : ν}

theorem get?_eq_some_iff : m.get? k = some v ↔ (k, v) ∈ m.entries := by
  simp only [get?, Option.map_eq_some_iff]
  constructor
  case mp =>
    rintro ⟨⟨k', v'⟩, hf, rfl⟩
    have hk : k' = k := by simpa using List.find?_some hf
    exact hk ▸ List.mem_of_find?_eq_some hf
  case mpr =>
    intro hm
    cases hf : m.entries.find? (·.1 = k)
    case none =>
      have := List.find?_eq_none.mp hf _ hm
      simp at this
    case some e =>
      have hk : e.1 = k := by simpa using List.find?_some hf
      have he := List.mem_of_find?_eq_some hf
      exact ⟨e, rfl, Entries.unique m.sorted (hk ▸ he) hm⟩

@[ext]
theorem ext_get? (h : ∀ k, m₁.get? k = m₂.get? k) : m₁ = m₂ := by
  refine SortedMap.ext <| Entries.eq_of_mem_iff m₁.sorted m₂.sorted ?_
  rintro ⟨k, v⟩
  rw [← get?_eq_some_iff, ← get?_eq_some_iff, h]

@[simp]
theorem get?_empty : (∅ : SortedMap κ ν).get? k = none :=
  rfl

theorem get?_insert : (m.insert k v).get? k' = if k' = k then some v else m.get? k' := by
  refine Option.ext fun v' => ?_
  rw [get?_eq_some_iff]
  show _ ∈ Entries.insert k v m.entries ↔ _
  rw [Entries.mem_insert m.sorted]
  split
  case isTrue h => simp [h, eq_comm]
  case isFalse h => simp [h, get?_eq_some_iff]

@[simp]
theorem get?_insert_self : (m.insert k v).get? k = some v := by
  simp [get?_insert]

theorem get?_insert_ne (h : k' ≠ k) : (m.insert k v).get? k' = m.get? k' := by
  simp [get?_insert, h]

-- The order by inclusion of bindings.
instance : HasSubset (SortedMap κ ν) :=
  ⟨fun m₁ m₂ => ∀ k v, m₁.get? k = some v → m₂.get? k = some v⟩

namespace Subset

theorem refl (m : SortedMap κ ν) : m ⊆ m :=
  fun _ _ h => h

theorem trans (h₁ : m₁ ⊆ m) (h₂ : m ⊆ m₂) : m₁ ⊆ m₂ :=
  fun k v h => h₂ k v (h₁ k v h)

theorem antisymm (h₁ : m₁ ⊆ m₂) (h₂ : m₂ ⊆ m₁) : m₁ = m₂ :=
  ext_get? fun k => Option.ext fun v => ⟨h₁ k v, h₂ k v⟩

theorem empty (m : SortedMap κ ν) : ∅ ⊆ m :=
  fun _ _ h => nomatch h

theorem insert (h : m.get? k = none ∨ m.get? k = some v) : m ⊆ m.insert k v := by
  intro k' v' hk
  rw [get?_insert]
  split
  case isTrue he => cases h <;> simp_all
  case isFalse => exact hk

end Subset

-- Two maps agree on every key that both of them bind.
def Compatible (m₁ m₂ : SortedMap κ ν) : Prop :=
  ∀ k v₁ v₂, m₁.get? k = some v₁ → m₂.get? k = some v₂ → v₁ = v₂

namespace Compatible

theorem symm (h : Compatible m₁ m₂) : Compatible m₂ m₁ :=
  fun k _ _ h₁ h₂ => (h k _ _ h₂ h₁).symm

theorem of_subset (h₁ : m₁ ⊆ m) (h₂ : m₂ ⊆ m) : Compatible m₁ m₂ :=
  fun k _ _ hk₁ hk₂ => Option.some.inj <| (h₁ k _ hk₁).symm.trans (h₂ k _ hk₂)

theorem mono (h : Compatible m m₂) (hs : m₁ ⊆ m) : Compatible m₁ m₂ :=
  fun k _ _ h₁ h₂ => h k _ _ (hs k _ h₁) h₂

end Compatible

-- The bindings of `m₁`, overridden by those of `m₂`.
def union (m₁ m₂ : SortedMap κ ν) : SortedMap κ ν :=
  m₂.entries.foldl (fun m e => m.insert e.1 e.2) m₁

theorem get?_foldl_insert {l : List (κ × ν)} (h : l.Pairwise (·.1 < ·.1)) :
    (l.foldl (fun m e => m.insert e.1 e.2) m).get? k =
      ((l.find? (·.1 = k)).map (·.2)).or (m.get? k) := by
  induction l generalizing m with
  | nil => rfl
  | cons hd tl hi =>
    obtain ⟨hlt, ht⟩ := List.pairwise_cons.mp h
    rw [List.foldl_cons, hi ht, get?_insert]
    by_cases hk : hd.1 = k
    case neg => simp [hk, Ne.symm hk]
    case pos =>
      have hn : tl.find? (·.1 = k) = none := by
        simp only [List.find?_eq_none, decide_eq_true_eq]
        exact fun e he hek => absurd (hlt e he) (hk.trans hek.symm ▸ lt_irrefl _)
      simp [hk, hn]

theorem get?_union : (union m₁ m₂).get? k = (m₂.get? k).or (m₁.get? k) :=
  get?_foldl_insert m₂.sorted

theorem get?_union_eq_some (h : Compatible m₁ m₂) :
    (union m₁ m₂).get? k = some v ↔ m₁.get? k = some v ∨ m₂.get? k = some v := by
  rw [get?_union]
  cases h₂ : m₂.get? k
  case none => simp
  case some v₂ =>
    simp only [Option.some_or, Option.some.injEq]
    refine ⟨.inr, ?_⟩
    rintro (h₁ | h₁)
    · exact (h k _ _ h₁ h₂).symm
    · exact h₁

theorem subset_union_left (h : Compatible m₁ m₂) : m₁ ⊆ union m₁ m₂ :=
  fun _ _ hk => (get?_union_eq_some h).mpr (.inl hk)

theorem subset_union_right : m₂ ⊆ union m₁ m₂ := by
  intro k v hk
  simp [get?_union, hk]

theorem union_subset (h₁ : m₁ ⊆ m) (h₂ : m₂ ⊆ m) : union m₁ m₂ ⊆ m := by
  intro k v hk
  cases (get?_union_eq_some (.of_subset h₁ h₂)).mp hk
  case inl hk => exact h₁ k v hk
  case inr hk => exact h₂ k v hk

theorem union_eq_left (h : m₂ ⊆ m₁) : union m₁ m₂ = m₁ :=
  Subset.antisymm (union_subset (Subset.refl m₁) h) (subset_union_left (.of_subset (Subset.refl m₁) h))

theorem union_eq_right (h : m₁ ⊆ m₂) : union m₁ m₂ = m₂ :=
  Subset.antisymm (union_subset h (Subset.refl m₂)) subset_union_right

end SortedMap
