import Mathlib.Logic.Relation

-- Lists to which an element is only added if none of those in it already stands for the element.
namespace Interning

variable {α : Type*} {R : α → α → Prop} {as : List α} {a b t : α} {i j : Nat}

def Distinct (R : α → α → Prop) (as : List α) : Prop :=
  as.Pairwise fun a b => ¬R a b

namespace Distinct

theorem unique (hR : Equivalence R) (h : Distinct R as) (hi : as[i]? = some a) (hj : as[j]? = some b)
    (ha : R a t) (hb : R b t) : i = j := by
  obtain ⟨hilt, hia⟩ := List.getElem?_eq_some_iff.mp hi
  obtain ⟨hjlt, hjb⟩ := List.getElem?_eq_some_iff.mp hj
  subst hia hjb
  have hpair := List.pairwise_iff_getElem.mp h
  have hab := hR.trans ha (hR.symm hb)
  cases Nat.lt_trichotomy i j with
  | inl hlt => exact absurd hab (hpair i j hilt hjlt hlt)
  | inr hge =>
    cases hge with
    | inl heq => exact heq
    | inr hgt => exact absurd (hR.symm hab) (hpair j i hjlt hilt hgt)

theorem append (h : Distinct R as) (hnone : ∀ a ∈ as, ¬R a t) : Distinct R (as ++ [t]) := by
  refine List.pairwise_append.mpr ⟨h, List.pairwise_singleton .., fun a ha b hb => ?_⟩
  rw [List.mem_singleton.mp hb]
  exact hnone a ha

-- The search finds the element that stands for another one.
theorem findIdx?_eq_some_iff {p : α → Bool} (hR : Equivalence R) (h : Distinct R as)
    (hp : ∀ a ∈ as, p a = true ↔ R a t) :
    as.findIdx? p = some i ↔ ∃ a, as[i]? = some a ∧ R a t := by
  constructor
  case mp =>
    intro hi
    obtain ⟨hlt, hpi, _⟩ := List.findIdx?_eq_some_iff_getElem.mp hi
    exact ⟨as[i], List.getElem?_eq_getElem hlt, (hp _ (List.getElem_mem hlt)).mp hpi⟩
  case mpr =>
    rintro ⟨a, hi, ha⟩
    obtain ⟨hlt, hia⟩ := List.getElem?_eq_some_iff.mp hi
    refine List.findIdx?_eq_some_iff_getElem.mpr ⟨hlt, ?_, fun j hj hpj => ?_⟩
    · rw [hia]
      exact (hp a (hia ▸ List.getElem_mem hlt)).mpr ha
    · have hjlt := Nat.lt_trans hj hlt
      have hb := (hp _ (List.getElem_mem hjlt)).mp hpj
      exact absurd (h.unique hR (List.getElem?_eq_getElem hjlt) hi hb ha) (Nat.ne_of_lt hj)

end Distinct

theorem not_of_findIdx?_eq_none {p : α → Bool} (hp : ∀ a ∈ as, p a = true ↔ R a t)
    (h : as.findIdx? p = none) : ∀ a ∈ as, ¬R a t := by
  intro a ha hr
  have hf := List.findIdx?_eq_none_iff.mp h a ha
  rw [(hp a ha).mpr hr] at hf
  cases hf

end Interning
