import Reowolf.Library.MarkedTerms
import Reowolf.Types.PolymorphicInference

namespace Reowolf.Types

open InferenceTypePart (signature)

namespace InferenceTypePart

def marker_idx : InferenceTypePart → Nat
  | marker idx => idx
  | _ => 0

theorem eq_marker_idx {p : InferenceTypePart} (h : p.is_marker = true) : p = .marker p.marker_idx := by
  cases p <;> first | rfl | cases h

end InferenceTypePart

namespace InferenceType

variable {parts l front t rest : List InferenceTypePart} {p : InferenceTypePart}
variable {idx fuel seek : Nat} {ss : List (InferenceTypePart × List InferenceTypePart)}
variable {a b : InferenceType}

-- A section with the number of the marker in front of it.
def numbered (s : InferenceTypePart × List InferenceTypePart) : Nat × List InferenceTypePart :=
  (s.1.marker_idx, s.2)

section Markers

theorem markers_from_plain (h : parts[idx]? = some p) (hp : p.is_marker = false) :
    markers_from parts (fuel + 1) idx = markers_from parts fuel (idx + 1) := by
  cases p with
  | marker => cases hp
  | _      => simp [markers_from, h]

theorem markers_from_eq (h : signature.Sections l ss) (front : List InferenceTypePart)
    (hf : l.length < fuel) :
    markers_from (front ++ l) fuel front.length = some (ss.map numbered) := by
  induction h generalizing front fuel with
  | nil =>
    cases fuel with
    | zero      => cases hf
    | succ fuel => simp [markers_from]
  | @plain p l ss hp _ ih =>
    cases fuel with
    | zero      => cases hf
    | succ fuel =>
      have hrun := ih (front ++ [p]) (Nat.lt_of_succ_lt_succ hf)
      rw [markers_from_plain (by simp) hp]
      simpa using hrun
  | @marked k t l ss hk ht _ _ ih =>
    cases fuel with
    | zero      => cases hf
    | succ fuel =>
      have hlen : l.length < fuel := by
        simp only [List.length_cons, List.length_append] at hf
        omega
      have hrun := ih (front ++ k :: t) hlen
      have hend := find_subtree_end_idx_forest (front ++ [k]) l ht
      have hsection : ((front ++ k :: (t ++ l)).take (front.length + 1 + t.length)).drop
          (front.length + 1) = t := by
        have happend : front ++ k :: (t ++ l) = (front ++ [k]) ++ (t ++ l) := by simp
        have hlen : front.length + 1 = (front ++ [k]).length := by simp
        rw [happend, hlen, List.take_length_add_append, List.drop_left, List.take_left]
      have hk := InferenceTypePart.eq_marker_idx hk
      simp only [List.append_assoc, List.cons_append, List.nil_append, List.length_append,
        List.length_cons, List.length_nil, Nat.zero_add] at hend hrun
      rw [hk] at hend hrun hsection ⊢
      simp only [markers_from, getElem?_front, Option.bind_eq_bind, hend, Option.bind_some, hsection]
      rw [Nat.add_assoc, Nat.add_comm 1, hrun]
      rfl

theorem marker_iter_eq (h : signature.Sections a.parts ss) : a.marker_iter = some (ss.map numbered) :=
  markers_from_eq h [] (Nat.lt_succ_self _)

end Markers

section Routines

theorem subtreeAt_whole (h : signature.Forest 1 parts) : SubtreeAt parts 0 [] parts [] :=
  ⟨(List.append_nil parts).symm, rfl, h⟩

theorem check_subtrees_cases (hl : signature.Forest 1 l) (ht : signature.Forest 1 t) :
    ∃ compatible, check_subtrees l 0 t 0 = some compatible ∧
      (signature.Clashes l t → compatible = false) := by
  have hlw : SubtreeAt (InferenceType.mk false false l).parts 0 [] l [] := subtreeAt_whole hl
  have htw := subtreeAt_whole ht
  match TermSignature.merges_or_clashes hl ht with
  | .inl ⟨_, _, h⟩ =>
    refine ⟨true, check_subtrees_merges hlw htw h, fun hc => ?_⟩
    exact absurd ((h.meet _).mpr (.refl _)) (hc.disjoint _)
  | .inr h => exact ⟨false, check_subtrees_clashes hlw htw h, fun _ => rfl⟩

-- Both types become the same, or the routine fails and the type is refined up to the clash.
theorem apply_template_merges {pa ta sa ta' t' : List InferenceTypePart} {idx_a : Nat}
    (hta : SubtreeAt a.parts idx_a pa ta sa) (ht : signature.Forest 1 t)
    (h : signature.Merges ta t ta' t') :
    apply_template_constraint_to_types a idx_a t 0 =
      some (.ok (decide (ta' ≠ ta)), a.update (pa ++ (ta' ++ sa)) (decide (ta' ≠ ta))) := by
  have hrun := infer_single_type_eq false hta (subtreeAt_whole ht) h fun h => Bool.noConfusion h
  rw [apply_template_constraint_to_types, hrun]
  by_cases hne : ta' = ta
  case pos => simp [hne]
  case neg => simp [hne]

theorem apply_template_clashes {pa ta sa : List InferenceTypePart} {idx_a : Nat}
    (hta : SubtreeAt a.parts idx_a pa ta sa) (ht : signature.Forest 1 t) (h : signature.Clashes ta t) :
    ∃ ta' a', signature.Refines ta ta' ∧ a'.parts = pa ++ (ta' ++ sa) ∧
      apply_template_constraint_to_types a idx_a t 0 = some (.error (), a') := by
  obtain ⟨a', hrun, hkept⟩ := infer_single_type_clashes false hta (subtreeAt_whole ht) h
  obtain ⟨ta', hparts, hr⟩ := hkept rfl
  refine ⟨ta', a', hr, hparts, ?_⟩
  simp [apply_template_constraint_to_types, hrun]

end Routines
end InferenceType

end Reowolf.Types
