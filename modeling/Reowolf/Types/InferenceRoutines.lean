import Reowolf.Types.TypeUnification

namespace Reowolf.Types

open InferenceTypePart (signature)

namespace InferenceType

-- Each part is followed by its subtypes.
structure WellFormed (t : InferenceType) : Prop where
  tree : signature.Forest 1 t.parts
  done : t.is_done = t.parts.all (·.is_concrete)

-- The type at the index, with the parts in front of it and those behind.
structure SubtreeAt (parts : List InferenceTypePart) (idx : Nat)
    (front t rest : List InferenceTypePart) : Prop where
  eq    : parts = front ++ (t ++ rest)
  idx   : idx = front.length
  tree  : signature.Forest 1 t

variable {a b : InferenceType} {idx_a idx_b : Nat}
variable {parts pa ta sa pb tb sb : List InferenceTypePart}

theorem SubtreeAt.exists_of_lt {idx : Nat} (h : signature.Forest 1 parts)
    (hi : idx < parts.length) : ∃ front t rest, SubtreeAt parts idx front t rest := by
  rw [← List.take_append_drop idx parts] at h
  have hne : parts.drop idx ≠ [] := List.ne_nil_of_length_pos (by simpa [Nat.sub_pos_iff_lt] using hi)
  obtain ⟨t, rest, he, ht⟩ := h.exists_subtree hne
  refine ⟨parts.take idx, t, rest, ?_, ?_, ht⟩
  · rw [← he, List.take_append_drop]
  · exact (List.length_take_of_le (Nat.le_of_lt hi)).symm

-- What the dual inference does to the types if they are compatible.
structure Unified (a b a' b' : InferenceType) (pa ta sa pb tb sb ta' tb' : List InferenceTypePart)
    (modified_a modified_b : Bool) : Prop where
  parts_a : a'.parts = pa ++ (ta' ++ sa)
  parts_b : b'.parts = pb ++ (tb' ++ sb)
  marked  : a'.has_marker = a.has_marker ∧ b'.has_marker = b.has_marker
  same    : signature.erase ta' = signature.erase tb'
  general : signature.MostGeneral (signature.erase ta) (signature.erase tb) (signature.erase ta')
  kept    : signature.Refines ta ta' ∧ signature.Refines tb tb'
  flag_a  : modified_a = true ↔ ta' ≠ ta
  flag_b  : modified_b = true ↔ tb' ≠ tb
  done_a  : a'.is_done = true ↔ ∀ p ∈ a'.parts, p.is_concrete = true
  done_b  : b'.is_done = true ↔ ∀ p ∈ b'.parts, p.is_concrete = true

-- The flag is recomputed if the type has changed.
def update (t : InferenceType) (parts : List InferenceTypePart) (modified : Bool) : InferenceType :=
  if modified then recompute_is_done { t with parts := parts } else { t with parts := parts }

theorem done_of_modified {t : InferenceType} (parts : List InferenceTypePart) (modified : Bool)
    (h : t.is_done = t.parts.all (·.is_concrete)) (hm : modified = false → parts = t.parts) :
    (t.update parts modified).parts = parts ∧
    (t.update parts modified).has_marker = t.has_marker ∧
    ((t.update parts modified).is_done = true ↔ ∀ p ∈ parts, p.is_concrete = true) := by
  cases modified with
  | true  => simp [update, recompute_is_done]
  | false => simp [update, h, hm rfl]

-- The result for two types that are compatible.
def of_modified : (modified_a modified_b : Bool) → DualInferenceResult
  | false, false => .neither
  | false, true  => .second
  | true,  false => .first
  | true,  true  => .both

theorem of_modified_spec (ma mb : Bool) : of_modified ma mb ≠ .incompatible ∧
    (of_modified ma mb).modified_lhs = ma ∧ (of_modified ma mb).modified_rhs = mb := by
  cases ma <;> cases mb <;> decide

section Routines

variable {ta' tb' : List InferenceTypePart}

-- The bound on the rounds of the loops suffices.
theorem length_lt_fuel (hta : SubtreeAt a.parts idx_a pa ta sa)
    (htb : SubtreeAt parts idx_b pb tb sb) :
    ta.length + tb.length < a.parts.length + parts.length + 1 := by
  rw [hta.eq, htb.eq]
  simp only [List.length_append]
  omega

theorem dualAt_eq (hta : SubtreeAt a.parts idx_a pa ta sa)
    (htb : SubtreeAt b.parts idx_b pb tb sb) :
    dualAt pa (ta ++ sa) pb (tb ++ sb) 1 false false =
      ⟨a.parts, idx_a, b.parts, idx_b, 1, false, false⟩ := by
  rw [dualAt, ← hta.eq, ← hta.idx, ← htb.eq, ← htb.idx]
  rfl

theorem singleAt_eq (hta : SubtreeAt a.parts idx_a pa ta sa)
    (htb : SubtreeAt parts idx_b pb tb sb) :
    singleAt pa (ta ++ sa) pb.length 1 false = ⟨a.parts, idx_a, idx_b, 1, false⟩ := by
  rw [singleAt, ← hta.eq, ← hta.idx, ← htb.idx]
  rfl

@[simp]
theorem update_parts (t : InferenceType) (parts : List InferenceTypePart) (modified : Bool) :
    (t.update parts modified).parts = parts := by
  cases modified <;> rfl

@[simp]
theorem update_has_marker (t : InferenceType) (parts : List InferenceTypePart) (modified : Bool) :
    (t.update parts modified).has_marker = t.has_marker := by
  cases modified <;> rfl

theorem infer_both_types_eq (hta : SubtreeAt a.parts idx_a pa ta sa)
    (htb : SubtreeAt b.parts idx_b pb tb sb) (h : signature.Merges ta tb ta' tb') :
    infer_subtrees_for_both_types a idx_a b idx_b =
      some (of_modified (decide (ta' ≠ ta)) (decide (tb' ≠ tb)),
        update a (pa ++ (ta' ++ sa)) (decide (ta' ≠ ta)),
        update b (pb ++ (tb' ++ sb)) (decide (tb' ≠ tb))) := by
  have hrun := infer_both_merges _ 1 pa pb sa sb false false h hta.tree htb.tree
    (length_lt_fuel hta htb)
  rw [dualAt_eq hta htb, Bool.false_or, Bool.false_or] at hrun
  simp only [infer_subtrees_for_both_types, hrun, Option.bind_eq_bind, Option.bind_some, dualAt,
    if_true, List.append_assoc]
  cases decide (ta' ≠ ta) <;> cases decide (tb' ≠ tb) <;> rfl

theorem infer_both_types_merges (ha : a.is_done = a.parts.all (·.is_concrete))
    (hb : b.is_done = b.parts.all (·.is_concrete)) (hta : SubtreeAt a.parts idx_a pa ta sa)
    (htb : SubtreeAt b.parts idx_b pb tb sb) (h : signature.Merges ta tb ta' tb') :
    ∃ res a' b', infer_subtrees_for_both_types a idx_a b idx_b = some (res, a', b') ∧
      res ≠ .incompatible ∧
      Unified a b a' b' pa ta sa pb tb sb ta' tb' res.modified_lhs res.modified_rhs := by
  obtain ⟨hpa, hmarka, hdonea⟩ := done_of_modified (pa ++ (ta' ++ sa)) (decide (ta' ≠ ta)) ha
    (by simp [hta.eq])
  obtain ⟨hpb, hmarkb, hdoneb⟩ := done_of_modified (pb ++ (tb' ++ sb)) (decide (tb' ≠ tb)) hb
    (by simp [htb.eq])
  obtain ⟨hres, hlhs, hrhs⟩ := of_modified_spec (decide (ta' ≠ ta)) (decide (tb' ≠ tb))
  refine ⟨_, _, _, infer_both_types_eq hta htb h, hres, hpa, hpb, ⟨hmarka, hmarkb⟩, h.erase_eq,
    h.meet.mostGeneral, h.refines, ?_, ?_, ?_, ?_⟩
  · rw [hlhs, decide_eq_true_iff]
  · rw [hrhs, decide_eq_true_iff]
  · rw [hpa, hdonea]
  · rw [hpb, hdoneb]

theorem infer_both_types_clashes (hta : SubtreeAt a.parts idx_a pa ta sa)
    (htb : SubtreeAt b.parts idx_b pb tb sb) (h : signature.Clashes ta tb) :
    ∃ a' b', infer_subtrees_for_both_types a idx_a b idx_b = some (.incompatible, a', b') := by
  obtain ⟨d, hrun⟩ := infer_both_clashes _ 1 pa pb sa sb false false h hta.tree htb.tree
    (length_lt_fuel hta htb)
  rw [dualAt_eq hta htb] at hrun
  simp only [infer_subtrees_for_both_types, hrun, Option.bind_eq_bind, Option.bind_some,
    Bool.false_eq_true, if_false]
  exact ⟨_, _, rfl⟩

theorem infer_single_type_merges (forced : Bool) (hta : SubtreeAt a.parts idx_a pa ta sa)
    (htb : SubtreeAt parts idx_b pb tb sb) (h : signature.Merges ta tb ta' tb') :
    ∃ res a', infer_subtree_for_single_type a idx_a parts idx_b forced = some (res, a') ∧
      (res = .incompatible ↔ forced = true ∧ tb' ≠ tb) ∧
      (res ≠ .incompatible → a'.parts = pa ++ (ta' ++ sa)) := by
  have hrun := infer_single_merges _ 1 pa pb sa sb false forced h hta.tree htb.tree
    (length_lt_fuel hta htb)
  rw [singleAt_eq hta htb, ← htb.eq, Bool.false_or] at hrun
  split at hrun
  case isTrue hf =>
    obtain ⟨d, hrun⟩ := hrun
    simp only [infer_subtree_for_single_type, hrun, Option.bind_eq_bind, Option.bind_some,
      Bool.false_eq_true, if_false]
    exact ⟨_, _, rfl, by simp [hf], by simp⟩
  case isFalse hf =>
    obtain ⟨i, hrun⟩ := hrun
    simp only [infer_subtree_for_single_type, hrun, Option.bind_eq_bind, Option.bind_some, singleAt,
      if_true, List.append_assoc]
    cases decide (ta' ≠ ta)
    case true  => exact ⟨_, _, rfl, by simp [hf], fun _ => rfl⟩
    case false => exact ⟨_, _, rfl, by simp [hf], fun _ => rfl⟩

-- The type that is inferred, if a forced template does not have to change.
theorem infer_single_type_eq (forced : Bool) (hta : SubtreeAt a.parts idx_a pa ta sa)
    (htb : SubtreeAt parts idx_b pb tb sb) (h : signature.Merges ta tb ta' tb')
    (hforced : forced = true → tb' = tb) :
    infer_subtree_for_single_type a idx_a parts idx_b forced =
      some (if ta' ≠ ta then .modified else .unmodified,
        update a (pa ++ (ta' ++ sa)) (decide (ta' ≠ ta))) := by
  have hrun := infer_single_merges _ 1 pa pb sa sb false forced h hta.tree htb.tree
    (length_lt_fuel hta htb)
  rw [singleAt_eq hta htb, ← htb.eq, Bool.false_or, if_neg fun hf => hf.right (hforced hf.left)] at hrun
  obtain ⟨i, hrun⟩ := hrun
  simp only [infer_subtree_for_single_type, hrun, Option.bind_eq_bind, Option.bind_some, singleAt,
    if_true, List.append_assoc]
  by_cases hne : ta' ≠ ta
  case pos => simp [hne, update]
  case neg => simp [hne, update]

theorem infer_single_type_clashes (forced : Bool) (hta : SubtreeAt a.parts idx_a pa ta sa)
    (htb : SubtreeAt parts idx_b pb tb sb) (h : signature.Clashes ta tb) :
    ∃ a', infer_subtree_for_single_type a idx_a parts idx_b forced = some (.incompatible, a') ∧
      (forced = false → ∃ ta', a'.parts = pa ++ (ta' ++ sa) ∧ signature.Refines ta ta') := by
  obtain ⟨d, hrun, hkept⟩ := infer_single_clashes _ 1 pa pb sa sb false forced h hta.tree htb.tree
    (length_lt_fuel hta htb)
  rw [singleAt_eq hta htb, ← htb.eq] at hrun
  simp only [infer_subtree_for_single_type, hrun, Option.bind_eq_bind, Option.bind_some,
    Bool.false_eq_true, if_false]
  exact ⟨_, rfl, hkept⟩

theorem check_subtrees_merges (hta : SubtreeAt a.parts idx_a pa ta sa)
    (htb : SubtreeAt parts idx_b pb tb sb) (h : signature.Merges ta tb ta' tb') :
    check_subtrees a.parts idx_a parts idx_b = some true := by
  have hrun := check_both_merges _ 1 pa pb sa sb h hta.tree htb.tree (length_lt_fuel hta htb)
  rwa [← hta.eq, ← hta.idx, ← htb.eq, ← htb.idx] at hrun

theorem check_subtrees_clashes (hta : SubtreeAt a.parts idx_a pa ta sa)
    (htb : SubtreeAt parts idx_b pb tb sb) (h : signature.Clashes ta tb) :
    check_subtrees a.parts idx_a parts idx_b = some false := by
  have hrun := check_both_clashes _ 1 pa pb sa sb h hta.tree htb.tree (length_lt_fuel hta htb)
  rwa [← hta.eq, ← hta.idx, ← htb.eq, ← htb.idx] at hrun

-- Unification of the types at two indices: it fails if they have no common instance, and otherwise it
-- refines both, and nothing else, to the most general type that refines them.
theorem infer_subtrees_for_both_types_unifies (ha : a.WellFormed) (hb : b.WellFormed)
    (hia : idx_a < a.parts.length) (hib : idx_b < b.parts.length) :
    ∃ pa ta sa pb tb sb, SubtreeAt a.parts idx_a pa ta sa ∧ SubtreeAt b.parts idx_b pb tb sb ∧
    ∃ res a' b', infer_subtrees_for_both_types a idx_a b idx_b = some (res, a', b') ∧
      (res = .incompatible ↔
        ¬signature.HaveInstance (signature.erase ta) (signature.erase tb)) ∧
      (res ≠ .incompatible → ∃ ta' tb',
        Unified a b a' b' pa ta sa pb tb sb ta' tb' res.modified_lhs res.modified_rhs) := by
  obtain ⟨pa, ta, sa, hta⟩ := SubtreeAt.exists_of_lt ha.tree hia
  obtain ⟨pb, tb, sb, htb⟩ := SubtreeAt.exists_of_lt hb.tree hib
  refine ⟨pa, ta, sa, pb, tb, sb, hta, htb, ?_⟩
  match TermSignature.merges_or_clashes hta.tree htb.tree with
  | .inl ⟨ta', tb', h⟩ =>
    obtain ⟨res, a', b', he, hres, hu⟩ := infer_both_types_merges ha.done hb.done hta htb h
    have hi := h.meet.haveInstance TermSignature.erase_unmarked
    exact ⟨res, a', b', he, by simp [hres, hi], fun _ => ⟨ta', tb', hu⟩⟩
  | .inr h =>
    obtain ⟨a', b', he⟩ := infer_both_types_clashes hta htb h
    exact ⟨.incompatible, a', b', he, by simp [h.disjoint.not_haveInstance], fun h => absurd rfl h⟩

-- An array-like argument of a polymorphic call is given a string.
theorem infer_string_argument :
    let a : InferenceType := ⟨true, false, [.arrayLike, .marker 0, .unknown]⟩
    let b : InferenceType := ⟨false, true, [.string, .character]⟩
    a.WellFormed ∧ b.WellFormed ∧ infer_subtrees_for_both_types a 0 b 0 =
      some (.first, ⟨true, true, [.string, .marker 0, .character]⟩, b) ∧
    ∃ pa ta sa pb tb sb, SubtreeAt a.parts 0 pa ta sa ∧ SubtreeAt b.parts 0 pb tb sb ∧
    ∃ res a' b', infer_subtrees_for_both_types a 0 b 0 = some (res, a', b') ∧
      (res = .incompatible ↔
        ¬signature.HaveInstance (signature.erase ta) (signature.erase tb)) ∧
      (res ≠ .incompatible → ∃ ta' tb',
        Unified a b a' b' pa ta sa pb tb sb ta' tb' res.modified_lhs res.modified_rhs) := by
  intro a b
  have ha : a.WellFormed := ⟨.cons (.cons (.cons .nil)), rfl⟩
  have hb : b.WellFormed := ⟨.cons (.cons .nil), rfl⟩
  exact ⟨ha, hb, by decide, infer_subtrees_for_both_types_unifies ha hb (by decide) (by decide)⟩

-- The routines find the same types incompatible and infer the same type. A forced template has to
-- refine the type.
theorem inference_routines_agree (ha : a.WellFormed) (hb : b.WellFormed)
    (hia : idx_a < a.parts.length) (hib : idx_b < b.parts.length) :
    ∃ pa ta sa pb tb sb, SubtreeAt a.parts idx_a pa ta sa ∧ SubtreeAt b.parts idx_b pb tb sb ∧
    ∃ dual a₁ b₁ single a₂ forced a₃,
      infer_subtrees_for_both_types a idx_a b idx_b = some (dual, a₁, b₁) ∧
      infer_subtree_for_single_type a idx_a b.parts idx_b false = some (single, a₂) ∧
      infer_subtree_for_single_type a idx_a b.parts idx_b true = some (forced, a₃) ∧
      check_subtrees a.parts idx_a b.parts idx_b = some (decide (dual ≠ .incompatible)) ∧
      (single = .incompatible ↔ dual = .incompatible) ∧
      (single ≠ .incompatible → a₂.parts = a₁.parts) ∧
      (forced ≠ .incompatible ↔ signature.Refines (signature.erase ta) (signature.erase tb)) ∧
      (forced ≠ .incompatible → ∃ ta', a₃.parts = pa ++ (ta' ++ sa) ∧ signature.Refines ta ta' ∧
        signature.erase ta' = signature.erase tb) := by
  obtain ⟨pa, ta, sa, hta⟩ := SubtreeAt.exists_of_lt ha.tree hia
  obtain ⟨pb, tb, sb, htb⟩ := SubtreeAt.exists_of_lt hb.tree hib
  refine ⟨pa, ta, sa, pb, tb, sb, hta, htb, ?_⟩
  match TermSignature.merges_or_clashes hta.tree htb.tree with
  | .inl ⟨ta', tb', h⟩ =>
    obtain ⟨dual, a₁, b₁, hdual, hdn, hu⟩ := infer_both_types_merges ha.done hb.done hta htb h
    obtain ⟨single, a₂, hsingle, hsn, hs⟩ := infer_single_type_merges false hta htb h
    obtain ⟨forced, a₃, hforced, hfn, hf⟩ := infer_single_type_merges true hta htb h
    have hcheck := check_subtrees_merges hta htb h
    have hsn : single ≠ .incompatible := fun he => nomatch (hsn.mp he).left
    have hfn : forced ≠ .incompatible ↔ tb' = tb := by
      rw [ne_eq, hfn]
      simp
    refine ⟨dual, a₁, b₁, single, a₂, forced, a₃, hdual, hsingle, hforced, ?_, ?_, ?_, ?_, ?_⟩
    · rw [hcheck, decide_eq_true hdn]
    · exact iff_of_false hsn hdn
    · exact fun hsn => (hs hsn).trans hu.parts_a.symm
    · exact hfn.trans h.right_eq_iff
    · intro hne
      refine ⟨ta', hf hne, h.refines.left, ?_⟩
      rw [h.erase_eq, hfn.mp hne]
  | .inr h =>
    obtain ⟨a₁, b₁, hdual⟩ := infer_both_types_clashes hta htb h
    obtain ⟨a₂, hsingle, _⟩ := infer_single_type_clashes false hta htb h
    obtain ⟨a₃, hforced, _⟩ := infer_single_type_clashes true hta htb h
    have hcheck := check_subtrees_clashes hta htb h
    have hn : ¬signature.Refines (signature.erase ta) (signature.erase tb) :=
      fun hr => h.disjoint _ ⟨hr, .refl _⟩
    exact ⟨_, a₁, b₁, _, a₂, _, a₃, hdual, hsingle, hforced, hcheck, by simp, fun h => absurd rfl h,
      by simp [hn], fun h => absurd rfl h⟩

-- A number is inferred to be an integer, but an integer is not forced to be a number.
theorem number_routines_agree :
    let a : InferenceType := ⟨false, false, [.integerLike]⟩
    let b : InferenceType := ⟨false, false, [.numberLike]⟩
    ∃ pa ta sa pb tb sb, SubtreeAt a.parts 0 pa ta sa ∧ SubtreeAt b.parts 0 pb tb sb ∧
    ∃ dual a₁ b₁ single a₂ forced a₃,
      infer_subtrees_for_both_types a 0 b 0 = some (dual, a₁, b₁) ∧
      infer_subtree_for_single_type a 0 b.parts 0 false = some (single, a₂) ∧
      infer_subtree_for_single_type a 0 b.parts 0 true = some (forced, a₃) ∧
      check_subtrees a.parts 0 b.parts 0 = some (decide (dual ≠ .incompatible)) ∧
      (single = .incompatible ↔ dual = .incompatible) ∧
      (single ≠ .incompatible → a₂.parts = a₁.parts) ∧
      (forced ≠ .incompatible ↔ signature.Refines (signature.erase ta) (signature.erase tb)) ∧
      (forced ≠ .incompatible → ∃ ta', a₃.parts = pa ++ (ta' ++ sa) ∧ signature.Refines ta ta' ∧
        signature.erase ta' = signature.erase tb) := by
  intro a b
  have ha : a.WellFormed := ⟨.cons .nil, rfl⟩
  have hb : b.WellFormed := ⟨.cons .nil, rfl⟩
  exact inference_routines_agree ha hb (by decide) (by decide)

end Routines

end InferenceType
end Reowolf.Types
