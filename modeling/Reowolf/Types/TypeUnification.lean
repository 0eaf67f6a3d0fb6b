import Mathlib.Data.Bool.Basic
import Reowolf.Library.Unification
import Reowolf.Types.InferenceType

namespace Reowolf.Types

namespace InferenceTypePart

-- The number of subtypes.
def arity (part : InferenceTypePart) : Nat :=
  (part.depth_change + 1).toNat

theorem depth_change_eq (part : InferenceTypePart) : part.depth_change = part.arity - 1 := by
  cases part <;> simp [arity, depth_change]

theorem may_be_inferred_from_iff {part arg : InferenceTypePart} :
    part.may_be_inferred_from arg = true ↔
      part = integerLike ∧ arg.is_concrete_integer = true ∨
      part = numberLike ∧ (arg.is_concrete_integer = true ∨ arg = integerLike) ∨
      part = arrayLike ∧ arg.is_concrete_arraylike = true ∨
      part = portLike ∧ arg.is_concrete_port = true := by
  simp only [may_be_inferred_from, Bool.or_eq_true, Bool.and_eq_true, decide_eq_true_eq, or_assoc]
  rfl

-- The parts of types as the parts of terms: the unknown part is the hole.
def signature : TermSignature InferenceTypePart where
  arity   := arity
  hole    := unknown
  marker  := is_marker
  narrows := fun p q => p.may_be_inferred_from q = true
  ground  := fun p => p.is_concrete = true
  arity_hole := rfl
  arity_marker := by
    intro p h
    cases p <;> first | rfl | cases h
  arity_narrows := by
    intro p q h
    rw [may_be_inferred_from_iff] at h
    cases q <;> simp [is_concrete_integer, is_concrete_arraylike, is_concrete_port] at h <;>
      grind [arity, depth_change]
  hole_unmarked := rfl
  narrows_unmarked := by
    intro p q h
    rw [may_be_inferred_from_iff] at h
    cases q <;> simp [is_concrete_integer, is_concrete_arraylike, is_concrete_port] at h <;>
      grind [is_marker]
  narrows_filled := by
    intro p q h
    rw [may_be_inferred_from_iff] at h
    cases q <;> simp [is_concrete_integer, is_concrete_arraylike, is_concrete_port] at h <;> grind
  narrows_trans := by
    intro p q r h h'
    rw [may_be_inferred_from_iff] at h h' ⊢
    have hq : q = integerLike ∧ p = numberLike := by
      cases q <;> simp [is_concrete_integer, is_concrete_arraylike, is_concrete_port] at h h' ⊢
      exact h
    grind
  narrows_irrefl := by
    intro p h
    rw [may_be_inferred_from_iff] at h
    cases p <;> simp [is_concrete_integer, is_concrete_arraylike, is_concrete_port] at h
  narrows_nested := by
    intro p q r h h'
    simp only [may_be_inferred_from_iff] at h h' ⊢
    cases r <;> simp [is_concrete_integer, is_concrete_arraylike, is_concrete_port] at h h' <;> grind
  exists_ground := by
    intro p hp
    cases p <;> simp [is_concrete] at hp ⊢
    case numberLike  => exact ⟨uint8, rfl, rfl⟩
    case integerLike => exact ⟨uint8, rfl, rfl⟩
    case arrayLike   => exact ⟨array, rfl, rfl⟩
    case portLike    => exact ⟨input, rfl, rfl⟩
  exists_ground_const := ⟨bool, rfl, rfl, rfl⟩

end InferenceTypePart

open InferenceTypePart (signature)

theorem signature_hole : signature.hole = .unknown :=
  rfl

namespace InferenceType

variable {n fuel idx : Nat} {p q : InferenceTypePart} {t l m r : List InferenceTypePart}
variable {pa pb ra rb ps : List InferenceTypePart}

theorem getElem?_front : (pa ++ p :: ra)[pa.length]? = some p := by
  simp

theorem insertIdx_front (pa ra : List InferenceTypePart) (p : InferenceTypePart) :
    (pa ++ ra).insertIdx pa.length p = pa ++ p :: ra := by
  induction pa with
  | nil          => rfl
  | cons _ pa ih => exact congrArg _ ih

theorem set_front : (pa ++ p :: ra).set pa.length q = pa ++ q :: ra := by
  simp

-- The walk through a forest of `n` types ends behind it.
theorem subtree_end_forest (h : signature.Forest n l) (hn : n ≠ 0) :
    subtree_end n idx (l ++ r) = some (idx + l.length) := by
  induction h generalizing idx with
  | nil => exact absurd rfl hn
  | @cons n p l h ih =>
    have hd : ((n + 1 : Nat) : Int) + p.depth_change = (n + signature.arity p : Nat) := by
      have := p.depth_change_eq
      simp only [signature]
      omega
    rw [List.cons_append, subtree_end, hd]
    split
    case isTrue hz =>
      have hz : n + signature.arity p = 0 := by omega
      rw [hz] at h
      cases h
      simp
    case isFalse hz =>
      have hz : n + signature.arity p ≠ 0 := by omega
      rw [ih hz, List.length_cons]
      congr 1
      omega

theorem find_subtree_end_idx_forest (pa r : List InferenceTypePart) (h : signature.Forest 1 t) :
    find_subtree_end_idx (pa ++ (t ++ r)) pa.length = some (pa.length + t.length) := by
  rw [find_subtree_end_idx, List.drop_left]
  exact subtree_end_forest h Nat.one_ne_zero

theorem insert_parts_eq (pa ra ps : List InferenceTypePart) :
    insert_parts (pa ++ ra) pa.length ps =
      (pa ++ (signature.erase ps ++ ra), pa.length + (signature.erase ps).length) := by
  induction ps generalizing pa with
  | nil => simp [insert_parts]
  | cons p ps ih =>
    rw [insert_parts]
    split
    case isTrue hp => rw [ih, TermSignature.erase_cons_marker hp]
    case isFalse hp =>
      have hp := Bool.eq_false_iff.mpr hp
      have := ih (pa ++ [p])
      rw [List.append_assoc, List.length_append] at this
      rw [insertIdx_front, TermSignature.erase_cons_unmarked hp]
      refine this.trans ?_
      simp [Nat.add_assoc, Nat.add_comm 1]

theorem infer_part_narrows (h : p.may_be_inferred_from q = true) :
    infer_part_for_single_type (pa ++ p :: ra) pa.length (pb ++ q :: rb) pb.length =
      some (some ⟨pa ++ q :: ra, pa.length + 1, pb.length + 1, p.depth_change⟩) := by
  simp [infer_part_for_single_type, h]

theorem infer_part_unknown (ht : signature.Forest 1 (q :: t)) :
    infer_part_for_single_type (pa ++ .unknown :: ra) pa.length (pb ++ q :: (t ++ rb)) pb.length =
      some (some ⟨pa ++ q :: (signature.erase t ++ ra), pa.length + ((signature.erase t).length + 1),
        pb.length + (t.length + 1), -1⟩) := by
  have hn : ¬InferenceTypePart.may_be_inferred_from .unknown q = true := by
    simp [InferenceTypePart.may_be_inferred_from]
  have hend := find_subtree_end_idx_forest pb rb ht
  have hcopy : ((pb ++ q :: (t ++ rb)).take (pb.length + (q :: t).length)).drop (pb.length + 1) = t := by
    rw [← List.cons_append, ← List.append_assoc, ← List.length_append, List.take_left]
    simp
  have hins := insert_parts_eq (pa ++ [q]) ra t
  rw [List.append_assoc, List.length_append] at hins
  simp only [infer_part_for_single_type, getElem?_front, Option.bind_eq_bind, Option.bind_some,
    hn, if_true]
  rw [List.cons_append] at hend
  rw [hend, Option.bind_some, hcopy, set_front]
  refine (congrArg (fun r => some (some (InferredPart.mk r.1 r.2 _ _))) hins).trans ?_
  simp [Nat.add_assoc, Nat.add_comm 1]

theorem infer_part_none (hp : p ≠ .unknown) (h : ¬p.may_be_inferred_from q = true) :
    infer_part_for_single_type (pa ++ p :: ra) pa.length (pb ++ q :: rb) pb.length = some none := by
  simp [infer_part_for_single_type, h, hp]

theorem check_part_narrows (h : p.may_be_inferred_from q = true) :
    check_part_for_single_type (pa ++ p :: ra) pa.length (pb ++ q :: rb) pb.length =
      some (some (pa.length + 1, pb.length + 1, p.depth_change)) := by
  simp [check_part_for_single_type, h]

theorem check_part_unknown (ht : signature.Forest 1 (q :: t)) :
    check_part_for_single_type (pa ++ .unknown :: ra) pa.length (pb ++ q :: (t ++ rb)) pb.length =
      some (some (pa.length + 1, pb.length + (t.length + 1), -1)) := by
  have hn : ¬InferenceTypePart.may_be_inferred_from .unknown q = true := by
    simp [InferenceTypePart.may_be_inferred_from]
  have hend := find_subtree_end_idx_forest pb rb ht
  simp only [check_part_for_single_type, getElem?_front, Option.bind_eq_bind, Option.bind_some,
    hn, if_true]
  rw [List.cons_append] at hend
  rw [hend]
  rfl

theorem check_part_none (hp : p ≠ .unknown) (h : ¬p.may_be_inferred_from q = true) :
    check_part_for_single_type (pa ++ p :: ra) pa.length (pb ++ q :: rb) pb.length = some none := by
  simp [check_part_for_single_type, h, hp]

-- A part and one that it narrows to.
theorem narrows_apart (h : signature.narrows p q) :
    p.is_marker = false ∧ q.is_marker = false ∧ p ≠ q := by
  obtain ⟨hp, hq⟩ := signature.narrows_unmarked h
  exact ⟨hp, hq, fun he => signature.narrows_irrefl (he ▸ h)⟩

theorem not_inferred_back (h : signature.narrows q p) : ¬p.may_be_inferred_from q = true :=
  fun hback => signature.narrows_irrefl (signature.narrows_trans h hback)

theorem ne_of_unmarked {k : InferenceTypePart} (hp : p.is_marker = false) (hk : k.is_marker = true) : p ≠ k := by
  intro he
  rw [he, hk] at hp
  cases hp

-- The depth is the number of types that are still ahead of both indices.
theorem depth_step {k : Nat} (h : n = k + 1) :
    (n : Int) + p.depth_change = (k + signature.arity p : Nat) := by
  have := p.depth_change_eq
  simp only [signature]
  omega

section Loops

variable {l m l₀ m₀ x' y' l' m' : List InferenceTypePart}

-- The state of the dual inference in front of two lists of parts.
def dualAt (pa l pb m : List InferenceTypePart) (n : Nat) (ma mb : Bool) : DualInference where
  parts_a    := pa ++ l
  idx_a      := pa.length
  parts_b    := pb ++ m
  idx_b      := pb.length
  depth      := n
  modified_a := ma
  modified_b := mb

theorem infer_both_advances (fuel : Nat) (pa pb sa sb : List InferenceTypePart) (ma mb : Bool)
    (h : signature.Advances l m l₀ m₀ x' y')
    (hl : signature.Forest (n + 1) l) (hm : signature.Forest (n + 1) m) :
    ∃ k, signature.Forest k l₀ ∧ signature.Forest k m₀ ∧
      infer_both (fuel + 1) (dualAt pa (l ++ sa) pb (m ++ sb) (n + 1) ma mb) =
      infer_both fuel (dualAt (pa ++ x') (l₀ ++ sa) (pb ++ y') (m₀ ++ sb) k
        (ma || decide (x' ++ l₀ ≠ l)) (mb || decide (y' ++ m₀ ≠ m))) := by
  have hd : ((n + 1 : Nat) : Int) > 0 := by omega
  rw [infer_both, dualAt]
  simp only [hd, if_true]
  cases h with
  | @same p l m =>
    cases hl with
    | cons hl =>
      cases hm with
      | cons hm =>
        refine ⟨_, hl, hm, ?_⟩
        simp only [List.cons_append, getElem?_front, Option.bind_eq_bind, Option.bind_some, if_true,
          depth_step rfl]
        simp [dualAt]
  | @markerLeft k p l m hk hne =>
    refine ⟨n + 1, hl.of_marker hk, hm, ?_⟩
    have hk : k.is_marker = true := hk
    simp only [List.cons_append, getElem?_front, Option.bind_eq_bind, Option.bind_some, hne, hk,
      if_true, if_false]
    simp [dualAt]
  | @markerRight k p l m hp hk =>
    refine ⟨n + 1, hl, hm.of_marker hk, ?_⟩
    have hp : p.is_marker = false := hp
    have hk : k.is_marker = true := hk
    have hne := ne_of_unmarked hp hk
    simp only [List.cons_append, getElem?_front, Option.bind_eq_bind, Option.bind_some, hne, hp, hk,
      if_true, if_false, Bool.false_eq_true]
    simp [dualAt]
  | @narrowLeft p q l m hpq =>
    obtain ⟨hp, hq, hne⟩ := narrows_apart hpq
    cases hl with
    | cons hl =>
      cases hm with
      | cons hm =>
        refine ⟨_, hl, signature.arity_narrows hpq ▸ hm, ?_⟩
        simp only [List.cons_append, getElem?_front, Option.bind_eq_bind, Option.bind_some, hne, hp,
          hq, if_false, Bool.false_eq_true, infer_part_narrows hpq, depth_step rfl]
        simp [dualAt, hne.symm]
  | @narrowRight p q l m hpq =>
    obtain ⟨hq, hp, hne⟩ := narrows_apart hpq
    replace hne := hne.symm
    have hn  := not_inferred_back hpq
    have hp' := (signature.narrows_filled hpq).right
    cases hl with
    | cons hl =>
      cases hm with
      | cons hm =>
        refine ⟨_, hl, signature.arity_narrows hpq ▸ hm, ?_⟩
        simp only [List.cons_append, getElem?_front, Option.bind_eq_bind, Option.bind_some, hne, hp,
          hq, if_false, Bool.false_eq_true, infer_part_none hp' hn, infer_part_narrows hpq]
        rw [depth_step rfl, signature.arity_narrows hpq]
        simp [dualAt, hne]
  | @fillLeft q t l m ht hq hne =>
    have hq : q.is_marker = false := hq
    have hne : InferenceTypePart.unknown ≠ q := hne.symm
    refine ⟨n, hl.of_hole, hm.of_append ht, ?_⟩
    simp only [signature_hole, List.cons_append, List.append_assoc, getElem?_front,
      Option.bind_eq_bind, Option.bind_some, hne, hq, if_false, Bool.false_eq_true,
      infer_part_unknown ht, show InferenceTypePart.unknown.is_marker = false from rfl]
    simp [dualAt, hne.symm, Int.add_neg_cancel_right]
  | @fillRight p t l m ht hp hne =>
    have hne : p ≠ .unknown := hne
    have hp : p.is_marker = false := hp
    have hn : ¬p.may_be_inferred_from .unknown = true :=
      fun h => (signature.narrows_filled h).right rfl
    refine ⟨n, hl.of_append ht, hm.of_hole, ?_⟩
    simp only [signature_hole, List.cons_append, List.append_assoc, getElem?_front,
      Option.bind_eq_bind, Option.bind_some, hne, hp, if_false, Bool.false_eq_true,
      infer_part_none hne hn, infer_part_unknown ht,
      show InferenceTypePart.unknown.is_marker = false from rfl]
    simp [dualAt, hne, Int.add_neg_cancel_right]

theorem infer_both_merges (fuel n : Nat) (pa pb sa sb : List InferenceTypePart) (ma mb : Bool)
    (h : signature.Merges l m l' m') (hl : signature.Forest n l)
    (hm : signature.Forest n m) (hf : l.length + m.length < fuel) :
    infer_both fuel (dualAt pa (l ++ sa) pb (m ++ sb) n ma mb) =
      some (true, dualAt (pa ++ l') sa (pb ++ m') sb 0
        (ma || decide (l' ≠ l)) (mb || decide (m' ≠ m))) := by
  induction h generalizing n fuel pa pb ma mb with
  | nil =>
    cases hl
    cases fuel with
    | zero => cases hf
    | succ => simp [infer_both, dualAt]
  | step h _ ih =>
    cases fuel with
    | zero => cases hf
    | succ fuel =>
      cases n with
      | zero =>
        cases hl
        cases h
      | succ n =>
        obtain ⟨k, hl₀, hm₀, he⟩ := infer_both_advances fuel pa pb sa sb ma mb h hl hm
        have hlt := h.length_lt
        rw [he, ih _ _ _ _ _ _ hl₀ hm₀ (by omega)]
        have hma := h.left_eq_iff
        have hmb := h.right_eq_iff
        grind [dualAt]

theorem infer_both_clashes (fuel n : Nat) (pa pb sa sb : List InferenceTypePart) (ma mb : Bool)
    (h : signature.Clashes l m) (hl : signature.Forest n l)
    (hm : signature.Forest n m) (hf : l.length + m.length < fuel) :
    ∃ d, infer_both fuel (dualAt pa (l ++ sa) pb (m ++ sb) n ma mb) = some (false, d) := by
  induction h generalizing n fuel pa pb ma mb with
  | @here p q l m h =>
    have hp : p.is_marker = false := h.not_marker.left
    have hq : q.is_marker = false := h.not_marker.right
    obtain ⟨k, hn, _⟩ := hl.of_cons
    subst hn
    cases fuel with
    | zero => cases hf
    | succ fuel =>
      have hd : ((k + 1 : Nat) : Int) > 0 := by omega
      simp only [infer_both, dualAt, hd, List.cons_append, getElem?_front, Option.bind_eq_bind,
        Option.bind_some, h.ne, hp, hq, if_true, if_false, Bool.false_eq_true,
        infer_part_none h.not_hole.left h.not_narrows.left,
        infer_part_none h.not_hole.right h.not_narrows.right]
      exact ⟨_, rfl⟩
  | step h _ ih =>
    cases fuel with
    | zero => cases hf
    | succ fuel =>
      cases n with
      | zero =>
        cases hl
        cases h
      | succ n =>
        obtain ⟨k, hl₀, hm₀, he⟩ := infer_both_advances fuel pa pb sa sb ma mb h hl hm
        have hlt := h.length_lt
        rw [he]
        exact ih _ _ _ _ _ _ hl₀ hm₀ (by omega)

def singleAt (pa l : List InferenceTypePart) (idx n : Nat) (ma : Bool) : SingleInference where
  to_infer     := pa ++ l
  to_infer_idx := pa.length
  template_idx := idx
  depth        := n
  modified     := ma

-- The template does not change. If it is forced, then it must not have to.
theorem infer_single_advances (fuel : Nat) (pa pb sa sb : List InferenceTypePart)
    (ma forced : Bool) (h : signature.Advances l m l₀ m₀ x' y')
    (hl : signature.Forest (n + 1) l) (hm : signature.Forest (n + 1) m) :
    ∃ k y, m = y ++ m₀ ∧ signature.Forest k l₀ ∧ signature.Forest k m₀ ∧
      if forced = true ∧ y' ++ m₀ ≠ m then
        ∃ d, infer_single (pb ++ (m ++ sb)) forced (fuel + 1)
          (singleAt pa (l ++ sa) pb.length (n + 1) ma) = some (false, d)
      else
        infer_single (pb ++ (m ++ sb)) forced (fuel + 1)
          (singleAt pa (l ++ sa) pb.length (n + 1) ma) =
        infer_single (pb ++ (m ++ sb)) forced fuel
          (singleAt (pa ++ x') (l₀ ++ sa) (pb ++ y).length k (ma || decide (x' ++ l₀ ≠ l))) := by
  have hd : ((n + 1 : Nat) : Int) > 0 := by omega
  rw [infer_single, singleAt]
  simp only [hd, if_true]
  cases h with
  | @same p l m =>
    cases hl with
    | cons hl =>
      cases hm with
      | cons hm =>
        refine ⟨_, [p], rfl, hl, hm, ?_⟩
        simp only [List.cons_append, getElem?_front, Option.bind_eq_bind, Option.bind_some, if_true,
          depth_step rfl]
        simp [singleAt]
  | @markerLeft k p l m hk hne =>
    refine ⟨n + 1, [], rfl, hl.of_marker hk, hm, ?_⟩
    have hk : k.is_marker = true := hk
    simp only [List.cons_append, getElem?_front, Option.bind_eq_bind, Option.bind_some, hne, hk,
      if_true, if_false]
    simp [singleAt]
  | @markerRight k p l m hp hk =>
    refine ⟨n + 1, [k], rfl, hl, hm.of_marker hk, ?_⟩
    have hp : p.is_marker = false := hp
    have hk : k.is_marker = true := hk
    have hne := ne_of_unmarked hp hk
    simp only [List.cons_append, getElem?_front, Option.bind_eq_bind, Option.bind_some, hne, hp, hk,
      if_true, if_false, Bool.false_eq_true]
    simp [singleAt]
  | @narrowLeft p q l m hpq =>
    obtain ⟨hp, hq, hne⟩ := narrows_apart hpq
    cases hl with
    | cons hl =>
      cases hm with
      | cons hm =>
        refine ⟨_, [q], rfl, hl, signature.arity_narrows hpq ▸ hm, ?_⟩
        simp only [List.cons_append, getElem?_front, Option.bind_eq_bind, Option.bind_some, hne, hp,
          hq, if_false, Bool.false_eq_true, infer_part_narrows hpq, depth_step rfl]
        simp [singleAt, hne.symm]
  | @narrowRight p q l m hpq =>
    obtain ⟨hq, hp, hne⟩ := narrows_apart hpq
    replace hne := hne.symm
    have hn  := not_inferred_back hpq
    have hp' := (signature.narrows_filled hpq).right
    cases hl with
    | cons hl =>
      cases hm with
      | cons hm =>
        refine ⟨_, [q], rfl, hl, signature.arity_narrows hpq ▸ hm, ?_⟩
        simp only [List.cons_append, getElem?_front, Option.bind_eq_bind, Option.bind_some, hne, hp,
          hq, if_false, Bool.false_eq_true, infer_part_none hp' hn, check_part_narrows hpq]
        rw [depth_step rfl, signature.arity_narrows hpq]
        cases forced <;> simp [singleAt, hne]
  | @fillLeft q t l m ht hq hne =>
    have hq : q.is_marker = false := hq
    have hne : InferenceTypePart.unknown ≠ q := hne.symm
    refine ⟨n, q :: t, rfl, hl.of_hole, hm.of_append ht, ?_⟩
    simp only [signature_hole, List.cons_append, List.append_assoc, getElem?_front,
      Option.bind_eq_bind, Option.bind_some, hne, hq, if_false, Bool.false_eq_true,
      infer_part_unknown ht, show InferenceTypePart.unknown.is_marker = false from rfl]
    simp [singleAt, hne.symm, Int.add_neg_cancel_right]
  | @fillRight p t l m ht hp hne =>
    have hne : p ≠ .unknown := hne
    have hp : p.is_marker = false := hp
    have hn : ¬p.may_be_inferred_from .unknown = true :=
      fun h => (signature.narrows_filled h).right rfl
    refine ⟨n, [.unknown], rfl, hl.of_append ht, hm.of_hole, ?_⟩
    simp only [signature_hole, List.cons_append, List.append_assoc, getElem?_front,
      Option.bind_eq_bind, Option.bind_some, hne, hp, if_false, Bool.false_eq_true,
      infer_part_none hne hn, check_part_unknown ht,
      show InferenceTypePart.unknown.is_marker = false from rfl]
    cases forced <;> simp [singleAt, hne, Int.add_neg_cancel_right]

theorem infer_single_merges (fuel n : Nat) (pa pb sa sb : List InferenceTypePart) (ma forced : Bool)
    (h : signature.Merges l m l' m') (hl : signature.Forest n l)
    (hm : signature.Forest n m) (hf : l.length + m.length < fuel) :
    if forced = true ∧ m' ≠ m then
      ∃ d, infer_single (pb ++ (m ++ sb)) forced fuel (singleAt pa (l ++ sa) pb.length n ma) =
        some (false, d)
    else
      ∃ i, infer_single (pb ++ (m ++ sb)) forced fuel (singleAt pa (l ++ sa) pb.length n ma) =
        some (true, singleAt (pa ++ l') sa i 0 (ma || decide (l' ≠ l))) := by
  induction h generalizing n fuel pa pb ma with
  | nil =>
    cases hl
    cases fuel with
    | zero => cases hf
    | succ => simp [infer_single, singleAt]
  | @step l m l₀ m₀ x' y' l' m' h _ ih =>
    cases fuel with
    | zero => cases hf
    | succ fuel =>
      cases n with
      | zero =>
        cases hl
        cases h
      | succ n =>
        obtain ⟨k, y, hy, hl₀, hm₀, he⟩ := infer_single_advances fuel pa pb sa sb ma forced h hl hm
        have hlt := h.length_lt
        have hih := ih fuel k (pa ++ x') (pb ++ y) (ma || decide (x' ++ l₀ ≠ l)) hl₀ hm₀ (by omega)
        have hm' : pb ++ y ++ (m₀ ++ sb) = pb ++ (m ++ sb) := by simp [hy]
        rw [hm'] at hih
        by_cases hc : forced = true ∧ y' ++ m₀ ≠ m
        case pos =>
          rw [if_pos hc] at he
          rw [if_pos ⟨hc.left, fun hm => hc.right ((h.right_eq_iff m').mp hm).left⟩]
          exact he
        case neg =>
          rw [if_neg hc] at he
          rw [he]
          have : (forced = true ∧ y' ++ m' ≠ m) ↔ (forced = true ∧ m' ≠ m₀) := by
            have := h.right_eq_iff m'
            tauto
          simp only [this]
          have hma : (ma || decide (x' ++ l' ≠ l)) =
              (ma || decide (x' ++ l₀ ≠ l) || decide (l' ≠ l₀)) := by
            have := h.left_eq_iff l'
            grind
          rw [hma, ← List.append_assoc pa]
          exact hih

-- What has been inferred before the clash remains.
theorem infer_single_clashes (fuel n : Nat) (pa pb sa sb : List InferenceTypePart) (ma forced : Bool)
    (h : signature.Clashes l m) (hl : signature.Forest n l)
    (hm : signature.Forest n m) (hf : l.length + m.length < fuel) :
    ∃ d, infer_single (pb ++ (m ++ sb)) forced fuel (singleAt pa (l ++ sa) pb.length n ma) =
      some (false, d) ∧
      (forced = false → ∃ l', d.to_infer = pa ++ (l' ++ sa) ∧ signature.Refines l l') := by
  induction h generalizing n fuel pa pb ma with
  | @here p q l m h =>
    have hp : p.is_marker = false := h.not_marker.left
    have hq : q.is_marker = false := h.not_marker.right
    obtain ⟨k, hn, _⟩ := hl.of_cons
    subst hn
    cases fuel with
    | zero => cases hf
    | succ fuel =>
      have hd : ((k + 1 : Nat) : Int) > 0 := by omega
      simp only [infer_single, singleAt, hd, List.cons_append, getElem?_front, Option.bind_eq_bind,
        Option.bind_some, h.ne, hp, hq, if_true, if_false, Bool.false_eq_true,
        infer_part_none h.not_hole.left h.not_narrows.left,
        check_part_none h.not_hole.right h.not_narrows.right, ite_self]
      exact ⟨_, rfl, fun _ => ⟨p :: l, rfl, .refl _⟩⟩
  | @step l m l₀ m₀ x' y' h _ ih =>
    cases fuel with
    | zero => cases hf
    | succ fuel =>
      cases n with
      | zero =>
        cases hl
        cases h
      | succ n =>
        obtain ⟨k, y, hy, hl₀, hm₀, he⟩ := infer_single_advances fuel pa pb sa sb ma forced h hl hm
        have hlt := h.length_lt
        obtain ⟨d, hrun, hkept⟩ :=
          ih fuel k (pa ++ x') (pb ++ y) (ma || decide (x' ++ l₀ ≠ l)) hl₀ hm₀ (by omega)
        have hm' : pb ++ y ++ (m₀ ++ sb) = pb ++ (m ++ sb) := by simp [hy]
        rw [hm'] at hrun
        split at he
        case isTrue hc =>
          obtain ⟨d, he⟩ := he
          exact ⟨d, he, fun hf => by simp [hf] at hc⟩
        case isFalse =>
          refine ⟨d, he.trans hrun, fun hf => ?_⟩
          obtain ⟨l', hd, hr⟩ := hkept hf
          refine ⟨x' ++ l', by rw [hd]; simp, ?_⟩
          exact (h.refines hr (.refl m₀)).left

theorem check_both_advances (fuel : Nat) (pa pb sa sb : List InferenceTypePart)
    (h : signature.Advances l m l₀ m₀ x' y') (hl : signature.Forest (n + 1) l)
    (hm : signature.Forest (n + 1) m) :
    ∃ k x y, l = x ++ l₀ ∧ m = y ++ m₀ ∧ signature.Forest k l₀ ∧ signature.Forest k m₀ ∧
      check_both (pa ++ (l ++ sa)) (pb ++ (m ++ sb)) (fuel + 1) ⟨pa.length, pb.length, (n + 1 : Nat)⟩ =
      check_both (pa ++ (l ++ sa)) (pb ++ (m ++ sb)) fuel ⟨(pa ++ x).length, (pb ++ y).length, k⟩ := by
  have hd : ((n + 1 : Nat) : Int) > 0 := by omega
  rw [check_both]
  simp only [hd, if_true]
  cases h with
  | @same p l m =>
    cases hl with
    | cons hl =>
      cases hm with
      | cons hm =>
        refine ⟨_, [p], [p], rfl, rfl, hl, hm, ?_⟩
        simp only [List.cons_append, getElem?_front, Option.bind_eq_bind, Option.bind_some, if_true,
          depth_step rfl, List.length_append, List.length_singleton]
  | @markerLeft k p l m hk hne =>
    refine ⟨n + 1, [k], [], rfl, rfl, hl.of_marker hk, hm, ?_⟩
    have hk : k.is_marker = true := hk
    simp only [List.cons_append, getElem?_front, Option.bind_eq_bind, Option.bind_some, hne, hk,
      if_true, if_false, List.length_append, List.length_singleton, List.append_nil]
  | @markerRight k p l m hp hk =>
    refine ⟨n + 1, [], [k], rfl, rfl, hl, hm.of_marker hk, ?_⟩
    have hp : p.is_marker = false := hp
    have hk : k.is_marker = true := hk
    have hne := ne_of_unmarked hp hk
    simp only [List.cons_append, getElem?_front, Option.bind_eq_bind, Option.bind_some, hne, hp, hk,
      if_true, if_false, Bool.false_eq_true, List.length_append, List.length_singleton,
      List.append_nil]
  | @narrowLeft p q l m hpq =>
    obtain ⟨hp, hq, hne⟩ := narrows_apart hpq
    cases hl with
    | cons hl =>
      cases hm with
      | cons hm =>
        refine ⟨_, [p], [q], rfl, rfl, hl, signature.arity_narrows hpq ▸ hm, ?_⟩
        simp only [List.cons_append, getElem?_front, Option.bind_eq_bind, Option.bind_some, hne, hp,
          hq, if_false, Bool.false_eq_true, check_part_narrows hpq, depth_step rfl,
          List.length_append, List.length_singleton]
  | @narrowRight p q l m hpq =>
    obtain ⟨hq, hp, hne⟩ := narrows_apart hpq
    replace hne := hne.symm
    have hn  := not_inferred_back hpq
    have hp' := (signature.narrows_filled hpq).right
    cases hl with
    | cons hl =>
      cases hm with
      | cons hm =>
        refine ⟨_, [p], [q], rfl, rfl, hl, signature.arity_narrows hpq ▸ hm, ?_⟩
        simp only [List.cons_append, getElem?_front, Option.bind_eq_bind, Option.bind_some, hne, hp,
          hq, if_false, Bool.false_eq_true, check_part_none hp' hn, check_part_narrows hpq,
          List.length_append, List.length_singleton]
        rw [depth_step rfl, signature.arity_narrows hpq]
  | @fillLeft q t l m ht hq hne =>
    have hq : q.is_marker = false := hq
    have hne : InferenceTypePart.unknown ≠ q := hne.symm
    refine ⟨n, [.unknown], q :: t, rfl, rfl, hl.of_hole, hm.of_append ht, ?_⟩
    simp only [signature_hole, List.cons_append, List.append_assoc, getElem?_front,
      Option.bind_eq_bind, Option.bind_some, hne, hq, if_false, Bool.false_eq_true,
      check_part_unknown ht, show InferenceTypePart.unknown.is_marker = false from rfl]
    simp [Int.add_neg_cancel_right]
  | @fillRight p t l m ht hp hne =>
    have hne : p ≠ .unknown := hne
    have hp : p.is_marker = false := hp
    have hn : ¬p.may_be_inferred_from .unknown = true :=
      fun h => (signature.narrows_filled h).right rfl
    refine ⟨n, p :: t, [.unknown], rfl, rfl, hl.of_append ht, hm.of_hole, ?_⟩
    simp only [signature_hole, List.cons_append, List.append_assoc, getElem?_front,
      Option.bind_eq_bind, Option.bind_some, hne, hp, if_false, Bool.false_eq_true,
      check_part_none hne hn, check_part_unknown ht,
      show InferenceTypePart.unknown.is_marker = false from rfl]
    simp [Int.add_neg_cancel_right]

theorem check_both_merges (fuel n : Nat) (pa pb sa sb : List InferenceTypePart)
    (h : signature.Merges l m l' m') (hl : signature.Forest n l) (hm : signature.Forest n m)
    (hf : l.length + m.length < fuel) :
    check_both (pa ++ (l ++ sa)) (pb ++ (m ++ sb)) fuel ⟨pa.length, pb.length, n⟩ = some true := by
  induction h generalizing n fuel pa pb with
  | nil =>
    cases hl
    cases fuel with
    | zero => cases hf
    | succ => simp [check_both]
  | @step l m l₀ m₀ x' y' l' m' h _ ih =>
    cases fuel with
    | zero => cases hf
    | succ fuel =>
      cases n with
      | zero =>
        cases hl
        cases h
      | succ n =>
        obtain ⟨k, x, y, hx, hy, hl₀, hm₀, he⟩ := check_both_advances fuel pa pb sa sb h hl hm
        have hlt := h.length_lt
        have hih := ih fuel k (pa ++ x) (pb ++ y) hl₀ hm₀ (by omega)
        rw [he, hx, hy]
        simpa using hih

theorem check_both_clashes (fuel n : Nat) (pa pb sa sb : List InferenceTypePart)
    (h : signature.Clashes l m) (hl : signature.Forest n l) (hm : signature.Forest n m)
    (hf : l.length + m.length < fuel) :
    check_both (pa ++ (l ++ sa)) (pb ++ (m ++ sb)) fuel ⟨pa.length, pb.length, n⟩ = some false := by
  induction h generalizing n fuel pa pb with
  | @here p q l m h =>
    have hp : p.is_marker = false := h.not_marker.left
    have hq : q.is_marker = false := h.not_marker.right
    obtain ⟨k, hn, _⟩ := hl.of_cons
    subst hn
    cases fuel with
    | zero => cases hf
    | succ fuel =>
      have hd : ((k + 1 : Nat) : Int) > 0 := by omega
      simp only [check_both, hd, List.cons_append, getElem?_front, Option.bind_eq_bind,
        Option.bind_some, h.ne, hp, hq, if_true, if_false, Bool.false_eq_true,
        check_part_none h.not_hole.left h.not_narrows.left,
        check_part_none h.not_hole.right h.not_narrows.right]
  | @step l m l₀ m₀ x' y' h _ ih =>
    cases fuel with
    | zero => cases hf
    | succ fuel =>
      cases n with
      | zero =>
        cases hl
        cases h
      | succ n =>
        obtain ⟨k, x, y, hx, hy, hl₀, hm₀, he⟩ := check_both_advances fuel pa pb sa sb h hl hm
        have hlt := h.length_lt
        have hih := ih fuel k (pa ++ x) (pb ++ y) hl₀ hm₀ (by omega)
        rw [he, hx, hy]
        simpa using hih

end Loops

end InferenceType
end Reowolf.Types
