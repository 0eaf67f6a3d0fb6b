import Mathlib.Data.List.Induction
import Mathlib.Logic.Function.Basic
import Reowolf.Types.InferenceRoutines

namespace Reowolf.Types

open InferenceTypePart (signature)
open InferenceType

-- The inferred types of the expressions of a definition, by the unique id that each has in it.
abbrev ExprTypes :=
  Nat → InferenceType

-- The two kinds of errors, with the expressions that they are about.
inductive ConstraintError
  | expr_type_error (expr_id arg_id : Nat)
  | arg_type_error (expr_id arg1_id arg2_id : Nat)
deriving DecidableEq

-- There is no result if the source panics.
def apply_equal3_constraint (expr_types : ExprTypes) (expr_id arg1_id arg2_id start_idx : Nat) :
    Option (Except ConstraintError (ExprTypes × (Bool × Bool × Bool))) := do
  let (expr_res, expr_type, arg1_type) ←
    infer_subtrees_for_both_types (expr_types expr_id) start_idx (expr_types arg1_id) start_idx
  if expr_res = .incompatible then
    return .error (.expr_type_error expr_id arg1_id)
  let (args_res, arg1_type, arg2_type) ←
    infer_subtrees_for_both_types arg1_type start_idx (expr_types arg2_id) start_idx
  if args_res = .incompatible then
    return .error (.arg_type_error expr_id arg1_id arg2_id)
  -- If the second call expanded the type of the first argument, then the expression gets it as well.
  let expr_type' ←
    if args_res.modified_lhs then do
      let end_idx ← find_subtree_end_idx arg2_type.parts start_idx
      expr_type.replace_subtree start_idx ((arg2_type.parts.take end_idx).drop start_idx)
    else
      some expr_type
  let expr_types := Function.update expr_types expr_id expr_type'
  let expr_types := Function.update expr_types arg1_id arg1_type
  let expr_types := Function.update expr_types arg2_id arg2_type
  return .ok (expr_types, (expr_res.modified_lhs || args_res.modified_lhs,
    expr_res.modified_rhs || args_res.modified_lhs, args_res.modified_rhs))

structure EqualN where
  expr_types          : ExprTypes
  progress            : List Bool
  last_arg_id         : Nat
  last_lhs_progressed : Nat
  lhs_arg_idx         : Nat

-- The pass from the left to the right over the remaining arguments.
def infer_pairwise (expr_id : Nat) : (args : List Nat) → EqualN →
    Option (Except ConstraintError EqualN)
  | [], s => some (.ok s)
  | next_arg_id :: args, s => do
    let (res, last_type, next_type) ← infer_subtrees_for_both_types
      (s.expr_types s.last_arg_id) 0 (s.expr_types next_arg_id) 0
    if res = .incompatible then
      return .error (.arg_type_error expr_id s.last_arg_id next_arg_id)
    let expr_types := Function.update s.expr_types s.last_arg_id last_type
    let expr_types := Function.update expr_types next_arg_id next_type
    let progress := if res.modified_lhs then s.progress.set s.lhs_arg_idx true else s.progress
    infer_pairwise expr_id args {
      expr_types          := expr_types
      progress            := progress.set (s.lhs_arg_idx + 1) res.modified_rhs
      last_arg_id         := next_arg_id
      last_lhs_progressed := if res.modified_lhs then s.lhs_arg_idx else s.last_lhs_progressed
      lhs_arg_idx         := s.lhs_arg_idx + 1 }

-- The arguments in front of an index get the type of the last argument.
def infer_again (args : List Nat) (last_arg_id : Nat) (last_lhs_progressed : Nat)
    (expr_types : ExprTypes) (progress : List Bool) : Option (ExprTypes × List Bool) :=
  (List.range last_lhs_progressed).foldlM (fun (expr_types, progress) arg_idx => do
    let arg_id ← args[arg_idx]?
    let arg_type ← (expr_types arg_id).replace_subtree 0 (expr_types last_arg_id).parts
    return (Function.update expr_types arg_id arg_type, progress.set arg_idx true))
    (expr_types, progress)

def apply_equal_n_constraint (expr_types : ExprTypes) (expr_id : Nat) (args : List Nat) :
    Option (Except ConstraintError (ExprTypes × List Bool)) :=
  match args with
  | []          => some (.ok (expr_types, []))
  | [_]         => some (.ok (expr_types, [false]))
  | arg :: rest => do
    match ← infer_pairwise expr_id rest {
      expr_types := expr_types, progress := args.map fun _ => false
      last_arg_id := arg, last_lhs_progressed := 0, lhs_arg_idx := 0 } with
    | .error e => return .error e
    | .ok s =>
      let result ← infer_again args s.last_arg_id s.last_lhs_progressed s.expr_types s.progress
      return .ok result

namespace InferenceType

variable {a b : InferenceType} {idx_a idx_b : Nat}
variable {pa ta sa pb tb sb : List InferenceTypePart}

-- A type without markers.
structure Plain (t : InferenceType) : Prop where
  wellFormed : t.WellFormed
  unmarked   : signature.Unmarked t.parts

theorem SubtreeAt.unmarked {t : InferenceType} (h : SubtreeAt t.parts idx_a pa ta sa)
    (hp : t.Plain) : signature.Unmarked ta := by
  have hu := hp.unmarked
  rw [h.eq] at hu
  obtain ⟨_, hu⟩ := TermSignature.Unmarked.append.mp hu
  exact (TermSignature.Unmarked.append.mp hu).left

theorem Plain.of_refines {t t' : InferenceType} (h : t.Plain) (hr : signature.Refines t.parts t'.parts)
    (hd : t'.is_done = true ↔ ∀ p ∈ t'.parts, p.is_concrete = true) : t'.Plain where
  wellFormed := ⟨hr.forest h.wellFormed.tree, by rw [Bool.eq_iff_iff, hd, List.all_eq_true]⟩
  unmarked   := hr.unmarked h.unmarked

-- The subtypes of both types become their meet.
structure Meets (a b : InferenceType) (pa ta sa pb tb sb r : List InferenceTypePart)
    (res : DualInferenceResult) (a' b' : InferenceType) : Prop where
  compatible : res ≠ .incompatible
  meet       : signature.IsMeet ta tb r
  tree       : signature.Forest 1 r
  parts_a    : a'.parts = pa ++ (r ++ sa)
  parts_b    : b'.parts = pb ++ (r ++ sb)
  plain_a    : a'.Plain
  plain_b    : b'.Plain
  flag_a     : res.modified_lhs = decide (r ≠ ta)
  flag_b     : res.modified_rhs = decide (r ≠ tb)

theorem infer_both_plain (ha : a.Plain) (hb : b.Plain) (hta : SubtreeAt a.parts idx_a pa ta sa)
    (htb : SubtreeAt b.parts idx_b pb tb sb) :
    (∃ a' b', infer_subtrees_for_both_types a idx_a b idx_b = some (.incompatible, a', b') ∧
      signature.Disjoint ta tb) ∨
    ∃ res a' b' r, infer_subtrees_for_both_types a idx_a b idx_b = some (res, a', b') ∧
      Meets a b pa ta sa pb tb sb r res a' b' := by
  have hua := hta.unmarked ha
  have hub := htb.unmarked hb
  match TermSignature.merges_or_clashes hta.tree htb.tree with
  | .inr h =>
    obtain ⟨a', b', he⟩ := infer_both_types_clashes hta htb h
    have hd := h.disjoint
    rw [hua.erase_eq, hub.erase_eq] at hd
    exact .inl ⟨a', b', he, hd⟩
  | .inl ⟨ta', tb', h⟩ =>
    obtain ⟨res, a', b', he, hres, hu⟩ :=
      infer_both_types_merges ha.wellFormed.done hb.wellFormed.done hta htb h
    obtain ⟨hra, hrb⟩ := hu.kept
    have hsame := hu.same
    have hgeneral := hu.general
    rw [(hra.unmarked hua).erase_eq, (hrb.unmarked hub).erase_eq] at hsame
    rw [(hra.unmarked hua).erase_eq, hua.erase_eq, hub.erase_eq] at hgeneral
    subst hsame
    have hparts_a : signature.Refines a.parts a'.parts := by
      rw [hta.eq, hu.parts_a]
      exact (TermSignature.Refines.refl _).append (hra.append (.refl _))
    have hparts_b : signature.Refines b.parts b'.parts := by
      rw [htb.eq, hu.parts_b]
      exact (TermSignature.Refines.refl _).append (hrb.append (.refl _))
    refine .inr ⟨res, a', b', ta', he, hres, hgeneral.isMeet, hra.forest hta.tree, hu.parts_a,
      hu.parts_b, ha.of_refines hparts_a hu.done_a, hb.of_refines hparts_b hu.done_b, ?_, ?_⟩
    · rw [Bool.eq_iff_iff, hu.flag_a, decide_eq_true_iff]
    · rw [Bool.eq_iff_iff, hu.flag_b, decide_eq_true_iff]

theorem Plain.subtree (h : a.Plain) : SubtreeAt a.parts 0 [] a.parts [] :=
  ⟨by simp, rfl, h.wellFormed.tree⟩

-- A whole type is replaced by another.
theorem replace_subtree_eq (h : SubtreeAt a.parts idx_a pa ta sa) (ps : List InferenceTypePart) :
    a.replace_subtree idx_a ps =
      some (recompute_is_done { a with parts := pa ++ (ps ++ sa) }) := by
  have hend : find_subtree_end_idx a.parts idx_a = some (pa.length + ta.length) := by
    rw [h.eq, h.idx]
    exact find_subtree_end_idx_forest _ _ h.tree
  have htake : a.parts.take idx_a = pa := by
    rw [h.eq, h.idx, List.take_left]
  have hdrop : a.parts.drop (pa.length + ta.length) = sa := by
    rw [h.eq, ← List.append_assoc, ← List.length_append, List.drop_left]
  simp only [replace_subtree, hend, Option.bind_eq_bind, Option.bind_some, htake, hdrop,
    List.append_assoc]
  rfl

theorem subtree_take_drop (h : SubtreeAt a.parts idx_a pa ta sa) :
    find_subtree_end_idx a.parts idx_a = some (pa.length + ta.length) ∧
    (a.parts.take (pa.length + ta.length)).drop idx_a = ta := by
  constructor
  case left =>
    rw [h.eq, h.idx]
    exact find_subtree_end_idx_forest _ _ h.tree
  case right =>
    rw [h.eq, h.idx, ← List.append_assoc, ← List.length_append, List.take_left, List.drop_left]

-- A part that is replaced by what refines it.
theorem Plain.replace {r : List InferenceTypePart} (h : a.Plain)
    (hta : SubtreeAt a.parts idx_a pa ta sa) (hr : signature.Refines ta r) :
    (recompute_is_done { a with parts := pa ++ (r ++ sa) }).Plain := by
  apply h.of_refines
  case hr =>
    rw [hta.eq]
    exact (TermSignature.Refines.refl _).append (hr.append (.refl _))
  case hd => simp only [recompute_is_done, List.all_eq_true]

end InferenceType

section Equal3

variable {expr_types : ExprTypes} {expr_id arg1_id arg2_id start_idx : Nat}
variable {front t rest : Nat → List InferenceTypePart}

theorem apply_equal3_cases (h₁ : expr_id ≠ arg1_id) (h₂ : expr_id ≠ arg2_id) (h₃ : arg1_id ≠ arg2_id)
    (hp : ∀ i ∈ [expr_id, arg1_id, arg2_id], (expr_types i).Plain)
    (ht : ∀ i ∈ [expr_id, arg1_id, arg2_id],
      SubtreeAt (expr_types i).parts start_idx (front i) (t i) (rest i)) :
    (∃ e, apply_equal3_constraint expr_types expr_id arg1_id arg2_id start_idx = some (.error e) ∧
      ¬signature.HaveInstanceOf [t expr_id, t arg1_id, t arg2_id]) ∨
    ∃ types' r, apply_equal3_constraint expr_types expr_id arg1_id arg2_id start_idx =
        some (.ok (types', (decide (r ≠ t expr_id), decide (r ≠ t arg1_id),
          decide (r ≠ t arg2_id)))) ∧
      signature.MostGeneralOf [t expr_id, t arg1_id, t arg2_id] r ∧
      (∀ i ∈ [expr_id, arg1_id, arg2_id],
        (types' i).Plain ∧ (types' i).parts = front i ++ (r ++ rest i)) ∧
      ∀ i ∉ [expr_id, arg1_id, arg2_id], types' i = expr_types i := by
  obtain ⟨hpe, hte⟩ := And.intro (hp expr_id (by simp)) (ht expr_id (by simp))
  obtain ⟨hp₁, ht₁⟩ := And.intro (hp arg1_id (by simp)) (ht arg1_id (by simp))
  obtain ⟨hp₂, ht₂⟩ := And.intro (hp arg2_id (by simp)) (ht arg2_id (by simp))
  obtain ⟨e', a₁', he, hd⟩ | ⟨res, e', a₁', r₁, he, hm⟩ := infer_both_plain hpe hp₁ hte ht₁
  · refine .inl ⟨.expr_type_error expr_id arg1_id, by simp [apply_equal3_constraint, he], ?_⟩
    rintro ⟨c, hc, _⟩
    exact hd c ⟨hc _ (by simp), hc _ (by simp)⟩
  · have ht₁' : SubtreeAt a₁'.parts start_idx (front arg1_id) r₁ (rest arg1_id) :=
      ⟨hm.parts_b, ht₁.idx, hm.tree⟩
    have hg₁ := (TermSignature.MostGeneralOf.singleton (t expr_id)).append hm.meet
    obtain ⟨_, _, he₂, hd⟩ | ⟨res₂, a₁'', a₂', r, he₂, hm₂⟩ :=
      infer_both_plain hm.plain_b hp₂ ht₁' ht₂
    · refine .inl ⟨.arg_type_error expr_id arg1_id arg2_id, ?_, ?_⟩
      · simp [apply_equal3_constraint, he, hm.compatible, he₂]
      · rintro ⟨c, hc, _⟩
        refine hd c ⟨hg₁.iff.mp fun l hl => hc l ?_, hc _ (by simp)⟩
        simp only [List.singleton_append, List.mem_cons, List.not_mem_nil, or_false] at hl ⊢
        tauto
    · have hg := hg₁.append hm₂.meet
      have hr₁ := (hm.meet r₁).mpr (.refl r₁)
      have hr := (hm₂.meet r).mpr (.refl r)
      have hflag_e : (res.modified_lhs || res₂.modified_lhs) = decide (r ≠ t expr_id) := by
        have := hr₁.left.ne_iff hr.left
        rw [hm.flag_a, hm₂.flag_a, Bool.eq_iff_iff, Bool.or_eq_true]
        simpa only [decide_eq_true_eq] using this
      have hflag₁ : (res.modified_rhs || res₂.modified_lhs) = decide (r ≠ t arg1_id) := by
        have := hr₁.right.ne_iff hr.left
        rw [hm.flag_b, hm₂.flag_a, Bool.eq_iff_iff, Bool.or_eq_true]
        simpa only [decide_eq_true_eq] using this
      -- the expression has the type of the first argument, or it gets that of the second one
      obtain ⟨x, hx, hplain, hparts⟩ : ∃ x : InferenceType,
          apply_equal3_constraint expr_types expr_id arg1_id arg2_id start_idx =
            some (.ok (Function.update (Function.update (Function.update expr_types expr_id x)
              arg1_id a₁'') arg2_id a₂', (res.modified_lhs || res₂.modified_lhs,
              res.modified_rhs || res₂.modified_lhs, res₂.modified_rhs))) ∧
          x.Plain ∧ x.parts = front expr_id ++ (r ++ rest expr_id) := by
        have hte' : SubtreeAt e'.parts start_idx (front expr_id) r₁ (rest expr_id) :=
          ⟨hm.parts_a, hte.idx, hm.tree⟩
        have ht₂' : SubtreeAt a₂'.parts start_idx (front arg2_id) r (rest arg2_id) :=
          ⟨hm₂.parts_b, ht₂.idx, hm₂.tree⟩
        obtain ⟨hend, htake⟩ := subtree_take_drop ht₂'
        by_cases hmod : res₂.modified_lhs = true
        case pos =>
          refine ⟨_, ?_, hm.plain_a.replace hte' hr.left, rfl⟩
          simp [apply_equal3_constraint, he, hm.compatible, he₂, hm₂.compatible, hmod, hend, htake,
            replace_subtree_eq hte']
        case neg =>
          have hsame : r = r₁ := by simpa [hm₂.flag_a] using hmod
          refine ⟨e', ?_, hm.plain_a, hsame ▸ hm.parts_a⟩
          simp [apply_equal3_constraint, he, hm.compatible, he₂, hm₂.compatible, hmod]
      rw [hflag_e, hflag₁, hm₂.flag_b] at hx
      refine .inr ⟨_, r, hx, hg, fun i hi => ?_, fun i hi => ?_⟩
      · simp only [List.mem_cons, List.not_mem_nil, or_false] at hi
        obtain he | he | he := hi
        · simp [he, h₁, h₂, hplain, hparts]
        · simp [he, h₃, hm₂.plain_a, hm₂.parts_a]
        · simp [he, hm₂.plain_b, hm₂.parts_b]
      · simp only [List.mem_cons, List.not_mem_nil, or_false, not_or] at hi
        simp [hi]

-- The types of three expressions, at an index, become equal to the most general type that refines all
-- of them. There is an error if there is none. The flags say whose types have changed.
def EqualizesThree (expr_types : ExprTypes) (expr_id arg1_id arg2_id start_idx : Nat) : Prop :=
  ∃ front t rest : Nat → List InferenceTypePart,
    (∀ i ∈ [expr_id, arg1_id, arg2_id],
      SubtreeAt (expr_types i).parts start_idx (front i) (t i) (rest i)) ∧
    ∃ out, apply_equal3_constraint expr_types expr_id arg1_id arg2_id start_idx = some out ∧
      ((∃ e, out = .error e) ↔
        ¬signature.HaveInstanceOf ([expr_id, arg1_id, arg2_id].map t)) ∧
      ∀ types' progress, out = .ok (types', progress) →
        (∃ r, signature.MostGeneralOf ([expr_id, arg1_id, arg2_id].map t) r ∧
          ∀ i ∈ [expr_id, arg1_id, arg2_id],
            (types' i).Plain ∧ (types' i).parts = front i ++ (r ++ rest i)) ∧
        (∀ i ∉ [expr_id, arg1_id, arg2_id], types' i = expr_types i) ∧
        progress = (decide ((types' expr_id).parts ≠ (expr_types expr_id).parts),
          decide ((types' arg1_id).parts ≠ (expr_types arg1_id).parts),
          decide ((types' arg2_id).parts ≠ (expr_types arg2_id).parts))

theorem apply_equal3_constraint_spec (h₁ : expr_id ≠ arg1_id) (h₂ : expr_id ≠ arg2_id)
    (h₃ : arg1_id ≠ arg2_id) (hp : ∀ i ∈ [expr_id, arg1_id, arg2_id],
      (expr_types i).Plain ∧ start_idx < (expr_types i).parts.length) :
    EqualizesThree expr_types expr_id arg1_id arg2_id start_idx := by
  have hsub (i : Nat) : ∃ front t rest, i ∈ [expr_id, arg1_id, arg2_id] →
      SubtreeAt (expr_types i).parts start_idx front t rest := by
    by_cases hi : i ∈ [expr_id, arg1_id, arg2_id]
    case pos =>
      obtain ⟨hpi, hlt⟩ := hp i hi
      obtain ⟨front, t, rest, h⟩ := SubtreeAt.exists_of_lt hpi.wellFormed.tree hlt
      exact ⟨front, t, rest, fun _ => h⟩
    case neg => exact ⟨[], [], [], fun h => absurd h hi⟩
  choose front t rest ht using hsub
  refine ⟨front, t, rest, ht, ?_⟩
  match apply_equal3_cases h₁ h₂ h₃ (fun i hi => (hp i hi).left) ht with
  | .inl ⟨e, he, hn⟩ => exact ⟨.error e, he, by simpa using hn, nofun⟩
  | .inr ⟨types', r, he, hg, hin, hout⟩ =>
    have hu : signature.Unmarked r := by
      have hplain := (hin expr_id (by simp)).left.unmarked
      rw [(hin expr_id (by simp)).right] at hplain
      obtain ⟨_, hu⟩ := TermSignature.Unmarked.append.mp hplain
      exact (TermSignature.Unmarked.append.mp hu).left
    refine ⟨_, he, ?_, ?_⟩
    · simpa using hg.haveInstance hu
    · intro types'' progress hok
      cases hok
      refine ⟨⟨r, hg, hin⟩, hout, ?_⟩
      have hne (i : Nat) (hi : i ∈ [expr_id, arg1_id, arg2_id]) :
          decide (r ≠ t i) = decide ((types' i).parts ≠ (expr_types i).parts) := by
        rw [(hin i hi).right, (ht i hi).eq]
        simp
      rw [hne expr_id (by simp), hne arg1_id (by simp), hne arg2_id (by simp)]

end Equal3

section EqualN

variable {orig expr_types : ExprTypes} {expr_id last : Nat} {args early late tail : List Nat}
variable {s s' : EqualN}

-- What holds when the pass has come to the argument `last`. The arguments in front of the last one
-- that changed its left side have an earlier type, the others behind these have the latest.
structure Pairwise (orig : ExprTypes) (early late : List Nat) (last : Nat) (rest : List Nat)
    (s : EqualN) : Prop where
  last_arg : s.last_arg_id = last
  lhs_idx  : s.lhs_arg_idx = (early ++ late).length
  lhs_last : s.last_lhs_progressed = early.length
  plain    : ∀ a ∈ early ++ late ++ last :: rest, (s.expr_types a).Plain
  general  : signature.MostGeneralOf ((early ++ late ++ [last]).map fun a => (orig a).parts)
    (s.expr_types last).parts
  refines  : ∀ a ∈ early ++ late, signature.Refines (orig a).parts (s.expr_types a).parts ∧
    signature.Refines (s.expr_types a).parts (s.expr_types last).parts
  ahead    : ∀ a ∈ early, (s.expr_types a).parts ≠ (s.expr_types last).parts
  behind   : ∀ a ∈ late, (s.expr_types a).parts = (s.expr_types last).parts
  others   : ∀ a ∉ early ++ late ++ [last], s.expr_types a = orig a
  progress : s.progress = ((early ++ late ++ [last]).map fun a =>
    decide ((s.expr_types a).parts ≠ (orig a).parts)) ++ rest.map fun _ => false

-- The state after the types of `last` and `next` have been made equal.
def advance (s : EqualN) (last next : Nat) (res : DualInferenceResult) (last' next' : InferenceType) :
    EqualN where
  expr_types          := Function.update (Function.update s.expr_types last last') next next'
  progress            :=
    (if res.modified_lhs then s.progress.set s.lhs_arg_idx true else s.progress).set
      (s.lhs_arg_idx + 1) res.modified_rhs
  last_arg_id         := next
  last_lhs_progressed := if res.modified_lhs then s.lhs_arg_idx else s.last_lhs_progressed
  lhs_arg_idx         := s.lhs_arg_idx + 1

namespace Pairwise

variable {next : Nat} {rest : List Nat} {res : DualInferenceResult} {last' next' : InferenceType}
variable {r : List InferenceTypePart}

theorem ne_of_nodup (hn : (early ++ late ++ last :: next :: rest).Nodup) : next ≠ last ∧
    ∀ a ∈ early ++ late, a ≠ last ∧ a ≠ next := by
  simp only [List.nodup_append, List.nodup_cons, List.mem_append, List.mem_cons] at hn ⊢
  grind

theorem set_pair (ps rest : List Bool) (x y b c : Bool) :
    (if b then (ps ++ x :: y :: rest).set ps.length true else ps ++ x :: y :: rest).set
      (ps.length + 1) c = ps ++ (x || b) :: c :: rest := by
  cases b <;> simp

theorem advance_progress (h : Pairwise orig early late last (next :: rest) s)
    (hn : (early ++ late ++ last :: next :: rest).Nodup)
    (hm : Meets (s.expr_types last) (s.expr_types next) [] (s.expr_types last).parts [] []
      (s.expr_types next).parts [] r res last' next')
    (horig : s.expr_types next = orig next) :
    (advance s last next res last' next').progress =
      ((early ++ late ++ [last, next]).map fun a =>
        decide (((advance s last next res last' next').expr_types a).parts ≠ (orig a).parts)) ++
      rest.map fun _ => false := by
  obtain ⟨hne, hfront⟩ := ne_of_nodup hn
  have hlast : last'.parts = r := by simpa using hm.parts_a
  have hnext : next'.parts = r := by simpa using hm.parts_b
  have hr := (hm.meet r).mpr (.refl r)
  have ho : signature.Refines (orig last).parts (s.expr_types last).parts :=
    h.general.left _ (List.mem_map_of_mem (by simp))
  have hflag : decide (last'.parts ≠ (orig last).parts) =
      (decide ((s.expr_types last).parts ≠ (orig last).parts) || res.modified_lhs) := by
    have := ho.ne_iff hr.left
    rw [hm.flag_a, hlast, Bool.eq_iff_iff, Bool.or_eq_true]
    simpa only [decide_eq_true_eq] using this.symm
  have hsame : (early ++ late).map (fun a => decide
      ((((advance s last next res last' next').expr_types a).parts) ≠ (orig a).parts)) =
      (early ++ late).map fun a => decide ((s.expr_types a).parts ≠ (orig a).parts) := by
    refine List.map_congr_left fun a ha => ?_
    simp [advance, hfront a ha]
  have hp : s.progress = ((early ++ late).map fun a =>
      decide ((s.expr_types a).parts ≠ (orig a).parts)) ++
      decide ((s.expr_types last).parts ≠ (orig last).parts) :: false :: rest.map fun _ => false := by
    rw [h.progress]
    simp
  have hlen : s.lhs_arg_idx =
      ((early ++ late).map fun a => decide ((s.expr_types a).parts ≠ (orig a).parts)).length := by
    rw [h.lhs_idx, List.length_map]
  have hprogress : (advance s last next res last' next').progress =
      ((early ++ late).map fun a => decide ((s.expr_types a).parts ≠ (orig a).parts)) ++
      (decide ((s.expr_types last).parts ≠ (orig last).parts) || res.modified_lhs) ::
      res.modified_rhs :: rest.map fun _ => false := by
    rw [advance, hp, hlen, set_pair]
  have hsplit : ((early ++ late ++ [last, next]).map fun a =>
      decide (((advance s last next res last' next').expr_types a).parts ≠ (orig a).parts)) =
      ((early ++ late).map fun a => decide ((s.expr_types a).parts ≠ (orig a).parts)) ++
      [decide (last'.parts ≠ (orig last).parts), decide (next'.parts ≠ (orig next).parts)] := by
    refine List.map_append.trans (congrArg₂ _ hsame ?_)
    simp [advance, hne.symm]
  rw [hprogress, hsplit, ← hflag, hm.flag_b, horig, hnext, List.append_assoc]
  rfl

-- The types are the same in front of the two arguments, and both of these have the meet.
theorem advance_spec {early' late' : List Nat} (h : Pairwise orig early late last (next :: rest) s)
    (hn : (early ++ late ++ last :: next :: rest).Nodup)
    (hm : Meets (s.expr_types last) (s.expr_types next) [] (s.expr_types last).parts [] []
      (s.expr_types next).parts [] r res last' next')
    (horig : s.expr_types next = orig next) (hsplit : early' ++ late' = early ++ late ++ [last])
    (hlen : (advance s last next res last' next').last_lhs_progressed = early'.length)
    (hahead : ∀ a ∈ early', a ∈ early ++ late ∧ (s.expr_types a).parts ≠ r)
    (hbehind : ∀ a ∈ late', a = last ∨ (s.expr_types a).parts = r) :
    Pairwise orig early' late' next rest (advance s last next res last' next') := by
  obtain ⟨hne, hfront⟩ := ne_of_nodup hn
  have hlast : last'.parts = r := by simpa using hm.parts_a
  have hnext : next'.parts = r := by simpa using hm.parts_b
  have hr := (hm.meet r).mpr (.refl r)
  have hall : early' ++ late' ++ next :: rest = early ++ late ++ last :: next :: rest := by
    rw [hsplit, List.append_assoc]
    rfl
  have hsame (a : Nat) (ha : a ∈ early ++ late) :
      (advance s last next res last' next').expr_types a = s.expr_types a := by
    simp [advance, hfront a ha]
  have htnext : (advance s last next res last' next').expr_types next = next' := by
    simp [advance]
  have htlast : (advance s last next res last' next').expr_types last = last' := by
    simp [advance, hne.symm]
  refine ⟨rfl, ?_, hlen, ?_, ?_, ?_, ?_, ?_, ?_, ?_⟩
  case refine_1 =>
    rw [hsplit]
    simp [advance, h.lhs_idx, Nat.add_assoc]
  case refine_2 =>
    intro a ha
    rw [hall] at ha
    by_cases hal : a = last
    case pos =>
      rw [hal, htlast]
      exact hm.plain_a
    by_cases han : a = next
    case pos =>
      rw [han, htnext]
      exact hm.plain_b
    have := h.plain a ha
    simpa [advance, hal, han] using this
  case refine_3 =>
    have := h.general.append hm.meet
    rw [horig] at this
    rw [htnext, hnext, hsplit, List.map_append]
    exact this
  case refine_4 =>
    intro a ha
    rw [htnext, hnext]
    rw [hsplit, List.mem_append, List.mem_singleton] at ha
    cases ha
    case inl ha =>
      obtain ⟨ho, hl⟩ := h.refines a ha
      rw [hsame a ha]
      exact ⟨ho, hl.trans hr.left⟩
    case inr ha =>
      subst ha
      rw [htlast, hlast]
      exact ⟨(h.general.left _ (List.mem_map_of_mem (by simp))).trans hr.left, .refl r⟩
  case refine_5 =>
    intro a ha
    obtain ⟨hmem, hne⟩ := hahead a ha
    rwa [hsame a hmem, htnext, hnext]
  case refine_6 =>
    intro a ha
    rw [htnext, hnext]
    by_cases hal : a = last
    case pos => rw [hal, htlast, hlast]
    case neg =>
      have hmem : a ∈ early ++ late := by
        have : a ∈ early' ++ late' := List.mem_append_right _ ha
        rw [hsplit] at this
        simpa [hal] using this
      rw [hsame a hmem]
      exact (hbehind a ha).resolve_left hal
  case refine_7 =>
    intro a ha
    rw [hsplit] at ha
    simp only [List.mem_append, List.mem_singleton, not_or] at ha
    have := h.others a (by simp [ha])
    simpa [advance, ha] using this
  case refine_8 =>
    have := h.advance_progress hn hm horig
    rw [this, hsplit]
    simp

end Pairwise

-- One round of the pass fails if there is no common instance, and goes on otherwise.
theorem Pairwise.step (expr_id : Nat) {next : Nat} {rest : List Nat}
    (h : Pairwise orig early late last (next :: rest) s)
    (hn : (early ++ late ++ last :: next :: rest).Nodup) :
    (∃ e, infer_pairwise expr_id (next :: rest) s = some (.error e) ∧
      ¬signature.HaveInstanceOf ((early ++ late ++ [last, next]).map fun a => (orig a).parts)) ∨
    ∃ s' early' late', early' ++ late' = early ++ late ++ [last] ∧
      infer_pairwise expr_id (next :: rest) s = infer_pairwise expr_id rest s' ∧
      Pairwise orig early' late' next rest s' := by
  have hlast : (s.expr_types last).Plain := h.plain last (by simp)
  have hnext : (s.expr_types next).Plain := h.plain next (by simp)
  have horig : s.expr_types next = orig next := by
    apply h.others
    simp only [List.nodup_append, List.nodup_cons, List.mem_append, List.mem_cons,
      List.not_mem_nil, or_false] at hn ⊢
    grind
  have hmap : (early ++ late ++ [last, next]).map (fun a => (orig a).parts) =
      (early ++ late ++ [last]).map (fun a => (orig a).parts) ++ [(orig next).parts] := by
    simp
  rcases infer_both_plain hlast hnext hlast.subtree hnext.subtree with
    ⟨_, _, he, hd⟩ | ⟨res, last', next', r, he, hm⟩
  · refine .inl ⟨.arg_type_error expr_id last next, ?_, ?_⟩
    · simp [infer_pairwise, h.last_arg, he]
    · rintro ⟨c, hc, _⟩
      rw [hmap] at hc
      refine hd c ⟨h.general.iff.mp fun l hl => hc l (List.mem_append_left _ hl), ?_⟩
      rw [horig]
      exact hc _ (List.mem_append_right _ (.head _))
  · have hrun : infer_pairwise expr_id (next :: rest) s =
        infer_pairwise expr_id rest (advance s last next res last' next') := by
      simp [infer_pairwise, h.last_arg, he, hm.compatible, advance]
    by_cases hmod : r = (s.expr_types last).parts
    case pos =>
      have hflag : res.modified_lhs = false := by simp [hm.flag_a, hmod]
      refine .inr ⟨_, early, late ++ [last], by simp, hrun,
        h.advance_spec hn hm horig (by simp) ?_ ?_ ?_⟩
      · simp [advance, hflag, h.lhs_last]
      · exact fun a ha => ⟨List.mem_append_left _ ha, hmod ▸ h.ahead a ha⟩
      · intro a ha
        rw [List.mem_append, List.mem_singleton] at ha
        exact ha.symm.imp_right fun ha => (h.behind a ha).trans hmod.symm
    case neg =>
      have hflag : res.modified_lhs = true := by simp [hm.flag_a, hmod]
      have hr := (hm.meet r).mpr (.refl r)
      refine .inr ⟨_, early ++ late, [last], rfl, hrun, h.advance_spec hn hm horig rfl ?_ ?_ ?_⟩
      · simp [advance, hflag, h.lhs_idx]
      · intro a ha
        have := (h.refines a ha).right.ne_iff hr.left
        exact ⟨ha, (this.mp (.inr hmod)).symm⟩
      · exact fun a ha => .inl (List.mem_singleton.mp ha)

theorem Pairwise.run (expr_id : Nat) {rest : List Nat} (h : Pairwise orig early late last rest s)
    (hn : (early ++ late ++ last :: rest).Nodup) :
    (∃ e, infer_pairwise expr_id rest s = some (.error e) ∧
      ¬signature.HaveInstanceOf ((early ++ late ++ last :: rest).map fun a => (orig a).parts)) ∨
    ∃ s' early' late' last', early' ++ late' ++ [last'] = early ++ late ++ last :: rest ∧
      infer_pairwise expr_id rest s = some (.ok s') ∧ Pairwise orig early' late' last' [] s' := by
  induction rest generalizing early late last s with
  | nil => exact .inr ⟨s, early, late, last, rfl, rfl, h⟩
  | cons next rest ih =>
    match h.step expr_id hn with
    | .inl ⟨e, he, hc⟩ =>
      refine .inl ⟨e, he, fun hi => hc (hi.mono ?_)⟩
      simp only [List.map_append, List.mem_append, List.map_cons, List.mem_cons]
      tauto
    | .inr ⟨s₁, early₁, late₁, hsplit, he, h₁⟩ =>
      have hall : early₁ ++ late₁ ++ next :: rest = early ++ late ++ last :: next :: rest := by
        rw [hsplit, List.append_assoc]
        rfl
      rw [he, ← hall]
      exact ih h₁ (hall ▸ hn)

-- The arguments in front get the type of the last one.
theorem infer_again_eq (expr_types : Nat → InferenceType) {progress : List Bool}
    (hargs : args = early ++ tail) (hn : early.Nodup) (hlast : last ∉ early)
    (hp : ∀ a ∈ early, (expr_types a).Plain) (hlen : early.length ≤ progress.length) :
    ∃ types', infer_again args last early.length expr_types progress =
        some (types', early.map (fun _ => true) ++ progress.drop early.length) ∧
      (∀ a ∈ early, types' a =
        recompute_is_done { expr_types a with parts := (expr_types last).parts }) ∧
      ∀ a ∉ early, types' a = expr_types a := by
  induction early using List.reverseRecOn generalizing tail with
  | nil => exact ⟨expr_types, rfl, nofun, fun _ _ => rfl⟩
  | append_singleton early x ih =>
    obtain ⟨hn, _, hx⟩ := List.nodup_append.mp hn
    have hx : x ∉ early := fun hm => hx x hm x (.head _) rfl
    simp only [List.mem_append, List.mem_singleton, not_or] at hlast
    obtain ⟨types₁, he, hin, hout⟩ := ih (by rw [hargs, List.append_assoc]) hn hlast.left
      (fun a ha => hp a (List.mem_append_left _ ha)) (by simp at hlen; omega)
    have hpx : (expr_types x).Plain := hp x (by simp)
    have harg : args[early.length]? = some x := by
      simp [hargs]
    refine ⟨Function.update types₁ x
      (recompute_is_done { expr_types x with parts := (expr_types last).parts }), ?_, ?_, ?_⟩
    case refine_1 =>
      rw [infer_again] at he ⊢
      rw [List.length_append, List.length_singleton, List.range_succ, List.foldlM_append, he]
      have hsub : (types₁ x).replace_subtree 0 (types₁ last).parts =
          some (recompute_is_done { expr_types x with parts := (expr_types last).parts }) := by
        rw [hout x hx, hout last hlast.left, replace_subtree_eq hpx.subtree]
        simp
      have hlt : early.length < progress.length := by
        rwa [List.length_append, List.length_singleton] at hlen
      have hset : (early.map (fun _ => true) ++ progress.drop early.length).set early.length true =
          early.map (fun _ => true) ++ true :: progress.drop (early.length + 1) := by
        rw [List.drop_eq_getElem_cons hlt, List.set_append_right _ _ (by simp), List.length_map,
          Nat.sub_self, List.set_cons_zero]
      simp only [List.foldlM_cons, List.foldlM_nil, harg, hsub, hset, Option.bind_eq_bind,
        Option.bind_some, Option.pure_def, List.map_append, List.map_cons, List.map_nil,
        List.append_assoc, List.singleton_append]
    case refine_2 =>
      intro a ha
      rw [List.mem_append, List.mem_singleton] at ha
      by_cases hax : a = x
      case pos => simp [hax]
      case neg => simpa [hax] using hin a (ha.resolve_right hax)
    case refine_3 =>
      intro a ha
      simp only [List.mem_append, List.mem_singleton, not_or] at ha
      simpa [ha.right] using hout a ha.left

-- With at least two arguments, and `n` of them in the pass.
theorem Pairwise.start {arg : Nat} {rest : List Nat} (hp : ∀ a ∈ arg :: rest, (orig a).Plain) :
    Pairwise orig [] [] arg rest {
      expr_types := orig, progress := (arg :: rest).map fun _ => false
      last_arg_id := arg, last_lhs_progressed := 0, lhs_arg_idx := 0 } where
  last_arg := rfl
  lhs_idx  := rfl
  lhs_last := rfl
  plain    := hp
  general  := .singleton _
  refines  := nofun
  ahead    := nofun
  behind   := nofun
  others   := fun _ _ => rfl
  progress := by simp

-- When the pass is through, the arguments in front get the last type, and this is a change for each.
theorem Pairwise.finish (h : Pairwise orig early late last [] s)
    (hargs : args = early ++ late ++ [last]) (hn : args.Nodup) :
    ∃ types', infer_again args s.last_arg_id s.last_lhs_progressed s.expr_types s.progress =
        some (types', args.map fun a => decide ((types' a).parts ≠ (orig a).parts)) ∧
      (∀ a ∈ args, (types' a).Plain ∧ (types' a).parts = (s.expr_types last).parts) ∧
      ∀ a ∉ args, types' a = orig a := by
  have hmem (a : Nat) : a ∈ args ↔ a ∈ early ∨ a ∈ late ∨ a = last := by
    simp [hargs]
  have hn' := hn
  rw [hargs, List.append_assoc] at hn'
  obtain ⟨hne, _, hdis⟩ := List.nodup_append.mp hn'
  have hlast : last ∉ early := fun hm => hdis last hm last (by simp) rfl
  have hlate : ∀ a ∈ late, a ∉ early := fun a ha hm => hdis a hm a (by simp [ha]) rfl
  have hplain (a : Nat) (ha : a ∈ args) : (s.expr_types a).Plain :=
    h.plain a (hargs ▸ ha)
  have hlen : early.length ≤ s.progress.length := by simp [h.progress]
  obtain ⟨types', he, hin, hout⟩ := infer_again_eq s.expr_types
    (hargs.trans (List.append_assoc ..)) hne hlast
    (fun a ha => hplain a ((hmem a).mpr (.inl ha))) hlen
  have hparts (a : Nat) (ha : a ∈ args) : (types' a).Plain ∧
      (types' a).parts = (s.expr_types last).parts := by
    by_cases hae : a ∈ early
    case pos =>
      rw [hin a hae]
      refine ⟨(hplain a ha).of_refines ?_ ?_, rfl⟩
      · exact (h.refines a (List.mem_append_left _ hae)).right
      · simp only [recompute_is_done, List.all_eq_true]
    case neg =>
      rw [hout a hae]
      refine ⟨hplain a ha, ?_⟩
      cases ((hmem a).mp ha).resolve_left hae
      case inl hal => exact h.behind a hal
      case inr hal => rw [hal]
  refine ⟨types', ?_, hparts, fun a ha => ?_⟩
  · rw [h.last_arg, h.lhs_last, he, h.progress]
    congr 2
    have hearly : early.map (fun _ => true) =
        early.map fun a => decide ((types' a).parts ≠ (orig a).parts) := by
      refine List.map_congr_left fun a ha => ?_
      obtain ⟨ho, hl⟩ := h.refines a (List.mem_append_left _ ha)
      rw [(hparts a ((hmem a).mpr (.inl ha))).right, eq_comm, decide_eq_true_iff]
      exact (ho.ne_iff hl).mp (.inr (h.ahead a ha).symm)
    have hrest : ((late ++ [last]).map fun a =>
        decide ((s.expr_types a).parts ≠ (orig a).parts)) =
        (late ++ [last]).map fun a => decide ((types' a).parts ≠ (orig a).parts) := by
      refine List.map_congr_left fun a ha => ?_
      have hae : a ∉ early := by
        rw [List.mem_append, List.mem_singleton] at ha
        cases ha
        case inl ha => exact hlate a ha
        case inr ha => exact ha ▸ hlast
      rw [hout a hae]
    rw [List.append_assoc, List.map_append, List.map_nil, List.append_nil, hrest, hearly, hargs,
      List.append_assoc, List.map_append]
    simp
  · rw [hmem, not_or] at ha
    rw [hout a ha.left]
    apply h.others
    simp [ha, not_or.mp ha.right]

-- The same for the whole types of any number of arguments.
def EqualizesAll (orig : ExprTypes) (expr_id : Nat) (args : List Nat) : Prop :=
  ∃ out, apply_equal_n_constraint orig expr_id args = some out ∧
    ((∃ e, out = .error e) ↔
      ¬signature.HaveInstanceOf (args.map fun a => (orig a).parts)) ∧
    ∀ types' progress, out = .ok (types', progress) →
      (∀ a ∈ args, (types' a).Plain ∧
        signature.MostGeneralOf (args.map fun a => (orig a).parts) (types' a).parts) ∧
      (∀ a ∈ args, ∀ b ∈ args, (types' a).parts = (types' b).parts) ∧
      (∀ a ∉ args, types' a = orig a) ∧
      progress = args.map fun a => decide ((types' a).parts ≠ (orig a).parts)

theorem apply_equal_n_constraint_spec (hn : args.Nodup) (hp : ∀ a ∈ args, (orig a).Plain) :
    EqualizesAll orig expr_id args := by
  match args with
  | [] =>
    refine ⟨_, rfl, ?_, ?_⟩
    · simp only [reduceCtorEq, exists_false, false_iff, not_not]
      exact ⟨[], nofun, nofun⟩
    · intro types' progress hok
      cases hok
      exact ⟨nofun, nofun, fun _ _ => rfl, rfl⟩
  | [arg] =>
    have harg := hp arg (.head _)
    have hg := TermSignature.MostGeneralOf.singleton (S := signature) (orig arg).parts
    refine ⟨_, rfl, ?_, ?_⟩
    · simp only [reduceCtorEq, exists_false, false_iff, not_not]
      exact hg.haveInstance harg.unmarked
    · intro types' progress hok
      cases hok
      refine ⟨fun a ha => ?_, fun a ha b hb => ?_, fun _ _ => rfl, by simp⟩
      · rw [List.mem_singleton.mp ha]
        exact ⟨harg, hg⟩
      · rw [List.mem_singleton.mp ha, List.mem_singleton.mp hb]
  | arg :: next :: rest =>
    match (Pairwise.start hp).run expr_id hn with
    | .inl ⟨e, he, hi⟩ =>
      refine ⟨.error e, ?_, by simpa using hi, nofun⟩
      simp only [apply_equal_n_constraint, he, Option.bind_eq_bind, Option.bind_some]
      rfl
    | .inr ⟨s, early, late, last, hsplit, he, h⟩ =>
      have hargs : arg :: next :: rest = early ++ late ++ [last] := by simpa using hsplit.symm
      obtain ⟨types', hagain, hin, hout⟩ := h.finish hargs hn
      have hg := h.general
      rw [← hargs] at hg
      have hrun : apply_equal_n_constraint orig expr_id (arg :: next :: rest) = some (.ok (types',
          (arg :: next :: rest).map fun a => decide ((types' a).parts ≠ (orig a).parts))) := by
        simp only [apply_equal_n_constraint, he, hagain, Option.bind_eq_bind, Option.bind_some]
        rfl
      refine ⟨_, hrun, ?_, ?_⟩
      · simp only [reduceCtorEq, exists_false, false_iff, not_not]
        exact hg.haveInstance (h.plain last (by simp)).unmarked
      · intro types'' progress hok
        cases hok
        refine ⟨fun a ha => ⟨(hin a ha).left, (hin a ha).right ▸ hg⟩, fun a ha b hb => ?_, hout, ?_⟩
        · rw [(hin a ha).right, (hin b hb).right]
        · rfl

end EqualN

-- The constraints on distinct expressions whose types have no markers.
theorem equality_constraints :
    (∀ (expr_types : ExprTypes) (expr_id arg1_id arg2_id start_idx : Nat),
      [expr_id, arg1_id, arg2_id].Nodup →
      (∀ i ∈ [expr_id, arg1_id, arg2_id],
        (expr_types i).Plain ∧ start_idx < (expr_types i).parts.length) →
      EqualizesThree expr_types expr_id arg1_id arg2_id start_idx) ∧
    ∀ (expr_types : ExprTypes) (expr_id : Nat) (args : List Nat), args.Nodup →
      (∀ i ∈ args, (expr_types i).Plain) → EqualizesAll expr_types expr_id args := by
  constructor
  case left =>
    intro expr_types expr_id arg1_id arg2_id start_idx hn hp
    simp only [List.nodup_cons, List.mem_cons, List.not_mem_nil, or_false, not_or] at hn
    exact apply_equal3_constraint_spec hn.left.left hn.left.right hn.right.left hp
  case right => exact fun _ _ _ hn hp => apply_equal_n_constraint_spec hn hp

-- An unknown type, an array-like type and a slice.
theorem equality_with_a_slice :
    let expr_types : ExprTypes := fun
      | 0 => ⟨false, false, [.unknown]⟩
      | 1 => ⟨false, false, [.arrayLike, .integerLike]⟩
      | _ => ⟨false, false, [.slice, .numberLike]⟩
    EqualizesThree expr_types 0 1 2 0 ∧ EqualizesAll expr_types 3 [0, 1, 2] := by
  intro expr_types
  have h₀ : (expr_types 0).Plain := ⟨⟨.cons .nil, rfl⟩, by decide⟩
  have h₁ : (expr_types 1).Plain := ⟨⟨.cons (.cons .nil), rfl⟩, by decide⟩
  have h₂ : (expr_types 2).Plain := ⟨⟨.cons (.cons .nil), rfl⟩, by decide⟩
  have hp : ∀ i ∈ [0, 1, 2], (expr_types i).Plain ∧ 0 < (expr_types i).parts.length := by
    simp only [List.forall_mem_cons, List.not_mem_nil, false_implies, implies_true, and_true]
    exact ⟨⟨h₀, by decide⟩, ⟨h₁, by decide⟩, ⟨h₂, by decide⟩⟩
  exact ⟨equality_constraints.left _ _ _ _ _ (by decide) hp,
    equality_constraints.right _ _ _ (by decide) fun i hi => (hp i hi).left⟩

end Reowolf.Types
