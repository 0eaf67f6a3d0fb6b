import Reowolf.Types.EqualityConstraints
import Reowolf.Types.PolymorphicConstraints

namespace Reowolf.Types

open InferenceTypePart (signature)
open InferenceType

-- An instance is one of a definition.
def InferenceTypePart.Known (heap : Heap) (p : InferenceTypePart) : Prop :=
  ∀ id num, p = .«instance» id num → ∃ definition, heap.definitions[id]? = some definition

-- A type with all of its parts, which are known.
structure InferenceType.Formed (heap : Heap) (t : InferenceType) : Prop extends t.WellFormed where
  known : ∀ p ∈ t.parts, p.Known heap

variable {heap : Heap} {expr : PolymorphicExpression} {d d' : ExtraData} {idx idx' : SignatureIdx}
variable {t a b : InferenceType} {parts : List InferenceTypePart} {n : Nat}
variable {ss ts : List (InferenceTypePart × List InferenceTypePart)}
variable {args : List (List InferenceTypePart)} {types : SignatureIdx → List InferenceTypePart}

namespace InferenceType

theorem known_erase (h : ∀ p ∈ parts, p.Known heap) : ∀ p ∈ signature.erase parts, p.Known heap :=
  fun p hp => h p (List.mem_of_mem_filter hp)

namespace Formed

theorem whole (h : a.Formed heap) : SubtreeAt a.parts 0 [] a.parts [] :=
  subtreeAt_whole h.tree

theorem update {modified : Bool} (h : a.Formed heap) (hr : signature.Refines a.parts parts)
    (hk : ∀ p ∈ parts, p.Known heap) (hm : modified = false → parts = a.parts) :
    (a.update parts modified).Formed heap := by
  obtain ⟨hparts, _, hdone⟩ := done_of_modified parts modified h.done hm
  refine ⟨⟨?_, ?_⟩, ?_⟩
  · rw [hparts]
    exact hr.forest h.tree
  · rw [hparts, Bool.eq_iff_iff, hdone, List.all_eq_true]
  · rwa [hparts]

-- Two types become the same but for their markers, or they clash.
theorem infer_both (ha : a.Formed heap) (hb : b.Formed heap) :
    (∃ ta tb, signature.Merges a.parts b.parts ta tb ∧
      infer_subtrees_for_both_types a 0 b 0 =
        some (of_modified (decide (ta ≠ a.parts)) (decide (tb ≠ b.parts)),
          a.update ta (decide (ta ≠ a.parts)), b.update tb (decide (tb ≠ b.parts))) ∧
      (a.update ta (decide (ta ≠ a.parts))).Formed heap ∧
      (b.update tb (decide (tb ≠ b.parts))).Formed heap) ∨
    signature.Clashes a.parts b.parts ∧
      ∃ a' b', infer_subtrees_for_both_types a 0 b 0 = some (.incompatible, a', b') := by
  obtain ⟨ta, tb, h⟩ | h := TermSignature.merges_or_clashes ha.tree hb.tree
  · obtain ⟨hka, hkb⟩ := h.all ha.known hb.known
    obtain ⟨hra, hrb⟩ := h.refines
    refine .inl ⟨ta, tb, h, ?_, ha.update hra hka ?_, hb.update hrb hkb ?_⟩
    · simpa using infer_both_types_eq ha.whole hb.whole h
    · simp
    · simp
  · exact .inr ⟨h, infer_both_types_clashes ha.whole hb.whole h⟩

end Formed

-- A type of which nothing is to be inferred has only itself as a refinement.
theorem refines_of_concrete {l m : List InferenceTypePart} (h : signature.Refines l m)
    (hc : ∀ p ∈ l, p.is_concrete = true) : m = l := by
  refine h.eq_of_fixed fun p hp => ⟨fun he => ?_, fun q hn => ?_⟩
  · cases he ▸ hc p hp
  · have hc := hc p hp
    rw [show signature.narrows p q = (p.may_be_inferred_from q = true) from rfl,
      InferenceTypePart.may_be_inferred_from_iff] at hn
    obtain ⟨hp, _⟩ | ⟨hp, _⟩ | ⟨hp, _⟩ | ⟨hp, _⟩ := hn <;> cases hp ▸ hc

-- The type of an expression: it has no markers.
structure Proper (heap : Heap) (t : InferenceType) : Prop extends t.Formed heap where
  unmarked : signature.Unmarked t.parts

theorem Proper.erase_eq (h : t.Proper heap) : signature.erase t.parts = t.parts :=
  h.unmarked.erase_eq

theorem Proper.plain (h : t.Proper heap) : t.Plain :=
  ⟨h.toWellFormed, h.unmarked⟩

end InferenceType

-- The variables refine what is behind their markers.
structure Agrees (poly_vars : List InferenceType) (t : InferenceType)
    (ss : List (InferenceTypePart × List InferenceTypePart)) : Prop extends
    Marked poly_vars.length t ss where
  behind : ∀ s ∈ ss, ∀ v, poly_vars[s.1.marker_idx]? = some v →
    signature.Refines s.2 (signature.erase v.parts)

-- The variables are refined.
structure Narrows (heap : Heap) (poly_vars poly_vars' : List InferenceType) : Prop where
  length  : poly_vars'.length = poly_vars.length
  refines : ∀ (i : Nat) (v v' : InferenceType), poly_vars[i]? = some v → poly_vars'[i]? = some v' →
    signature.Refines v.parts v'.parts
  formed  : ∀ v ∈ poly_vars', v.Formed heap

-- The types that are given for the variables refine what has been inferred of these.
def AdmitsArgs (poly_vars : List InferenceType) (args : List (List InferenceTypePart)) : Prop :=
  ∀ (i : Nat) (v : InferenceType), poly_vars[i]? = some v → ∃ arg, args[i]? = some arg ∧
    signature.Refines (signature.erase v.parts) arg

-- What is behind the marker of a variable is refined by the type that is given for it.
def AdmitsSection (args : List (List InferenceTypePart))
    (s : InferenceTypePart × List InferenceTypePart) : Prop :=
  ∃ arg, args[s.1.marker_idx]? = some arg ∧ signature.Refines s.2 arg

variable {poly_vars poly_vars' poly_vars'' : List InferenceType}

@[simp]
theorem or_panic_some {α : Type} (a : α) : or_panic (some a) = .ok a :=
  rfl

namespace Narrows

theorem refl (h : ∀ v ∈ poly_vars, v.Formed heap) : Narrows heap poly_vars poly_vars where
  length  := rfl
  refines := by
    intro i v v' hv hv'
    cases hv.symm.trans hv'
    exact .refl _
  formed  := h

theorem trans (h : Narrows heap poly_vars poly_vars') (h' : Narrows heap poly_vars' poly_vars'') :
    Narrows heap poly_vars poly_vars'' where
  length  := h'.length.trans h.length
  refines := by
    intro i v v'' hv hv''
    have hi : i < poly_vars'.length := by
      rw [h.length]
      exact (List.getElem?_eq_some_iff.mp hv).1
    have hv' := List.getElem?_eq_getElem hi
    exact (h.refines i v _ hv hv').trans (h'.refines i _ v'' hv' hv'')
  formed  := h'.formed

-- A variable that is refined further still refines what it has refined.
theorem behind {s : InferenceTypePart × List InferenceTypePart} (h : Narrows heap poly_vars poly_vars')
    (hs : ∀ v, poly_vars[s.1.marker_idx]? = some v →
      signature.Refines s.2 (signature.erase v.parts)) :
    ∀ v, poly_vars'[s.1.marker_idx]? = some v →
      signature.Refines s.2 (signature.erase v.parts) := by
  intro v' hv'
  have hi : s.1.marker_idx < poly_vars.length := by
    rw [← h.length]
    exact (List.getElem?_eq_some_iff.mp hv').1
  have hv := List.getElem?_eq_getElem hi
  exact (hs _ hv).trans (h.refines _ _ v' hv hv').erase

theorem set {i : Nat} {v v' : InferenceType} (h : ∀ v ∈ poly_vars, v.Formed heap)
    (hv : poly_vars[i]? = some v) (hr : signature.Refines v.parts v'.parts) (hf : v'.Formed heap) :
    Narrows heap poly_vars (poly_vars.set i v') where
  length  := List.length_set
  refines := by
    intro j w w' hw hw'
    rw [List.getElem?_set] at hw'
    split at hw'
    case isTrue hij =>
      subst hij
      cases hv.symm.trans hw
      split at hw'
      case isTrue  => exact Option.some.inj hw' ▸ hr
      case isFalse => cases hw'
    case isFalse =>
      cases hw.symm.trans hw'
      exact .refl _
  formed w hw := (List.mem_or_eq_of_mem_set hw).elim (h w) fun he => he ▸ hf

end Narrows

theorem Agrees.narrows (h : Agrees poly_vars t ss) (hn : Narrows heap poly_vars poly_vars') :
    Agrees poly_vars' t ss where
  sections   := h.sections
  bound      := hn.length.symm ▸ h.bound
  behind s hs := hn.behind (h.behind s hs)

namespace ExtraData

-- The types of the signature and those of the variables belong together.
structure Consistent (heap : Heap) (d : ExtraData) : Prop where
  named      : ∃ definition, heap.definitions[d.definition_id]? = some definition ∧
    definition.poly_vars.length = d.poly_vars.length
  poly_vars  : ∀ v ∈ d.poly_vars, v.Formed heap
  signatures : ∀ idx t, d.signature_type idx = some t →
    t.Formed heap ∧ ∃ ss, Agrees d.poly_vars t ss

-- Types for the variables and for the places of the signature that refine what has been inferred.
structure Admits (d : ExtraData) (args : List (List InferenceTypePart))
    (types : SignatureIdx → List InferenceTypePart) : Prop where
  poly_vars  : AdmitsArgs d.poly_vars args
  signatures : ∀ idx t, d.signature_type idx = some t →
    signature.Covers (fun k c => args[k.marker_idx]? = some c) t.parts (types idx)

@[simp]
theorem signature_type_set_poly_vars (idx : SignatureIdx) :
    signature_type { d with poly_vars := poly_vars } idx = d.signature_type idx := by
  cases idx <;> rfl

theorem Consistent.typed (h : d.Consistent heap) : d.Typed heap where
  named      := h.named
  poly_vars v hv := (h.poly_vars v hv).tree
  marked idx t ht := by
    obtain ⟨_, ss, hss⟩ := h.signatures idx t ht
    exact ⟨ss, hss.toMarked⟩

theorem Typed.set (h : d.Typed heap) {i : Nat} {v : InferenceType}
    (hv : signature.Forest 1 v.parts) :
    Typed heap { d with poly_vars := d.poly_vars.set i v } where
  named := by
    obtain ⟨definition, hd, hlen⟩ := h.named
    exact ⟨definition, hd, hlen.trans List.length_set.symm⟩
  poly_vars w hw := (List.mem_or_eq_of_mem_set hw).elim (h.poly_vars w) fun he => he ▸ hv
  marked idx t ht := by
    rw [signature_type_set_poly_vars] at ht
    obtain ⟨ss, hss⟩ := h.marked idx t ht
    exact ⟨ss, hss.sections, by rw [List.length_set]; exact hss.bound⟩

-- What the loop over the markers in a type comes to: the variables refine all that is behind a marker,
-- or what is behind a marker clashes with its variable.
theorem Typed.apply_sections_cases (h : d.Typed heap) (expr : PolymorphicExpression)
    (hf : ∀ v ∈ d.poly_vars, v.Formed heap) (ht : d.signature_type idx = some t)
    (hm : Marked d.poly_vars.length t ts) (hss : ∀ s ∈ ss, s ∈ ts)
    (hsk : ∀ s ∈ ss, ∀ p ∈ s.2, p.Known heap) :
    (∃ poly_vars', apply_sections heap expr (ss.map numbered) d =
        .ok { d with poly_vars := poly_vars' } ∧ Narrows heap d.poly_vars poly_vars' ∧
      (∀ s ∈ ss, ∀ v, poly_vars'[s.1.marker_idx]? = some v →
        signature.Refines s.2 (signature.erase v.parts)) ∧
      ∀ args, AdmitsArgs d.poly_vars args → (∀ s ∈ ss, AdmitsSection args s) →
        AdmitsArgs poly_vars' args) ∨
    ∃ error, apply_sections heap expr (ss.map numbered) d = .error (.parse_error error) ∧
      ∀ args, AdmitsArgs d.poly_vars args → ¬∀ s ∈ ss, AdmitsSection args s := by
  induction ss generalizing d with
  | nil =>
    refine .inl ⟨d.poly_vars, rfl, .refl hf, fun _ h => absurd h List.not_mem_nil, ?_⟩
    exact fun _ h _ => h
  | cons s ss ih =>
    obtain ⟨hs, hss⟩ := List.forall_mem_cons.mp hss
    obtain ⟨hsk, hssk⟩ := List.forall_mem_cons.mp hsk
    obtain ⟨v, hv⟩ : ∃ v, d.poly_vars[s.1.marker_idx]? = some v :=
      ⟨_, List.getElem?_eq_getElem (hm.bound s hs)⟩
    have hvf := hf v (List.mem_of_getElem? hv)
    obtain ⟨htree, hu⟩ := hm.sections.forest s hs
    obtain ⟨v', s', hmerge⟩ | hclash := TermSignature.merges_or_clashes hvf.tree htree
    · have hrun := apply_template_merges hvf.whole htree hmerge
      simp only [List.nil_append, List.append_nil] at hrun
      obtain ⟨hrv, hrs⟩ := hmerge.refines
      have hvf' : (v.update v' (decide (v' ≠ v.parts))).Formed heap :=
        hvf.update hrv (hmerge.all hvf.known hsk).left (by simp)
      have hset := Narrows.set hf hv (by simpa using hrv) hvf'
      have hstep : apply_sections heap expr ((s :: ss).map numbered) d =
          apply_sections heap expr (ss.map numbered) { d with
            poly_vars := d.poly_vars.set s.1.marker_idx (v.update v' (decide (v' ≠ v.parts))) } := by
        simp only [List.map_cons, numbered, apply_sections, hv, or_panic_some, hrun, Except.ok_bind]
      have hbehind : ∀ w, (d.poly_vars.set s.1.marker_idx
          (v.update v' (decide (v' ≠ v.parts))))[s.1.marker_idx]? = some w →
          signature.Refines s.2 (signature.erase w.parts) := by
        intro w hw
        rw [List.getElem?_set_self (hm.bound s hs)] at hw
        cases hw
        rw [update_parts, hmerge.erase_eq, (hrs.unmarked hu).erase_eq]
        exact hrs
      have hadmits : ∀ args, AdmitsArgs d.poly_vars args → AdmitsSection args s →
          AdmitsArgs (d.poly_vars.set s.1.marker_idx (v.update v' (decide (v' ≠ v.parts)))) args := by
        rintro args hargs ⟨arg, harg, hsarg⟩ i w hw
        rw [List.getElem?_set] at hw
        split at hw
        case isFalse => exact hargs i w hw
        case isTrue hi =>
          subst hi
          split at hw
          case isFalse => cases hw
          case isTrue =>
            cases hw
            obtain ⟨_, harg', hvarg⟩ := hargs _ v hv
            cases harg.symm.trans harg'
            refine ⟨arg, harg, ?_⟩
            rw [update_parts]
            exact (hmerge.meet arg).mp ⟨hvarg, by rwa [hu.erase_eq]⟩
      have htyped := h.set (i := s.1.marker_idx) hvf'.tree
      obtain ⟨poly_vars', hrun', hn, hb, ha⟩ | ⟨error, hrun', hnone⟩ :=
        ih htyped hset.formed (by rwa [signature_type_set_poly_vars]) (hset.length.symm ▸ hm) hss hssk
      · refine .inl ⟨poly_vars', hstep.trans hrun', hset.trans hn, ?_, fun args hargs hsections => ?_⟩
        · exact List.forall_mem_cons.mpr ⟨hn.behind hbehind, hb⟩
        · obtain ⟨hs, hsections⟩ := List.forall_mem_cons.mp hsections
          exact ha args (hadmits args hargs hs) hsections
      · refine .inr ⟨error, hstep.trans hrun', fun args hargs hsections => ?_⟩
        obtain ⟨hs, hsections⟩ := List.forall_mem_cons.mp hsections
        exact hnone args (hadmits args hargs hs) hsections
    · obtain ⟨v', w, hrv, hw, hrun⟩ := apply_template_clashes hvf.whole htree hclash
      rw [List.nil_append, List.append_nil] at hw
      have htyped := h.set (i := s.1.marker_idx) (v := w) (hw ▸ hrv.forest hvf.tree)
      have hclash' : signature.Clashes w.parts s.2 := by
        rw [hw]
        exact hclash.of_refines hvf.tree htree hrv
      have hmarked : Marked (d.poly_vars.set s.1.marker_idx w).length t ts :=
        ⟨hm.sections, by rw [List.length_set]; exact hm.bound⟩
      obtain ⟨error, herror⟩ := htyped.construct_poly_arg_error_spec expr
        (by rwa [signature_type_set_poly_vars]) hmarked
        ⟨s, hs, w, List.getElem?_set_self (hm.bound s hs), hclash'⟩
      refine .inr ⟨error, ?_, fun args hargs hsections => ?_⟩
      · simp only [List.map_cons, numbered, apply_sections, hv, or_panic_some, hrun, Except.ok_bind]
        exact congrArg Except.error herror
      · obtain ⟨arg, harg, hsarg⟩ := hsections s List.mem_cons_self
        obtain ⟨_, harg', hvarg⟩ := hargs _ v hv
        cases harg.symm.trans harg'
        exact hclash.disjoint arg ⟨hvarg, by rwa [hu.erase_eq]⟩

@[simp]
theorem signature_type_set_self {t' : InferenceType} (ht : d.signature_type idx = some t) :
    (d.set_signature_type idx t').signature_type idx = some t' := by
  cases idx with
  | returned   => rfl
  | embedded i => exact List.getElem?_set_self (List.getElem?_eq_some_iff.mp ht).1

@[simp]
theorem signature_type_set_ne {t' : InferenceType} (h : idx' ≠ idx) :
    (d.set_signature_type idx t').signature_type idx' = d.signature_type idx' := by
  cases idx <;> cases idx'
  case embedded.embedded i j =>
    refine List.getElem?_set_ne fun he => h ?_
    rw [he]
  case returned.returned     => exact absurd rfl h
  all_goals rfl

theorem set_signature_type_same (ht : d.signature_type idx = some t) :
    d.set_signature_type idx t = d := by
  cases idx with
  | returned =>
    cases ht
    rfl
  | embedded i =>
    obtain ⟨hi, ht⟩ := List.getElem?_eq_some_iff.mp ht
    rw [set_signature_type, ← ht, List.set_getElem_self]

@[simp]
theorem poly_vars_set_signature_type : (d.set_signature_type idx t).poly_vars = d.poly_vars := by
  cases idx <;> rfl

@[simp]
theorem definition_id_set_signature_type :
    (d.set_signature_type idx t).definition_id = d.definition_id := by
  cases idx <;> rfl

-- Another type in the signature, with variables that belong to it.
theorem Consistent.set {t' : InferenceType} (h : d.Consistent heap) (ht : d.signature_type idx = some t)
    (hn : Narrows heap d.poly_vars poly_vars) (hf : t'.Formed heap) (ha : Agrees poly_vars t' ss) :
    Consistent heap { d.set_signature_type idx t' with poly_vars := poly_vars } where
  named := by
    obtain ⟨definition, hd, hlen⟩ := h.named
    exact ⟨definition, by simpa using hd, hlen.trans hn.length.symm⟩
  poly_vars := hn.formed
  signatures idx' t'' ht' := by
    rw [signature_type_set_poly_vars] at ht'
    by_cases hi : idx' = idx
    case pos =>
      subst hi
      rw [signature_type_set_self ht] at ht'
      cases ht'
      exact ⟨hf, ss, ha⟩
    case neg =>
      rw [signature_type_set_ne hi] at ht'
      obtain ⟨hf', ss', ha'⟩ := h.signatures idx' t'' ht'
      exact ⟨hf', ss', ha'.narrows hn⟩

theorem Admits.set {t' : InferenceType} (h : d.Admits args types) (ht : d.signature_type idx = some t)
    (hp : AdmitsArgs poly_vars args)
    (ha : signature.Covers (fun k c => args[k.marker_idx]? = some c) t'.parts (types idx)) :
    Admits { d.set_signature_type idx t' with poly_vars := poly_vars } args types where
  poly_vars := hp
  signatures idx' t'' ht' := by
    rw [signature_type_set_poly_vars] at ht'
    by_cases hi : idx' = idx
    case pos =>
      subst hi
      rw [signature_type_set_self ht] at ht'
      cases ht'
      exact ha
    case neg =>
      rw [signature_type_set_ne hi] at ht'
      exact h.signatures idx' t'' ht'

-- The data after a type in the signature has been inferred together with the type of an expression.
structure Infers (heap : Heap) (idx : SignatureIdx) (d : ExtraData) (e : InferenceType) (d' : ExtraData)
    (e' : InferenceType) : Prop where
  consistent : d'.Consistent heap
  proper     : e'.Proper heap
  refines    : signature.Refines e.parts e'.parts
  narrows    : Narrows heap d.poly_vars d'.poly_vars
  inferred   : ∃ t t', d.signature_type idx = some t ∧ d'.signature_type idx = some t' ∧
    signature.Refines t.parts t'.parts ∧ t'.has_marker = t.has_marker ∧
    signature.erase t'.parts = e'.parts
  others     : ∀ idx' ≠ idx, d'.signature_type idx' = d.signature_type idx'
  definition : d'.definition_id = d.definition_id ∧ d'.expr_id = d.expr_id
  admits     : ∀ args types, d.Admits args types → signature.Refines e.parts (types idx) →
    d'.Admits args types ∧ signature.Refines e'.parts (types idx)

section

variable {ta tb : List InferenceTypePart}

-- The constraint on two types that can be the same.
theorem apply_equal2_signature_merges (expr : PolymorphicExpression) (hf : t.Formed heap)
    (hb : b.Formed heap) (ht : d.signature_type idx = some t)
    (hm : signature.Merges t.parts b.parts ta tb) :
    apply_equal2_signature_constraint heap expr d idx 0 b 0 =
      if ta = t.parts then
        .ok (d, b.update tb (decide (tb ≠ b.parts)), false, decide (tb ≠ b.parts))
      else if t.has_marker then do
        let sections ← or_panic (t.update ta true).marker_iter
        let d' ← apply_sections heap expr sections (d.set_signature_type idx (t.update ta true))
        .ok (d', b.update tb (decide (tb ≠ b.parts)), true, decide (tb ≠ b.parts))
      else
        .error (.panic .signature_without_marker) := by
  have hrun := infer_both_types_eq hf.whole hb.whole hm
  simp only [List.nil_append, List.append_nil] at hrun
  obtain ⟨hne, hlhs, hrhs⟩ := of_modified_spec (decide (ta ≠ t.parts)) (decide (tb ≠ b.parts))
  by_cases hsame : ta = t.parts
  case pos =>
    have hflag : decide (ta ≠ t.parts) = false := decide_eq_false fun h => h hsame
    have hset : d.set_signature_type idx (t.update ta false) = d := hsame ▸ set_signature_type_same ht
    rw [hflag] at hrun hne hlhs hrhs
    rw [if_pos hsame]
    simp only [apply_equal2_signature_constraint, ht, or_panic_some, hrun, Except.ok_bind, if_neg hne,
      hlhs, hrhs, hset, Bool.false_eq_true, if_false]
  case neg =>
    have hflag : decide (ta ≠ t.parts) = true := decide_eq_true hsame
    rw [hflag] at hrun hne hlhs hrhs
    rw [if_neg hsame]
    simp only [apply_equal2_signature_constraint, ht, or_panic_some, hrun, Except.ok_bind, if_neg hne,
      hlhs, hrhs, if_true, update_has_marker]
    cases t.has_marker <;> rfl

-- A type is refined and has markers, so the variables of these are inferred.
theorem Consistent.apply_refined (h : d.Consistent heap) (expr : PolymorphicExpression)
    (ht : d.signature_type idx = some t) (hr : signature.Refines t.parts ta)
    (hf : (t.update ta true).Formed heap) :
    ∃ sections, (t.update ta true).marker_iter = some sections ∧
    ((∃ poly_vars, apply_sections heap expr sections (d.set_signature_type idx (t.update ta true)) =
        .ok { d.set_signature_type idx (t.update ta true) with poly_vars := poly_vars } ∧
      Narrows heap d.poly_vars poly_vars ∧ (∃ ss, Agrees poly_vars (t.update ta true) ss) ∧
      ∀ args c, AdmitsArgs d.poly_vars args →
        signature.Covers (fun k c => args[k.marker_idx]? = some c) ta c → AdmitsArgs poly_vars args) ∨
    ∃ error, apply_sections heap expr sections (d.set_signature_type idx (t.update ta true)) =
        .error (.parse_error error) ∧
      ∀ args c, AdmitsArgs d.poly_vars args →
        ¬signature.Covers (fun k c => args[k.marker_idx]? = some c) ta c) := by
  obtain ⟨_, ss, hss⟩ := h.signatures idx t ht
  obtain ⟨ss', hss', hmem⟩ := hss.sections.markers hr
  have hset : (d.set_signature_type idx (t.update ta true)).signature_type idx =
      some (t.update ta true) := signature_type_set_self ht
  have hmarked : Marked d.poly_vars.length (t.update ta true) ss' := by
    refine ⟨by rwa [update_parts], fun s hs => ?_⟩
    obtain ⟨s₀, hs₀, hs⟩ := hmem s hs
    exact hs ▸ hss.bound s₀ hs₀
  have htyped : (d.set_signature_type idx (t.update ta true)).Typed heap := by
    obtain ⟨definition, hd, hlen⟩ := h.named
    refine ⟨⟨definition, by simpa using hd, by simpa using hlen⟩, ?_, fun idx' t' ht' => ?_⟩
    · simpa using fun v hv => (h.poly_vars v hv).tree
    · rw [poly_vars_set_signature_type]
      by_cases hi : idx' = idx
      case pos =>
        subst hi
        cases hset.symm.trans ht'
        exact ⟨ss', hmarked⟩
      case neg =>
        rw [signature_type_set_ne hi] at ht'
        exact h.typed.marked idx' t' ht'
  have hadmits : ∀ args c, signature.Covers (fun k c => args[k.marker_idx]? = some c) ta c →
      ∀ s ∈ ss', AdmitsSection args s := by
    intro args c hc s hs
    obtain ⟨arg, harg, hsarg⟩ := hc.behind hss' s hs
    exact ⟨arg, harg, hsarg⟩
  have hknown : ∀ s ∈ ss', ∀ p ∈ s.2, p.Known heap := by
    intro s hs p hp
    exact hf.known p (by rw [update_parts]; exact hss'.mem s hs p hp)
  refine ⟨ss'.map numbered, marker_iter_eq hmarked.sections, ?_⟩
  obtain ⟨poly_vars, hrun, hn, hbehind, ha⟩ | ⟨error, hrun, hnone⟩ :=
    htyped.apply_sections_cases expr (by simpa using h.poly_vars) hset (by simpa using hmarked)
      (fun s (hs : s ∈ ss') => hs) hknown
  case inl =>
    rw [poly_vars_set_signature_type] at hn ha
    refine .inl ⟨poly_vars, hrun, hn, ⟨ss', ⟨hmarked.sections, ?_⟩, hbehind⟩, fun args c hargs hc => ?_⟩
    · exact hn.length.symm ▸ hmarked.bound
    · exact ha args hargs (hadmits args c hc)
  case inr =>
    rw [poly_vars_set_signature_type] at hnone
    exact .inr ⟨error, hrun, fun args c hargs hc => hnone args hargs (hadmits args c hc)⟩

-- Both types become the same, there is an error for the programmer, or there is something to infer of a
-- type that has no markers.
theorem Consistent.apply_equal2_signature (h : d.Consistent heap) (expr : PolymorphicExpression)
    (hb : b.Proper heap) (ht : d.signature_type idx = some t) :
    (∃ d' b' progress_sig, apply_equal2_signature_constraint heap expr d idx 0 b 0 =
        .ok (d', b', progress_sig, decide (b'.parts ≠ b.parts)) ∧ Infers heap idx d b d' b') ∨
    (∃ error, apply_equal2_signature_constraint heap expr d idx 0 b 0 = .error (.parse_error error) ∧
      ∀ args types, d.Admits args types → ¬signature.Refines b.parts (types idx)) ∨
    apply_equal2_signature_constraint heap expr d idx 0 b 0 =
        .error (.panic .signature_without_marker) ∧ t.has_marker = false ∧ t.is_done = false := by
  obtain ⟨hf, ss, hss⟩ := h.signatures idx t ht
  obtain ⟨ta, tb, hmerge, _, hfa, hfb⟩ | ⟨hclash, a', b', hrun⟩ := hf.infer_both hb.toFormed
  case inr =>
    refine .inr (.inl ⟨_, by
      simp only [apply_equal2_signature_constraint, ht, or_panic_some, hrun, Except.ok_bind, if_true]
      rfl, fun args types hadmits hr => ?_⟩)
    exact hclash.disjoint _ ⟨(hadmits.signatures idx t ht).refines, by rwa [hb.erase_eq]⟩
  case inl =>
    obtain ⟨hra, hrb⟩ := hmerge.refines
    have hub := hrb.unmarked hb.unmarked
    have herase : signature.erase ta = tb := hmerge.erase_eq.trans hub.erase_eq
    have hproper : (b.update tb (decide (tb ≠ b.parts))).Proper heap :=
      ⟨hfb, by rwa [update_parts]⟩
    have hcover : ∀ args types, d.Admits args types → signature.Refines b.parts (types idx) →
        signature.Covers (fun k c => args[k.marker_idx]? = some c) ta (types idx) ∧
          signature.Refines tb (types idx) := by
      intro args types hadmits hr
      obtain ⟨hc, hr⟩ := (hadmits.signatures idx t ht).merges (by rwa [hb.erase_eq]) hmerge
      exact ⟨hc, by rwa [hub.erase_eq] at hr⟩
    have heq := apply_equal2_signature_merges expr hf hb.toFormed ht hmerge
    by_cases hsame : ta = t.parts
    case pos =>
      rw [if_pos hsame] at heq
      refine .inl ⟨d, _, false, by rw [heq, update_parts], h, hproper, by simpa using hrb,
        .refl h.poly_vars, ⟨t, t, ht, ht, .refl _, rfl, by simpa [← hsame] using herase⟩,
        fun _ _ => rfl, ⟨rfl, rfl⟩, fun args types hadmits hr => ⟨hadmits, ?_⟩⟩
      rw [update_parts]
      exact (hcover args types hadmits hr).right
    case neg =>
      rw [if_neg hsame] at heq
      cases hmarker : t.has_marker with
      | false =>
        refine .inr (.inr ⟨by rw [heq, hmarker]; rfl, rfl, ?_⟩)
        rw [Bool.eq_false_iff]
        intro hdone
        rw [hf.done, List.all_eq_true] at hdone
        exact hsame (refines_of_concrete hra hdone)
      | true =>
        rw [decide_eq_true hsame] at hfa
        obtain ⟨sections, hsections, ⟨poly_vars, hrun, hn, ⟨ss', hss'⟩, hargs⟩ | ⟨error, hrun, hnone⟩⟩ :=
          h.apply_refined expr ht hra hfa
        case inl =>
          simp only [hmarker, if_true, hsections, or_panic_some, hrun, Except.ok_bind] at heq
          refine .inl ⟨_, _, true, by rw [update_parts, heq], h.set ht hn hfa hss', hproper, by simpa using hrb, hn,
            ⟨t, t.update ta true, ht, ?_, by simpa using hra, by simp, by simpa using herase⟩,
            fun idx' hi => ?_, ?_, fun args types hadmits hr => ?_⟩
          · rw [signature_type_set_poly_vars, signature_type_set_self ht]
          · rw [signature_type_set_poly_vars, signature_type_set_ne hi]
          · cases idx <;> exact ⟨rfl, rfl⟩
          · obtain ⟨hc, hr⟩ := hcover args types hadmits hr
            refine ⟨hadmits.set ht (hargs args _ hadmits.poly_vars hc) (by simpa using hc), ?_⟩
            rwa [update_parts]
        case inr =>
          simp only [hmarker, if_true, hsections, or_panic_some, hrun, Except.ok_bind] at heq
          refine .inr (.inl ⟨error, heq, fun args types hadmits hr => ?_⟩)
          exact hnone args _ hadmits.poly_vars (hcover args types hadmits hr).left

end

end ExtraData

section Reapplication

variable {l : List InferenceTypePart} {i : Nat} {c : Bool}

-- The term behind a marker becomes what is known of its variable.
def IsVariable (poly_vars : List InferenceType) (k : InferenceTypePart)
    (_ t' : List InferenceTypePart) : Prop :=
  ∃ v, poly_vars[k.marker_idx]? = some v ∧ t' = signature.erase v.parts

-- The variables refine what is behind their markers.
def AllBehind (poly_vars : List InferenceType) (ss : List (InferenceTypePart × List InferenceTypePart)) :
    Prop :=
  ∀ s ∈ ss, ∃ v, poly_vars[s.1.marker_idx]? = some v ∧ signature.Refines s.2 (signature.erase v.parts)

theorem seek_marker_unmarked {m : List InferenceTypePart} (h : signature.Unmarked m) (i : Nat) :
    seek_marker i (m ++ l) = seek_marker (i + m.length) l := by
  induction m generalizing i with
  | nil => rfl
  | cons p m ih =>
    obtain ⟨hp, h⟩ := TermSignature.Unmarked.cons.mp h
    have hstep : seek_marker i (p :: (m ++ l)) = seek_marker (i + 1) (m ++ l) := by
      cases p with
      | marker => cases hp
      | _      => rfl
    rw [List.cons_append, hstep, ih h, List.length_cons, Nat.add_right_comm, Nat.add_assoc]

-- A term that is refined by its variable becomes that variable.
theorem merges_variable {t v : List InferenceTypePart} (ht : signature.Forest 1 t)
    (hu : signature.Unmarked t) (hv : signature.Forest 1 v)
    (hr : signature.Refines t (signature.erase v)) :
    ∃ v', signature.Merges t v (signature.erase v) v' := by
  obtain ⟨t', v', hm⟩ := TermSignature.exists_merges ht hv (by rwa [hu.erase_eq]) (.refl _)
  obtain ⟨hrt, _⟩ := hm.refines
  have hut := hrt.unmarked hu
  have hto := (hm.meet (signature.erase v)).mp ⟨by rwa [hu.erase_eq], .refl _⟩
  have hof := ((hm.meet (signature.erase t')).mpr (.refl _)).right
  rw [hut.erase_eq] at hto hof
  exact ⟨v', hto.antisymm hof ▸ hm⟩

-- The loop goes on behind the subtree that it has found, where there are no markers before the rest.
theorem reapply_polyvars_eq (hv : ∀ v ∈ poly_vars, v.Formed heap) (h : signature.Sections l ss)
    (hss : AllBehind poly_vars ss) (front : List InferenceTypePart) (ha : a.Formed heap)
    (hparts : a.parts = front ++ l)
    (hseek : seek_marker i (a.parts.drop i) = seek_marker front.length l)
    (hfuel : ss.length < n) :
    ∃ l' a', reapply_polyvars poly_vars n i c a = .ok (c || decide (l' ≠ l), a') ∧
      signature.Replaces (IsVariable poly_vars) l l' ∧ a'.Formed heap ∧ a'.parts = front ++ l' ∧
      a'.has_marker = a.has_marker := by
  induction h generalizing front a i n c with
  | nil =>
    obtain ⟨fuel, hfuel⟩ := Nat.exists_eq_add_one.mpr (Nat.lt_of_le_of_lt (Nat.zero_le _) hfuel)
    subst hfuel
    refine ⟨[], a, ?_, .nil, ha, hparts, rfl⟩
    simp only [reapply_polyvars, find_marker, hseek, seek_marker]
    simp
  | @plain p l ss hp _ ih =>
    have hstep : seek_marker front.length (p :: l) = seek_marker (front ++ [p]).length l := by
      cases p with
      | marker => cases hp
      | _      => simp [seek_marker]
    obtain ⟨l', a', hrun, hrep, ha', hparts', hmark⟩ := ih hss (front ++ [p]) ha (by simpa using hparts)
      (hseek.trans hstep) hfuel
    refine ⟨p :: l', a', ?_, .plain hp hrep, ha', by simpa using hparts', hmark⟩
    rw [hrun]
    simp
  | @marked k t l ss hk ht hu hs ih =>
    obtain ⟨⟨v, hkv, htv⟩, hss⟩ := List.forall_mem_cons.mp hss
    obtain ⟨fuel, he⟩ := Nat.exists_eq_add_one.mpr (Nat.lt_of_le_of_lt (Nat.zero_le _) hfuel)
    subst he
    have hvf := hv v (List.mem_of_getElem? hkv)
    obtain ⟨v', hm⟩ := merges_variable ht hu hvf.tree htv
    have hsub : SubtreeAt a.parts (front ++ [k]).length (front ++ [k]) t l :=
      ⟨by simpa using hparts, rfl, ht⟩
    have hend := find_subtree_end_idx_forest (front ++ [k]) l ht
    have happly := apply_template_merges hsub hvf.tree hm
    have hfind : a.find_marker i = some (k.marker_idx, (front ++ [k]).length) := by
      rw [find_marker, hseek, InferenceTypePart.eq_marker_idx hk]
      simp [seek_marker, InferenceTypePart.marker_idx]
    have hlen : t.length ≤ (signature.erase v.parts).length := htv.length_le
    have huv : signature.Unmarked (signature.erase v.parts) := TermSignature.erase_unmarked
    have hk' : IsVariable poly_vars k t (signature.erase v.parts) := ⟨v, hkv, rfl⟩
    have hknown := known_erase hvf.known
    generalize signature.erase v.parts = tv at htv hm happly hlen huv hk' hknown
    have hf₁ : (a.update (front ++ [k] ++ (tv ++ l)) (decide (tv ≠ t))).Formed heap := by
      refine ha.update ?_ (fun p hp => ?_) (fun hd => ?_)
      · rw [hsub.eq]
        exact (TermSignature.Refines.refl _).append (htv.append (.refl _))
      · simp only [List.mem_append] at hp
        obtain hp | hp | hp := hp
        · exact ha.known p (hsub.eq ▸ List.mem_append_left _ (List.mem_append.mpr hp))
        · exact hknown p hp
        · exact ha.known p (hsub.eq ▸ List.mem_append_right _ (List.mem_append_right _ hp))
      · rw [hsub.eq, not_not.mp (decide_eq_false_iff_not.mp hd)]
    -- what is behind the old end of the subtree has no markers in front of the rest
    have hseek₁ : seek_marker ((front ++ [k]).length + t.length)
        ((a.update (front ++ [k] ++ (tv ++ l)) (decide (tv ≠ t))).parts.drop
          ((front ++ [k]).length + t.length)) = seek_marker (front ++ k :: tv).length l := by
      have hsplit : tv = tv.take t.length ++ tv.drop t.length := (List.take_append_drop _ _).symm
      have hu' : signature.Unmarked (tv.drop t.length) := by
        rw [hsplit] at huv
        exact (TermSignature.Unmarked.append.mp huv).right
      rw [update_parts, List.drop_length_add_append, List.drop_append_of_le_length hlen,
        seek_marker_unmarked hu']
      congr 1
      simp only [List.length_append, List.length_drop, List.length_cons, List.length_nil]
      omega
    obtain ⟨l', a', hrun, hrep, ha', hparts', hmark⟩ := ih (c := c || decide (tv ≠ t)) hss
      (front ++ k :: tv) hf₁ (by simp) hseek₁ (Nat.lt_of_succ_lt_succ hfuel)
    refine ⟨k :: (tv ++ l'), a', ?_, .marked hk ht hu htv hk' hrep, ha', by simpa using hparts',
      by simpa using hmark⟩
    have hflag : (decide (tv ≠ t) || decide (l' ≠ l)) = decide (k :: (tv ++ l') ≠ k :: (t ++ l)) := by
      rw [Bool.eq_iff_iff, Bool.or_eq_true, decide_eq_true_iff, decide_eq_true_iff, decide_eq_true_iff,
        ← not_and_or, not_iff_not]
      constructor
      case mp =>
        rintro ⟨hl, hr⟩
        rw [hl, hr]
      case mpr =>
        intro he
        obtain ⟨hl, hr⟩ := ht.unique (htv.forest ht) (List.cons.inj he).right.symm
        exact ⟨hl.symm, hr.symm⟩
    rw [reapply_polyvars, hfind]
    simp only [hsub.eq, hend, hkv, happly, or_panic_some, Except.ok_bind]
    rw [hrun, Bool.or_assoc, hflag]

-- What the variables say of a type is said of the expression too.
theorem ExtraData.Consistent.apply_equal2_polyvar (h : d.Consistent heap) (hb : b.Proper heap)
    (ht : d.signature_type idx = some t) (he : signature.erase t.parts = b.parts) :
    ∃ t' b', apply_equal2_polyvar_constraint d.poly_vars t b =
        .ok (t', b', decide (b'.parts ≠ b.parts)) ∧
      ExtraData.Infers heap idx d b (d.set_signature_type idx t') b' := by
  obtain ⟨hf, ss, hss⟩ := h.signatures idx t ht
  have hbehind : AllBehind d.poly_vars ss := by
    intro s hs
    have hv := List.getElem?_eq_getElem (hss.bound s hs)
    exact ⟨_, hv, hss.behind s hs _ hv⟩
  obtain ⟨l, t', hrun, hrep, hf', hparts, hmark⟩ := reapply_polyvars_eq (i := 0) (c := false)
    (n := t.parts.length + 1) h.poly_vars hss.sections hbehind [] hf rfl rfl
    (Nat.lt_succ_of_le hss.sections.length_le)
  rw [List.nil_append] at hparts
  subst hparts
  have hr := hrep.refines
  have hre := hr.erase
  rw [he] at hre
  have hagrees : ∃ ss', Agrees d.poly_vars t' ss' := by
    obtain ⟨ss', hss', hvar⟩ := hrep.sections
    refine ⟨ss', ⟨hss', fun s hs => ?_⟩, fun s hs v hv => ?_⟩
    · obtain ⟨_, v, hv, _⟩ := hvar s hs
      exact (List.getElem?_eq_some_iff.mp hv).1
    · obtain ⟨_, v', hv', he⟩ := hvar s hs
      cases hv'.symm.trans hv
      exact he ▸ .refl _
  have hset : { d.set_signature_type idx t' with poly_vars := d.poly_vars } =
      d.set_signature_type idx t' := by
    cases idx <;> rfl
  have hcover : ∀ args types, d.Admits args types →
      signature.Covers (fun k c => args[k.marker_idx]? = some c) t'.parts (types idx) := by
    intro args types hadmits
    refine (hadmits.signatures idx t ht).replaces hrep fun k _ _ c hk hc => ?_
    obtain ⟨v, hv, hk⟩ := hk
    obtain ⟨arg, harg, hr⟩ := hadmits.poly_vars _ v hv
    cases harg.symm.trans hc
    exact hk ▸ hr
  obtain ⟨ss', hagrees⟩ := hagrees
  have hinfers : ∀ b' : InferenceType, b'.Proper heap → b'.parts = signature.erase t'.parts →
      ExtraData.Infers heap idx d b (d.set_signature_type idx t') b' := by
    intro b' hb' hparts
    refine ⟨hset ▸ h.set ht (.refl h.poly_vars) hf' hagrees, hb', hparts ▸ hre, ?_, ?_, ?_, ?_, ?_⟩
    · simpa using Narrows.refl h.poly_vars
    · exact ⟨t, t', ht, signature_type_set_self ht, hr, hmark, hparts.symm⟩
    · exact fun idx' hi => signature_type_set_ne hi
    · cases idx <;> exact ⟨rfl, rfl⟩
    · intro args types hadmits _
      have hc := hcover args types hadmits
      exact ⟨hset ▸ hadmits.set ht hadmits.poly_vars hc, hparts ▸ hc.refines⟩
  by_cases hsame : t'.parts = t.parts
  case pos =>
    rw [decide_eq_false (not_not.mpr hsame)] at hrun
    refine ⟨t', b, ?_, hinfers b hb (by rw [hsame, he])⟩
    simp [apply_equal2_polyvar_constraint, hrun, Except.ok_bind]
  case neg =>
    rw [decide_eq_true hsame] at hrun
    obtain ⟨tb, tt, hm⟩ := TermSignature.exists_merges hb.tree hf'.tree (by rwa [hb.erase_eq])
      (.refl (signature.erase t'.parts))
    have htt := hm.right_eq_iff.mpr (by rwa [hb.erase_eq])
    have hsingle := infer_single_type_eq true hb.whole hf'.whole hm fun _ => htt
    simp only [List.nil_append, List.append_nil] at hsingle
    obtain ⟨hrb, _⟩ := hm.refines
    have hub := hrb.unmarked hb.unmarked
    have htb : tb = signature.erase t'.parts := by
      rw [← hub.erase_eq, hm.erase_eq, htt]
    have hproper : (b.update tb (decide (tb ≠ b.parts))).Proper heap := by
      refine ⟨hb.update hrb ?_ (by simp), by rwa [update_parts]⟩
      exact htb ▸ known_erase hf'.known
    refine ⟨t', _, ?_, hinfers _ hproper (by rw [update_parts, htb])⟩
    simp only [apply_equal2_polyvar_constraint, hrun, Except.ok_bind, Bool.false_or, if_true, hsingle,
      or_panic_some, update_parts]
    by_cases hne : tb = b.parts
    case pos => simp [hne]
    case neg => simp [hne]

end Reapplication

end Reowolf.Types
