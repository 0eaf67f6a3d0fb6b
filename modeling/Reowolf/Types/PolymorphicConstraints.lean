import Reowolf.Types.MarkedSignatures

-- The first result that is found in a list, when looking for it does not fail.
theorem List.findSomeM?_cases {α β : Type*} {f : α → Option (Option β)} {l : List α}
    (h : ∀ a ∈ l, ∃ r, f a = some r) :
    (l.findSomeM? f = some none ∧ ∀ a ∈ l, f a = some none) ∨
    ∃ a ∈ l, ∃ b, f a = some (some b) ∧ l.findSomeM? f = some (some b) := by
  induction l with
  | nil => exact .inl ⟨rfl, nofun⟩
  | cons a l ih =>
    obtain ⟨⟨r, hr⟩, h⟩ := List.forall_mem_cons.mp h
    cases r with
    | some b => exact .inr ⟨a, .head _, b, hr, by simp [List.findSomeM?, hr]⟩
    | none =>
      have hstep : (a :: l).findSomeM? f = l.findSomeM? f := by simp [List.findSomeM?, hr]
      match ih h with
      | .inl ⟨hl, hn⟩        => exact .inl ⟨hstep.trans hl, List.forall_mem_cons.mpr ⟨hr, hn⟩⟩
      | .inr ⟨a', ha, b, hb⟩ => exact .inr ⟨a', .tail _ ha, b, hb.left, hstep.trans hb.right⟩

namespace Reowolf.Types

open InferenceTypePart (signature)
open InferenceType

variable {heap : Heap} {expr : PolymorphicExpression} {d d' : ExtraData} {idx idx' : SignatureIdx}
variable {t a b : InferenceType} {parts : List InferenceTypePart} {n : Nat}
variable {ss ts : List (InferenceTypePart × List InferenceTypePart)}

-- The markers in a type are those of the variables.
structure Marked (n : Nat) (t : InferenceType) (ss : List (InferenceTypePart × List InferenceTypePart)) :
    Prop where
  sections : signature.Sections t.parts ss
  bound    : ∀ s ∈ ss, s.1.marker_idx < n

-- What is found has a property that all results have.
theorem findSomeM?_spec {α β : Type*} {f : α → Option (Option β)} {l : List α} {P : β → Prop}
    (h : ∀ a ∈ l, ∃ r, f a = some r ∧ ∀ b, r = some b → P b) :
    ∃ r, l.findSomeM? f = some r ∧ ∀ b, r = some b → P b := by
  match List.findSomeM?_cases fun a ha => (h a ha).imp fun _ => And.left with
  | .inl ⟨hl, _⟩ => exact ⟨none, hl, nofun⟩
  | .inr ⟨a, ha, b, hb, hl⟩ =>
    obtain ⟨r, hr, hp⟩ := h a ha
    refine ⟨some b, hl, fun b' hb' => ?_⟩
    exact hp b' ((Option.some.inj (hr.symm.trans hb)).trans hb')

theorem section_mismatch_spec {l m : List InferenceTypePart} (i : Nat) (hl : signature.Forest 1 l)
    (hm : signature.Forest 1 m) : ∃ r, section_mismatch i l m = some r ∧
      (∀ m, r = some m → m.poly_idx = i) ∧ (signature.Clashes l m → r ≠ none) := by
  obtain ⟨compatible, hc, hclash⟩ := check_subtrees_cases hl hm
  rw [section_mismatch, hc]
  cases compatible with
  | true  => exact ⟨none, rfl, nofun, fun h => nomatch hclash h⟩
  | false => exact ⟨_, rfl, fun _ hm => Option.some.inj hm ▸ rfl, nofun⟩

theorem has_poly_mismatch_spec (ha : Marked n a ss) (hb : Marked n b ts) :
    ∃ r, has_poly_mismatch a b = some r ∧ ∀ m, r = some m → m.poly_idx < n := by
  rw [has_poly_mismatch]
  split
  case isTrue => exact ⟨none, rfl, nofun⟩
  case isFalse =>
    simp only [marker_iter_eq ha.sections, marker_iter_eq hb.sections, Option.bind_eq_bind,
      Option.bind_some]
    refine findSomeM?_spec (List.forall_mem_map.mpr fun s hs => ?_)
    refine findSomeM?_spec (List.forall_mem_map.mpr fun s' hs' => ?_)
    split
    case isFalse => exact ⟨none, rfl, nofun⟩
    case isTrue =>
      obtain ⟨hf, _⟩ := ha.sections.forest s hs
      obtain ⟨hf', _⟩ := hb.sections.forest s' hs'
      obtain ⟨r, hr, hidx, _⟩ := section_mismatch_spec s.1.marker_idx hf hf'
      exact ⟨r, hr, fun m hm => hidx m hm ▸ ha.bound s hs⟩

-- A section that clashes with its variable is a mismatch.
theorem has_explicit_poly_mismatch_spec {poly_vars : List InferenceType}
    (hv : ∀ v ∈ poly_vars, signature.Forest 1 v.parts) (ha : Marked poly_vars.length a ss) :
    ∃ r, has_explicit_poly_mismatch poly_vars a = some r ∧
      (∀ m, r = some m → m.poly_idx < poly_vars.length) ∧
      ((∃ s ∈ ss, ∃ v, poly_vars[s.1.marker_idx]? = some v ∧ signature.Clashes v.parts s.2) →
        r ≠ none) := by
  let compare (s : Nat × List InferenceTypePart) : Option (Option PolyMismatch) :=
    poly_vars[s.1]?.bind fun poly_var => section_mismatch s.1 poly_var.parts s.2
  have hstep : ∀ s ∈ ss, ∃ r, compare (numbered s) = some r ∧
      (∀ m, r = some m → m.poly_idx < poly_vars.length) ∧
      ((∃ v, poly_vars[s.1.marker_idx]? = some v ∧ signature.Clashes v.parts s.2) → r ≠ none) := by
    intro s hs
    have hsv := List.getElem?_eq_getElem (ha.bound s hs)
    obtain ⟨hf, _⟩ := ha.sections.forest s hs
    obtain ⟨r, hr, hidx, hclash⟩ :=
      section_mismatch_spec s.1.marker_idx (hv _ (List.mem_of_getElem? hsv)) hf
    refine ⟨r, ?_, fun m hm => hidx m hm ▸ ha.bound s hs, ?_⟩
    · simpa only [compare, numbered, hsv, Option.bind_some] using hr
    · rintro ⟨v, hv, hc⟩
      exact hclash (Option.some.inj (hsv.symm.trans hv) ▸ hc)
  have hiter : has_explicit_poly_mismatch poly_vars a = (ss.map numbered).findSomeM? compare := by
    rw [has_explicit_poly_mismatch, marker_iter_eq ha.sections]
    rfl
  rw [hiter]
  have htotal : ∀ s ∈ ss.map numbered, ∃ r, compare s = some r :=
    List.forall_mem_map.mpr fun s hs => (hstep s hs).imp fun _ => And.left
  match List.findSomeM?_cases htotal with
  | .inl ⟨hl, hnone⟩ =>
    refine ⟨none, hl, nofun, ?_⟩
    rintro ⟨s, hs, hv⟩
    obtain ⟨r, hr, _, hclash⟩ := hstep s hs
    have hs' := List.forall_mem_map.mp hnone s hs
    exact absurd (Option.some.inj (hr.symm.trans hs')) (hclash hv)
  | .inr ⟨m, hm, b, hb, hl⟩ =>
    obtain ⟨s, hs, hsm⟩ := List.mem_map.mp hm
    subst hsm
    obtain ⟨r, hr, hbound, _⟩ := hstep s hs
    refine ⟨some b, hl, fun m hm => ?_, fun _ => nofun⟩
    exact hbound m ((Option.some.inj (hr.symm.trans hb)).trans hm)

-- The polymorphic variables are those of the definition, and the markers stand for these.
structure ExtraData.Typed (heap : Heap) (d : ExtraData) : Prop where
  named     : ∃ definition, heap.definitions[d.definition_id]? = some definition ∧
    definition.poly_vars.length = d.poly_vars.length
  poly_vars : ∀ v ∈ d.poly_vars, signature.Forest 1 v.parts
  marked    : ∀ idx t, d.signature_type idx = some t → ∃ ss, Marked d.poly_vars.length t ss

namespace ExtraData.Typed

theorem construct_main_error_spec (h : d.Typed heap) (expr : PolymorphicExpression) {i : Nat}
    (hi : i < d.poly_vars.length) : ∃ main, construct_main_error heap expr d i = some main := by
  obtain ⟨definition, hd, hlen⟩ := h.named
  rw [construct_main_error, hd, Option.bind_eq_bind, Option.bind_some,
    List.getElem?_eq_getElem (hlen ▸ hi)]
  exact ⟨_, rfl⟩

theorem mismatch_error_spec (h : d.Typed heap) (expr : PolymorphicExpression)
    {mismatch : Option (Option PolyMismatch)} {r : Option PolyMismatch} (hr : mismatch = some r)
    (hb : ∀ m, r = some m → m.poly_idx < d.poly_vars.length)
    (infos : String → String → List String) :
    ∃ error, mismatch_error heap expr d mismatch infos = some error ∧ (r ≠ none → error ≠ none) := by
  subst hr
  cases r with
  | none => exact ⟨none, rfl, fun h => absurd rfl h⟩
  | some m =>
    obtain ⟨main, hmain⟩ := h.construct_main_error_spec expr (hb m rfl)
    simp only [mismatch_error, hmain, Option.bind_eq_bind, Option.bind_some]
    exact ⟨_, rfl, fun _ h => nomatch h⟩

-- None of the checks panics.
theorem poly_arg_checks_spec (h : d.Typed heap) (expr : PolymorphicExpression) :
    ∀ check ∈ poly_arg_checks heap expr d, ∃ error, check = some error := by
  have hpair {a b : InferenceType} (ha : ∃ ss, Marked d.poly_vars.length a ss)
      (hb : ∃ ss, Marked d.poly_vars.length b ss) (infos : String → String → List String) :
      ∃ error, mismatch_error heap expr d (has_poly_mismatch a b) infos = some error := by
    obtain ⟨_, ha⟩ := ha
    obtain ⟨_, hb⟩ := hb
    obtain ⟨_, hr, hidx⟩ := has_poly_mismatch_spec ha hb
    exact (h.mismatch_error_spec expr hr hidx infos).imp fun _ => And.left
  have hexplicit {a : InferenceType} (ha : ∃ ss, Marked d.poly_vars.length a ss)
      (infos : String → String → List String) : ∃ error,
      mismatch_error heap expr d (has_explicit_poly_mismatch d.poly_vars a) infos = some error := by
    obtain ⟨_, ha⟩ := ha
    obtain ⟨_, hr, hidx, _⟩ := has_explicit_poly_mismatch_spec h.poly_vars ha
    exact (h.mismatch_error_spec expr hr hidx infos).imp fun _ => And.left
  have hreturned := h.marked .returned d.returned rfl
  have hembedded : ∀ a ∈ d.embedded, ∃ ss, Marked d.poly_vars.length a ss := by
    intro a ha
    obtain ⟨i, hi⟩ := List.mem_iff_getElem?.mp ha
    exact h.marked (.embedded i) a hi
  have hindexed {as : List InferenceType} (has : ∀ a ∈ as, a ∈ d.embedded) :
      ∀ a ∈ as.zipIdx, ∃ ss, Marked d.poly_vars.length a.1 ss :=
    fun a ha => hembedded a.1 (has a.1 (List.fst_mem_of_mem_zipIdx ha))
  intro check hc
  simp only [poly_arg_checks, List.mem_append, List.mem_singleton, List.mem_flatMap,
    List.mem_map] at hc
  obtain ((hc | ⟨a, ha, ⟨b, hb, hc⟩ | hc⟩) | ⟨a, ha, hc⟩) | hc := hc
  · exact hc ▸ hpair hreturned hreturned _
  · have hb := hindexed (fun _ => List.mem_of_mem_take) b hb
    exact hc ▸ hpair (hindexed (fun _ => id) a ha) hb _
  · exact hc ▸ hpair (hindexed (fun _ => id) a ha) hreturned _
  · exact hc ▸ hexplicit (hembedded a ha) _
  · exact hc ▸ hexplicit hreturned _

-- A section of the signature that clashes with its variable leads to an error for the programmer.
theorem construct_poly_arg_error_spec (h : d.Typed heap) (expr : PolymorphicExpression)
    (ht : d.signature_type idx = some t) (hm : Marked d.poly_vars.length t ss)
    (hc : ∃ s ∈ ss, ∃ v, d.poly_vars[s.1.marker_idx]? = some v ∧ signature.Clashes v.parts s.2) :
    ∃ error, construct_poly_arg_error heap expr d = .parse_error error := by
  obtain ⟨r, hr, hidx, hne⟩ := has_explicit_poly_mismatch_spec h.poly_vars hm
  have herror (infos : String → String → List String) :
      mismatch_error heap expr d (has_explicit_poly_mismatch d.poly_vars t) infos ≠ some none := by
    obtain ⟨_, he, herror⟩ := h.mismatch_error_spec expr hr hidx infos
    exact fun hnone => herror (hne hc) (Option.some.inj (he.symm.trans hnone))
  match List.findSomeM?_cases (f := id) (h.poly_arg_checks_spec expr) with
  | .inr ⟨_, _, error, _, hfound⟩ =>
    rw [construct_poly_arg_error, hfound]
    exact ⟨error, rfl⟩
  | .inl ⟨_, hnone⟩ =>
    exfalso
    cases idx with
    | embedded i =>
      have hnone := hnone _ (List.mem_append_left _ (List.mem_append_right _
        (List.mem_map.mpr ⟨t, List.mem_of_getElem? ht, rfl⟩)))
      exact herror _ hnone
    | returned =>
      cases ht
      have hnone := hnone _ (List.mem_append_right _ (List.mem_singleton.mpr rfl))
      exact herror _ hnone

end ExtraData.Typed

end Reowolf.Types
