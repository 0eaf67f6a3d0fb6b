import Reowolf.Types.LoopDetection
import Reowolf.Library.Machine

namespace Reowolf.Types

-- A member, a variant, a monomorph and a type without what the type table fills in after it has added a
-- monomorph: the marks of the variants that live on the heap and the memory layout.
def MonomorphMember.erased (member : MonomorphMember) : MonomorphMember :=
  { member with size := 0, alignment := 0, offset := 0 }

def UnionMonomorphVariant.erased (variant : UnionMonomorphVariant) : UnionMonomorphVariant :=
  ⟨false, variant.embedded.map MonomorphMember.erased⟩

def UnionMonomorph.erased (monomorph : UnionMonomorph) : UnionMonomorph :=
  ⟨monomorph.concrete_type, monomorph.variants.map UnionMonomorphVariant.erased, 0, 0, 0, 0⟩

def StructMonomorph.erased (monomorph : StructMonomorph) : StructMonomorph :=
  ⟨monomorph.concrete_type, monomorph.fields.map MonomorphMember.erased, 0, 0⟩

@[simp] theorem map_concrete_type_erased (members : List MonomorphMember) :
    (members.map MonomorphMember.erased).map MonomorphMember.concrete_type =
      members.map MonomorphMember.concrete_type := by
  rw [List.map_map]
  rfl

namespace DefinedType

def erased (type : DefinedType) : DefinedType :=
  match type.definition with
  | .union definition =>
    { type with
      definition := .union { definition with
        monomorphs := definition.monomorphs.map UnionMonomorph.erased } }
  | .struct definition =>
    { type with
      definition := .struct { definition with
        monomorphs := definition.monomorphs.map StructMonomorph.erased } }
  | _ => type

-- The type as it is before there are any monomorphs of it.
def base (type : DefinedType) : DefinedType :=
  match type.definition with
  | .enum definition => { type with definition := .enum { definition with monomorphs := [] } }
  | .union definition => { type with definition := .union { definition with monomorphs := [] } }
  | .struct definition => { type with definition := .struct { definition with monomorphs := [] } }
  | .function definition => { type with definition := .function { definition with monomorphs := [] } }
  | .component definition => { type with definition := .component { definition with monomorphs := [] } }

variable (type : DefinedType)

@[simp] theorem erased_poly_vars : type.erased.poly_vars = type.poly_vars := by
  obtain ⟨_, _, definition, _, _⟩ := type
  cases definition <;> rfl

@[simp] theorem erased_is_data_type : type.erased.is_data_type = type.is_data_type := by
  obtain ⟨_, _, definition, _, _⟩ := type
  cases definition <;> rfl

@[simp] theorem erased_is_union : type.erased.is_union = type.is_union := by
  obtain ⟨_, _, definition, _, _⟩ := type
  cases definition <;> rfl

@[simp] theorem erased_num_monomorphs : type.erased.num_monomorphs = type.num_monomorphs := by
  obtain ⟨_, _, definition, _, _⟩ := type
  cases definition with
  | union | struct => exact List.length_map ..
  | _              => rfl

@[simp] theorem erased_base : type.erased.base = type.base := by
  obtain ⟨_, _, definition, _, _⟩ := type
  cases definition <;> rfl

@[simp] theorem base_poly_vars : type.base.poly_vars = type.poly_vars := by
  obtain ⟨_, _, definition, _, _⟩ := type
  cases definition <;> rfl

@[simp] theorem base_is_data_type : type.base.is_data_type = type.is_data_type := by
  obtain ⟨_, _, definition, _, _⟩ := type
  cases definition <;> rfl

@[simp] theorem base_is_union : type.base.is_union = type.is_union := by
  obtain ⟨_, _, definition, _, _⟩ := type
  cases definition <;> rfl

theorem concrete_types_match_congr {type type' : DefinedType} (h : type.poly_vars = type'.poly_vars) :
    type.concrete_types_match = type'.concrete_types_match := by
  funext type_a type_b check
  simp only [concrete_types_match, is_var_used, h]

@[simp] theorem get_monomorph_index_erased (concrete_type : ConcreteType) :
    type.erased.get_monomorph_index concrete_type = type.get_monomorph_index concrete_type := by
  have hmatch := concrete_types_match_congr type.erased_poly_vars
  unfold erased at hmatch ⊢
  split
  case h_1 definition hd =>
    simp only [hd] at hmatch
    simp only [get_monomorph_index, hd, List.findIdx?_map, hmatch]
    rfl
  case h_2 definition hd =>
    simp only [hd] at hmatch
    simp only [get_monomorph_index, hd, List.findIdx?_map, hmatch]
    rfl
  case h_3 => rfl

end DefinedType

-- What is left of the embedded types of some variants, from a position on.
def remaining_embedded (next_member next_embedded : Nat) (variants : List UnionMonomorphVariant) :
    List MonomorphMember :=
  match variants.drop next_member with
  | [] => []
  | variant :: variants =>
    variant.embedded.drop next_embedded ++ variants.flatMap UnionMonomorphVariant.embedded

theorem remaining_embedded_erased (next_member next_embedded : Nat)
    (variants : List UnionMonomorphVariant) :
    remaining_embedded next_member next_embedded (variants.map UnionMonomorphVariant.erased) =
      (remaining_embedded next_member next_embedded variants).map MonomorphMember.erased := by
  unfold remaining_embedded
  rw [← List.map_drop]
  cases variants.drop next_member with
  | nil                   => rfl
  | cons variant variants => simp [List.flatMap_map, List.map_flatMap, UnionMonomorphVariant.erased]

theorem remaining_embedded_drop (variants : List UnionMonomorphVariant) (m k next_embedded : Nat) :
    remaining_embedded k next_embedded (variants.drop m) =
      remaining_embedded (m + k) next_embedded variants := by
  simp only [remaining_embedded, List.drop_drop]

theorem remaining_embedded_zero (variants : List UnionMonomorphVariant) :
    remaining_embedded 0 0 variants = variants.flatMap UnionMonomorphVariant.embedded := by
  cases variants <;> rfl

-- To advance the embedded type is to leave at most one of them behind.
theorem length_remaining_embedded_succ_le (next_member next_embedded : Nat)
    (variants : List UnionMonomorphVariant) :
    (remaining_embedded next_member (next_embedded + 1) variants).length ≤
      (remaining_embedded next_member next_embedded variants).length := by
  unfold remaining_embedded
  cases variants.drop next_member with
  | nil => simp
  | cons variant variants =>
    simp only [List.length_append, List.length_drop]
    omega

theorem remaining_embedded_succ {variants : List UnionMonomorphVariant} {k e : Nat}
    {variant : UnionMonomorphVariant} (hv : variants[k]? = some variant)
    (he : e < variant.embedded.length) :
    remaining_embedded k (e + 1) variants = (remaining_embedded k e variants).tail := by
  obtain ⟨hk, hget⟩ := List.getElem?_eq_some_iff.mp hv
  simp only [remaining_embedded, List.drop_eq_getElem_cons hk, hget]
  rw [List.drop_eq_getElem_cons he, List.cons_append, List.tail_cons]

namespace DefinedType

-- The members of a monomorph that come from the position of a breadcrumb on.
def remaining (type : DefinedType) (breadcrumb : TypeLoopBreadcrumb) : List MonomorphMember :=
  match type.definition with
  | .union definition =>
    match definition.monomorphs[breadcrumb.monomorph_idx]? with
    | some monomorph =>
      remaining_embedded breadcrumb.next_member breadcrumb.next_embedded monomorph.variants
    | none => []
  | .struct definition =>
    match definition.monomorphs[breadcrumb.monomorph_idx]? with
    | some monomorph => monomorph.fields.drop breadcrumb.next_member
    | none => []
  | _ => []

theorem remaining_erased (type : DefinedType) (breadcrumb : TypeLoopBreadcrumb) :
    type.erased.remaining breadcrumb = (type.remaining breadcrumb).map MonomorphMember.erased := by
  unfold erased
  split
  case h_1 definition hd =>
    simp only [remaining, hd, List.getElem?_map]
    cases definition.monomorphs[breadcrumb.monomorph_idx]? with
    | none           => rfl
    | some monomorph => exact remaining_embedded_erased _ _ _
  case h_2 definition hd =>
    simp only [remaining, hd, List.getElem?_map]
    cases definition.monomorphs[breadcrumb.monomorph_idx]? with
    | none           => rfl
    | some monomorph => exact List.map_drop.symm
  case h_3 =>
    unfold remaining
    split <;> simp_all

end DefinedType

def remaining_members (lookup : List DefinedType) (breadcrumb : TypeLoopBreadcrumb) :
    List ConcreteType :=
  match lookup[breadcrumb.definition_id]? with
  | some type => (type.remaining breadcrumb).map MonomorphMember.concrete_type
  | none => []

-- Why the members of a type get no further than to these: none is left, or the first one of them does
-- not exist yet.
def TypeTable.StopsAt (table : TypeTable) (result : TypeLoopResult) : List ConcreteType → Prop
  | [] => result = .typeExists
  | member :: _ => result ≠ .typeExists ∧ table.check_member_for_type_loops member = .ok result

-- How far some members get: those in front of the rest exist.
structure Scanned (table : TypeTable) (members rest : List ConcreteType) (result : TypeLoopResult) :
    Prop where
  front : ∃ front, members = front ++ rest ∧
    ∀ member ∈ front, table.check_member_for_type_loops member = .ok .typeExists
  stop  : table.StopsAt result rest

namespace Scanned

variable {table : TypeTable} {members rest : List ConcreteType} {result : TypeLoopResult}

theorem refl (h : table.StopsAt result members) : Scanned table members members result :=
  ⟨⟨[], rfl, by simp⟩, h⟩

theorem append {b : List ConcreteType} (h : Scanned table members rest result)
    (hb : ∀ member ∈ b, table.check_member_for_type_loops member = .ok .typeExists) :
    Scanned table (b ++ members) rest result := by
  obtain ⟨front, hf, hall⟩ := h.front
  refine ⟨⟨b ++ front, by simp [hf], fun member hm => ?_⟩, h.stop⟩
  cases List.mem_append.mp hm with
  | inl hm => exact hb member hm
  | inr hm => exact hall member hm

theorem rest_eq_nil (h : Scanned table members rest .typeExists) : rest = [] := by
  have hstop := h.stop
  cases rest with
  | nil      => rfl
  | cons _ _ => exact absurd rfl hstop.left

theorem all_exist (h : Scanned table members rest .typeExists) :
    ∀ member ∈ members, table.check_member_for_type_loops member = .ok .typeExists := by
  obtain ⟨front, hf, hall⟩ := h.front
  cases h.rest_eq_nil
  simpa [hf] using hall

theorem length_le (h : Scanned table members rest result) : rest.length ≤ members.length := by
  obtain ⟨front, hf, _⟩ := h.front
  simp [hf]

theorem exists_cons (h : Scanned table members rest result) (hr : result ≠ .typeExists) :
    ∃ member rest', rest = member :: rest' ∧
      table.check_member_for_type_loops member = .ok result := by
  have hstop := h.stop
  cases rest with
  | nil              => exact absurd hstop hr
  | cons member rest => exact ⟨member, rest, rfl, hstop.right⟩

end Scanned

namespace TypeTable

variable {table : TypeTable}

theorem check_members_scanned {members : List MonomorphMember} {n n' : Nat} {result : TypeLoopResult}
    (h : table.check_members n members = .ok (n', result)) :
    ∃ k, n' = n + k ∧ Scanned table (members.map MonomorphMember.concrete_type)
      ((members.drop k).map MonomorphMember.concrete_type) result := by
  induction members generalizing n with
  | nil =>
    cases h
    exact ⟨0, rfl, .refl rfl⟩
  | cons member members ih =>
    simp only [check_members] at h
    obtain ⟨r, hr, h⟩ := Except.bind_eq_ok.mp h
    cases r with
    | typeExists =>
      obtain ⟨k, hk, hs⟩ := ih h
      exact ⟨k + 1, by omega, hs.append (b := [member.concrete_type]) (by simpa using hr)⟩
    | pushBreadcrumb definition_id concrete_type =>
      cases h
      exact ⟨0, rfl, .refl ⟨by simp, hr⟩⟩
    | typeLoop first_idx =>
      cases h
      exact ⟨0, rfl, .refl ⟨by simp, hr⟩⟩

-- A scan of variants stops in the midst of the embedded types of a variant, if it does not get through
-- all of them.
theorem check_variants_scanned {variants : List UnionMonomorphVariant} {n n' e e' : Nat}
    {result : TypeLoopResult} (h : table.check_variants n e variants = .ok (n', e', result)) :
    ∃ k, n' = n + k ∧
      Scanned table ((remaining_embedded 0 e variants).map MonomorphMember.concrete_type)
        ((remaining_embedded k e' variants).map MonomorphMember.concrete_type) result ∧
      (result ≠ .typeExists → ∃ variant, variants[k]? = some variant ∧ e' < variant.embedded.length) := by
  induction variants generalizing n e with
  | nil =>
    cases h
    exact ⟨0, rfl, .refl rfl, fun hr => absurd rfl hr⟩
  | cons variant variants ih =>
    simp only [check_variants] at h
    obtain ⟨⟨e₁, r⟩, hr, h⟩ := Except.bind_eq_ok.mp h
    obtain ⟨j, hj, hs⟩ := check_members_scanned hr
    have hstopped (hne : r ≠ .typeExists) :
        Scanned table ((remaining_embedded 0 e (variant :: variants)).map MonomorphMember.concrete_type)
          ((remaining_embedded 0 e₁ (variant :: variants)).map MonomorphMember.concrete_type) r ∧
            e₁ < variant.embedded.length := by
      obtain ⟨front, hf, hall⟩ := hs.front
      obtain ⟨member, rest, hrest, hc⟩ := hs.exists_cons hne
      rw [List.drop_drop, ← hj] at hf hrest
      refine ⟨⟨⟨front, ?_, hall⟩, ?_⟩, ?_⟩
      · simp [remaining_embedded, hf]
      · simp only [remaining_embedded, List.drop_zero, List.map_append, hrest]
        exact ⟨hne, hc⟩
      · have := congrArg List.length hrest
        simp only [List.length_map, List.length_drop, List.length_cons] at this
        omega
    cases r with
    | typeExists =>
      obtain ⟨k, hk, hs', hlt⟩ := ih h
      refine ⟨k + 1, by omega, ?_, hlt⟩
      rw [remaining_embedded_zero] at hs'
      have happ := hs'.append hs.all_exist
      rwa [← List.map_append] at happ
    | pushBreadcrumb definition_id concrete_type =>
      cases h
      obtain ⟨hs', hlt⟩ := hstopped (by simp)
      exact ⟨0, rfl, hs', fun _ => ⟨variant, rfl, hlt⟩⟩
    | typeLoop first_idx =>
      cases h
      obtain ⟨hs', hlt⟩ := hstopped (by simp)
      exact ⟨0, rfl, hs', fun _ => ⟨variant, rfl, hlt⟩⟩

end TypeTable

end Reowolf.Types
