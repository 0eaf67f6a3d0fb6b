import Reowolf.Types.Rounds

namespace Reowolf.Types

-- A builtin type, or an instance of a data type of the table.
def Resolvable (lookup : List DefinedType) : ConcreteType → Prop
  | [] => False
  | part :: _ => ∀ definition_id, part.definition_id = some definition_id →
    ∃ type, lookup[definition_id]? = some type ∧ type.is_data_type

namespace DefinedType

def member_types (type : DefinedType) : List ParserType :=
  match type.definition with
  | .union definition => definition.variants.flatMap UnionVariant.embedded
  | .struct definition => definition.fields.map StructField.parser_type
  | _ => []

-- All members of a monomorph.
def members (type : DefinedType) (monomorph_idx : Nat) : List MonomorphMember :=
  type.remaining ⟨type.ast_definition, monomorph_idx, 0, 0⟩

-- A data type without polymorphic arguments.
structure Plain (lookup : List DefinedType) (type : DefinedType) : Prop where
  poly_vars : type.poly_vars = []
  members   : ∀ parser_type ∈ type.member_types, ∀ container_type,
    ∃ concrete_type, construct_concrete_type parser_type container_type = some concrete_type ∧
      Resolvable lookup concrete_type

theorem member_types_base (type : DefinedType) : type.base.member_types = type.member_types := by
  unfold base
  split <;> simp_all [member_types]

theorem remaining_embedded_subset (next_member next_embedded : Nat)
    (variants : List UnionMonomorphVariant) :
    remaining_embedded next_member next_embedded variants ⊆
      variants.flatMap UnionMonomorphVariant.embedded := by
  intro member hm
  unfold remaining_embedded at hm
  split at hm
  case h_1 => simp at hm
  case h_2 variant rest hdrop =>
    have hsub : ∀ v ∈ variant :: rest, v ∈ variants := fun v hv =>
      List.mem_of_mem_drop (hdrop ▸ hv)
    cases List.mem_append.mp hm with
    | inl hm =>
      exact List.mem_flatMap.mpr ⟨variant, hsub variant (by simp), List.mem_of_mem_drop hm⟩
    | inr hm =>
      obtain ⟨v, hv, hm⟩ := List.mem_flatMap.mp hm
      exact List.mem_flatMap.mpr ⟨v, hsub v (by simp [hv]), hm⟩

theorem remaining_subset_members {type : DefinedType} {breadcrumb : TypeLoopBreadcrumb} :
    type.remaining breadcrumb ⊆ type.members breadcrumb.monomorph_idx := by
  cases hd : type.definition with
  | union definition =>
    simp only [members, remaining, hd]
    cases definition.monomorphs[breadcrumb.monomorph_idx]? with
    | none           => simp
    | some monomorph =>
      simp only [remaining_embedded_zero]
      exact remaining_embedded_subset _ _ _
  | struct definition =>
    simp only [members, remaining, hd]
    cases definition.monomorphs[breadcrumb.monomorph_idx]? with
    | none           => simp
    | some monomorph => exact List.drop_subset _ _
  | _ => simp [remaining, hd]

-- Without polymorphic arguments there is no way to tell monomorphs apart.
theorem get_monomorph_index_of_plain {type : DefinedType} (hp : type.poly_vars = [])
    (hd : type.is_data_type) (concrete_type : ConcreteType) :
    type.get_monomorph_index concrete_type = if type.num_monomorphs = 0 then none else some 0 := by
  have hmatch (a b : ConcreteType) : type.concrete_types_match a b true = true := by
    simp [concrete_types_match, is_var_used, hp]
  cases hdef : type.definition with
  | enum definition =>
    simp only [get_monomorph_index, num_monomorphs, hdef]
    cases definition.monomorphs <;> simp
  | union definition =>
    simp only [get_monomorph_index, num_monomorphs, hdef, hmatch]
    cases h : definition.monomorphs <;> simp [List.findIdx?_cons]
  | struct definition =>
    simp only [get_monomorph_index, num_monomorphs, hdef, hmatch]
    cases h : definition.monomorphs <;> simp [List.findIdx?_cons]
  | _ => simp [is_data_type, hdef] at hd

end DefinedType

-- Two tables with the same definitions.
def SameBase (lookup lookup' : List DefinedType) : Prop :=
  lookup'.map DefinedType.base = lookup.map DefinedType.base

theorem SameTypes.sameBase {lookup lookup' : List DefinedType} (h : SameTypes lookup lookup') :
    SameBase lookup lookup' := by
  have hmap := congrArg (List.map DefinedType.base) h
  rw [List.map_map, List.map_map] at hmap
  have hcomp : DefinedType.base ∘ DefinedType.erased = DefinedType.base :=
    funext DefinedType.erased_base
  rwa [hcomp] at hmap

namespace SameBase

variable {lookup lookup' : List DefinedType}

theorem set {id : DefinitionId} {type type' : DefinedType} (ht : lookup[id]? = some type)
    (h : type'.base = type.base) : SameBase lookup (lookup.set id type') :=
  map_set_of_eq ht h

theorem exists_getElem? (h : SameBase lookup lookup') {id : DefinitionId} {type : DefinedType}
    (ht : lookup[id]? = some type) : ∃ type', lookup'[id]? = some type' ∧ type'.base = type.base := by
  have : lookup'[id]?.map DefinedType.base = lookup[id]?.map DefinedType.base := by
    simpa using congrArg (·[id]?) h
  rw [ht, Option.map_some, Option.map_eq_some_iff] at this
  exact this

theorem symm (h : SameBase lookup lookup') : SameBase lookup' lookup :=
  Eq.symm h

theorem resolvable (h : SameBase lookup lookup') {concrete_type : ConcreteType}
    (hr : Resolvable lookup concrete_type) : Resolvable lookup' concrete_type := by
  cases concrete_type with
  | nil => exact hr
  | cons part parts =>
    intro definition_id hid
    obtain ⟨type, ht, hd⟩ := hr definition_id hid
    obtain ⟨type', ht', hb⟩ := h.exists_getElem? ht
    exact ⟨type', ht', by rw [← type'.base_is_data_type, hb, type.base_is_data_type, hd]⟩

theorem plain (h : SameBase lookup lookup') {type type' : DefinedType} (hb : type'.base = type.base)
    (hp : type.Plain lookup) : type'.Plain lookup' := by
  constructor
  case poly_vars => rw [← type'.base_poly_vars, hb, type.base_poly_vars, hp.poly_vars]
  case members =>
    intro parser_type hm container_type
    rw [← type'.member_types_base, hb, type.member_types_base] at hm
    obtain ⟨concrete_type, hc, hr⟩ := hp.members parser_type hm container_type
    exact ⟨concrete_type, hc, h.resolvable hr⟩

end SameBase

-- A table whose data types have no polymorphic arguments.
structure PlainTable (lookup : List DefinedType) : Prop where
  types   : ∀ {id : DefinitionId} {type : DefinedType}, lookup[id]? = some type → type.is_data_type → type.Plain lookup
  members : ∀ {id : DefinitionId} {type : DefinedType}, lookup[id]? = some type → ∀ monomorph_idx,
    ∀ member ∈ type.members monomorph_idx, Resolvable lookup member.concrete_type

namespace PlainTable

variable {lookup lookup' : List DefinedType}

theorem sameTypes (hp : PlainTable lookup) (h : SameTypes lookup lookup') : PlainTable lookup' := by
  constructor
  case types =>
    intro id type' ht' hd
    obtain ⟨type, ht, hu⟩ := h.symm.exists_getElem? ht'
    have hb : type'.base = type.base := by rw [← type.erased_base, hu, type'.erased_base]
    have hd' : type.is_data_type = true := by
      rw [← type.erased_is_data_type, hu, type'.erased_is_data_type, hd]
    exact h.sameBase.plain hb (hp.types ht hd')
  case members =>
    intro id type' ht' monomorph_idx member hm
    obtain ⟨type, ht, hu⟩ := h.symm.exists_getElem? ht'
    have hr := congrArg (·.remaining ⟨type'.ast_definition, monomorph_idx, 0, 0⟩) hu
    simp only [DefinedType.remaining_erased] at hr
    have hmem : member.erased ∈ (type.remaining ⟨type'.ast_definition, monomorph_idx, 0, 0⟩).map
        MonomorphMember.erased := hr ▸ List.mem_map_of_mem hm
    obtain ⟨member', hm', heq⟩ := List.mem_map.mp hmem
    have hres := hp.members ht monomorph_idx member' (DefinedType.remaining_subset_members hm')
    have hct : member'.concrete_type = member.concrete_type :=
      show member'.erased.concrete_type = member.erased.concrete_type by rw [heq]
    exact h.sameBase.resolvable (hct ▸ hres)

end PlainTable

-- The members of a new monomorph are those that its definition lists.
theorem construct_concrete_types_cases {container_type : ConcreteType} {parser_types : List ParserType}
    {members : List MonomorphMember}
    (h : construct_concrete_types container_type parser_types = .ok members) :
    List.Forall₂ (fun parser_type member =>
      construct_concrete_type parser_type container_type = some member.concrete_type)
      parser_types members := by
  induction parser_types generalizing members with
  | nil =>
    cases h
    exact .nil
  | cons parser_type parser_types ih =>
    unfold construct_concrete_types at h
    split at h
    case h_1 => cases h
    case h_2 concrete_type hc =>
      obtain ⟨members, hm, h⟩ := Except.bind_eq_ok.mp h
      cases h
      exact .cons hc (ih hm)

theorem construct_mono_variants_cases {container_type : ConcreteType} {variants : List UnionVariant}
    {mono_variants : List UnionMonomorphVariant}
    (h : construct_mono_variants container_type variants = .ok mono_variants) :
    List.Forall₂ (fun variant mono_variant => mono_variant.lives_on_heap = false ∧
      construct_concrete_types container_type variant.embedded = .ok mono_variant.embedded)
      variants mono_variants := by
  induction variants generalizing mono_variants with
  | nil =>
    cases h
    exact .nil
  | cons variant variants ih =>
    obtain ⟨embedded, he, h⟩ := Except.bind_eq_ok.mp h
    obtain ⟨mono_variants, hm, h⟩ := Except.bind_eq_ok.mp h
    cases h
    exact .cons ⟨rfl, he⟩ (ih hm)

theorem exists_construct_concrete_types {container_type : ConcreteType} {parser_types : List ParserType}
    (h : ∀ parser_type ∈ parser_types,
      ∃ concrete_type, construct_concrete_type parser_type container_type = some concrete_type) :
    ∃ members, construct_concrete_types container_type parser_types = .ok members := by
  induction parser_types with
  | nil => exact ⟨_, rfl⟩
  | cons parser_type parser_types ih =>
    obtain ⟨concrete_type, hc⟩ := h parser_type (by simp)
    obtain ⟨members, hm⟩ := ih fun p hp => h p (List.mem_cons_of_mem _ hp)
    simp [construct_concrete_types, hc, hm, bind, Except.bind]

theorem exists_construct_mono_variants {container_type : ConcreteType} {variants : List UnionVariant}
    (h : ∀ parser_type ∈ variants.flatMap UnionVariant.embedded,
      ∃ concrete_type, construct_concrete_type parser_type container_type = some concrete_type) :
    ∃ mono_variants, construct_mono_variants container_type variants = .ok mono_variants := by
  induction variants with
  | nil => exact ⟨_, rfl⟩
  | cons variant variants ih =>
    obtain ⟨embedded, he⟩ : ∃ embedded,
        construct_concrete_types container_type variant.embedded = .ok embedded :=
      exists_construct_concrete_types fun p hp => h p (by simp [hp])
    obtain ⟨mono_variants, hm⟩ := ih fun p hp => h p (by
      rw [List.flatMap_cons]
      exact List.mem_append_right _ hp)
    simp [construct_mono_variants, he, hm, bind, Except.bind]

theorem forall₂_flatMap_embedded {container_type : ConcreteType} {variants : List UnionVariant}
    {mono_variants : List UnionMonomorphVariant}
    (h : construct_mono_variants container_type variants = .ok mono_variants) :
    List.Forall₂ (fun parser_type member =>
      construct_concrete_type parser_type container_type = some member.concrete_type)
      (variants.flatMap UnionVariant.embedded)
      (mono_variants.flatMap UnionMonomorphVariant.embedded) := by
  have hvariants := construct_mono_variants_cases h
  clear h
  induction hvariants with
  | nil => exact .nil
  | cons hv _ ih =>
    simp only [List.flatMap_cons]
    exact List.rel_append (construct_concrete_types_cases hv.right) ih

theorem getElem?_append_of_ne {α : Type*} {as : List α} {a : α} {i : Nat} (h : i ≠ as.length) :
    (as ++ [a])[i]? = as[i]? := by
  by_cases hlt : i < as.length
  case pos => exact List.getElem?_append_left hlt
  case neg =>
    rw [List.getElem?_eq_none (by simp; omega), List.getElem?_eq_none (by omega)]

namespace DefinedType

-- What a new monomorph does to a type.
structure Pushes (type : DefinedType) (concrete_type : ConcreteType) (type' : DefinedType)
    (monomorph_idx : Nat) : Prop where
  base           : type'.base = type.base
  num_monomorphs : type'.num_monomorphs = type.num_monomorphs + 1
  idx            : type.num_monomorphs = 0 → monomorph_idx = 0
  members        : List.Forall₂ (fun parser_type member =>
    construct_concrete_type parser_type concrete_type = some member.concrete_type)
    type.member_types (type'.members monomorph_idx)
  others         : ∀ idx, idx ≠ monomorph_idx → type'.members idx = type.members idx

theorem push_monomorph_cases {type type' : DefinedType} {concrete_type : ConcreteType}
    {monomorph_idx : Nat} (h : type.push_monomorph concrete_type = .ok (type', monomorph_idx)) :
    type.Pushes concrete_type type' monomorph_idx := by
  unfold push_monomorph at h
  split at h
  case h_1 definition hd =>
    cases h
    constructor
    case base => simp [base, hd]
    case num_monomorphs => simp [num_monomorphs, hd]
    case idx => simp [num_monomorphs, hd]
    case members => simp [member_types, members, remaining, hd]
    case others => simp [members, remaining, hd]
  case h_2 definition hd =>
    obtain ⟨variants, hv, h⟩ := Except.bind_eq_ok.mp h
    cases h
    constructor
    case base => simp [base, hd]
    case num_monomorphs => simp [num_monomorphs, hd]
    case idx => simp [num_monomorphs, hd]
    case members =>
      simpa [member_types, members, remaining, hd, remaining_embedded_zero]
        using forall₂_flatMap_embedded hv
    case others =>
      intro idx hne
      simp only [members, remaining, hd]
      rw [getElem?_append_of_ne hne]
  case h_3 definition hd =>
    obtain ⟨fields, hf, h⟩ := Except.bind_eq_ok.mp h
    cases h
    constructor
    case base => simp [base, hd]
    case num_monomorphs => simp [num_monomorphs, hd]
    case idx => simp [num_monomorphs, hd]
    case members =>
      simpa [member_types, members, remaining, hd] using construct_concrete_types_cases hf
    case others =>
      intro idx hne
      simp only [members, remaining, hd]
      rw [getElem?_append_of_ne hne]
  case h_4 => cases h
  case h_5 => cases h

end DefinedType

end Reowolf.Types
