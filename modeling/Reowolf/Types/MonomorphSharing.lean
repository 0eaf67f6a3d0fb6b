import Reowolf.Library.Interning
import Reowolf.Types.DetectionStops
import Reowolf.Types.TypeSubstitution

namespace Reowolf.Types

open PrefixTerms (Term)
open Reowolf.Parser (ParserTypeVariant SymbolTable)

def Heap.num_poly_vars (heap : Heap) (definition_id : DefinitionId) : Nat :=
  (heap.definitions[definition_id]?.map fun definition => definition.poly_vars.length).getD 0

-- A type of values, whose definitions have as many arguments as they have polymorphic variables.
structure ConcreteType.Fits (heap : Heap) (concrete_type : ConcreteType) : Prop where
  tree      : Forest 1 concrete_type
  instances : ∀ part ∈ concrete_type, ∀ definition_id, part.definition_id = some definition_id →
    part = .«instance» definition_id (heap.num_poly_vars definition_id)

structure ConcreteType.InstanceOf (heap : Heap) (definition_id : DefinitionId)
    (concrete_type : ConcreteType) : Prop extends concrete_type.Fits heap where
  root : concrete_type.head?.bind ConcreteTypePart.definition_id = some definition_id

-- The types of members as the parser makes them: they are complete, their definitions have all of
-- their arguments, and the polymorphic variables are those of the definition around them.
structure Heap.Parsed (heap : Heap) : Prop where
  trees       : ∀ definition ∈ heap.definitions, ∀ parser_type ∈ definition.member_types,
    PrefixTerms.Forest ParserTypeVariant.num_embedded 1 parser_type
  definitions : ∀ definition ∈ heap.definitions, ∀ parser_type ∈ definition.member_types,
    ∀ definition_id num, .definition definition_id num ∈ parser_type →
      num = heap.num_poly_vars definition_id
  poly_vars   : ∀ definition ∈ heap.definitions, ∀ parser_type ∈ definition.member_types,
    ∀ definition_id idx, .polymorphicArgument definition_id idx ∈ parser_type →
      idx < definition.poly_vars.length

theorem length_embedded_iter {c : ConcreteType} (h : ConcreteType.Forest 1 c) :
    c.embedded_iter.length = (c.head?.map ConcreteTypePart.num_embedded).getD 0 := by
  obtain ⟨t, hf, hp⟩ := h.exists_term
  subst hp
  rw [embedded_iter_parts hf, List.length_map]
  cases hf with
  | node hlen _ =>
    rw [Term.parts_node]
    exact hlen

namespace ConcreteType.InstanceOf

variable {heap : Heap} {definition_id : DefinitionId} {c : ConcreteType}

theorem exists_part (h : InstanceOf heap definition_id c) :
    ∃ parts, c = .«instance» definition_id (heap.num_poly_vars definition_id) :: parts := by
  cases c with
  | nil => exact absurd h.root nofun
  | cons part parts => exact ⟨parts, congrArg (· :: parts) (h.instances part (.head _) _ h.root)⟩

theorem length_embedded_iter (h : InstanceOf heap definition_id c) :
    c.embedded_iter.length = heap.num_poly_vars definition_id := by
  obtain ⟨parts, hc⟩ := h.exists_part
  subst hc
  rw [Types.length_embedded_iter h.tree]
  rfl

end ConcreteType.InstanceOf

namespace DefinedType

-- Types that have the same arguments for all polymorphic variables that are in use.
def Agree (type : DefinedType) (a b : ConcreteType) : Prop :=
  ∀ idx, type.is_var_used idx → a.embedded_iter[idx]? = b.embedded_iter[idx]?

theorem agree_equivalence (type : DefinedType) : Equivalence type.Agree where
  refl _ _ _ := rfl
  symm h idx hidx := (h idx hidx).symm
  trans h h' idx hidx := (h idx hidx).trans (h' idx hidx)

-- The monomorphs of a data type.
def monomorph_types (type : DefinedType) : List ConcreteType :=
  match type.definition with
  | .enum definition => definition.monomorphs.map EnumMonomorph.concrete_type
  | .union definition => definition.monomorphs.map UnionMonomorph.concrete_type
  | .struct definition => definition.monomorphs.map StructMonomorph.concrete_type
  | .function _ | .component _ => []

theorem concrete_types_match_iff {type : DefinedType} {a b : ConcreteType}
    (h : a.embedded_iter.length = b.embedded_iter.length) :
    type.concrete_types_match a b true = true ↔ type.Agree a b := by
  rw [concrete_types_match, List.all_eq_true]
  constructor
  case mp =>
    intro hall idx hu
    by_cases hlt : idx < a.embedded_iter.length
    case pos =>
      have hlt' : idx < b.embedded_iter.length := h ▸ hlt
      have hmem : ((a.embedded_iter[idx], b.embedded_iter[idx]), idx) ∈
          (a.embedded_iter.zip b.embedded_iter).zipIdx := by
        rw [List.mem_zipIdx_iff_getElem?]
        simp [hlt, hlt']
      have hc := hall _ hmem
      simp only [hu, Bool.not_true, Bool.and_false, Bool.false_or, decide_eq_true_eq] at hc
      rw [List.getElem?_eq_getElem hlt, List.getElem?_eq_getElem hlt', hc]
    case neg =>
      have hle := Nat.le_of_not_lt hlt
      rw [List.getElem?_eq_none hle, List.getElem?_eq_none (h ▸ hle)]
  case mpr =>
    rintro hall ⟨⟨x, y⟩, idx⟩ hmem
    rw [List.mem_zipIdx_iff_getElem?] at hmem
    obtain ⟨hx, hy⟩ := List.getElem?_zip_eq_some.mp hmem
    by_cases hu : type.is_var_used idx = true
    case pos =>
      have hxy : x = y := Option.some.inj (hx.symm.trans ((hall idx hu).trans hy))
      simp [hxy]
    case neg => simp [hu]

-- What the type table relies on in a data type: the variables in use are those that occur in the types
-- of the members, and these are complete types.
structure Sound (heap : Heap) (definition_id : DefinitionId) (type : DefinedType) : Prop where
  poly_vars : type.poly_vars.length = heap.num_poly_vars definition_id
  used_iff  : ∀ idx, type.is_var_used idx ↔
    ∃ parser_type ∈ type.member_types, ∃ id, .polymorphicArgument id idx ∈ parser_type
  trees     : ∀ parser_type ∈ type.member_types,
    PrefixTerms.Forest ParserTypeVariant.num_embedded 1 parser_type
  parts     : ∀ parser_type ∈ type.member_types, ∀ part ∈ parser_type,
    CanBeMember (heap.num_poly_vars definition_id) part
  instances : ∀ parser_type ∈ type.member_types, ∀ id num, .definition id num ∈ parser_type →
    num = heap.num_poly_vars id

-- The monomorphs of a data type: there are not two that agree, and their members are those that the
-- definition lists, with the arguments in place of the polymorphic variables.
structure Shares (heap : Heap) (definition_id : DefinitionId) (type : DefinedType) : Prop where
  instances : ∀ concrete_type ∈ type.monomorph_types, concrete_type.InstanceOf heap definition_id
  distinct  : Interning.Distinct type.Agree type.monomorph_types
  members   : ∀ idx concrete_type, type.monomorph_types[idx]? = some concrete_type →
    type.member_types.map (construct_concrete_type · concrete_type) =
      (type.members idx).map (some ·.concrete_type)

variable {heap : Heap} {definition_id : DefinitionId} {type type' : DefinedType} {t : ConcreteType}
  {idx : Nat}

-- An enum uses none of its polymorphic variables, so that all of its types match.
theorem get_monomorph_index_eq_findIdx? (hd : type.is_data_type) (hs : type.Sound heap definition_id) :
    type.get_monomorph_index t =
      type.monomorph_types.findIdx? (type.concrete_types_match · t true) := by
  cases hdef : type.definition with
  | enum definition =>
    have hunused : ∀ idx, type.is_var_used idx = false := by
      intro idx
      by_contra hu
      rw [Bool.not_eq_false] at hu
      obtain ⟨parser_type, hm, _⟩ := (hs.used_iff idx).mp hu
      simp [member_types, hdef] at hm
    have hmatch : ∀ c, type.concrete_types_match c t true = true := by simp [concrete_types_match, hunused]
    simp only [get_monomorph_index, monomorph_types, hdef, hmatch]
    cases definition.monomorphs <;> simp [List.findIdx?_cons]
  | union definition =>
    simp only [get_monomorph_index, monomorph_types, hdef, List.findIdx?_map]
    rfl
  | struct definition =>
    simp only [get_monomorph_index, monomorph_types, hdef, List.findIdx?_map]
    rfl
  | _ => simp [is_data_type, hdef] at hd

theorem Shares.match_iff (h : type.Shares heap definition_id) (ht : t.InstanceOf heap definition_id) :
    ∀ c ∈ type.monomorph_types, type.concrete_types_match c t true = true ↔ type.Agree c t :=
  fun c hc => concrete_types_match_iff
    ((h.instances c hc).length_embedded_iter.trans ht.length_embedded_iter.symm)

theorem get_monomorph_index_eq_some_iff (hd : type.is_data_type) (hs : type.Sound heap definition_id)
    (h : type.Shares heap definition_id) (ht : t.InstanceOf heap definition_id) :
    type.get_monomorph_index t = some idx ↔
      ∃ c, type.monomorph_types[idx]? = some c ∧ type.Agree c t := by
  rw [get_monomorph_index_eq_findIdx? hd hs]
  exact h.distinct.findIdx?_eq_some_iff type.agree_equivalence (h.match_iff ht)

theorem not_agree_of_get_monomorph_index (hd : type.is_data_type) (hs : type.Sound heap definition_id)
    (h : type.Shares heap definition_id) (ht : t.InstanceOf heap definition_id)
    (hnone : type.get_monomorph_index t = none) : ∀ c ∈ type.monomorph_types, ¬type.Agree c t := by
  rw [get_monomorph_index_eq_findIdx? hd hs] at hnone
  exact Interning.not_of_findIdx?_eq_none (h.match_iff ht) hnone

-- Types that agree give the members the same types.
theorem Agree.construct_eq {a b : ConcreteType} (h : type.Agree a b)
    (hs : type.Sound heap definition_id) (parser_type : ParserType) (hm : parser_type ∈ type.member_types) :
    construct_concrete_type parser_type a = construct_concrete_type parser_type b := by
  have hused : ∀ id idx, .polymorphicArgument id idx ∈ parser_type →
      a.embedded_iter[idx]? = b.embedded_iter[idx]? :=
    fun id idx hp => h idx ((hs.used_iff idx).mpr ⟨parser_type, hm, id, hp⟩)
  clear hm
  induction parser_type with
  | nil => rfl
  | cons part parser_type ih =>
    have hrest := ih fun id idx hp => hused id idx (.tail _ hp)
    cases part with
    | polymorphicArgument id idx =>
      simp only [construct_concrete_type, parser_to_concrete_part, hrest, hused id idx (.head _)]
    | _ => simp only [construct_concrete_type, parser_to_concrete_part, hrest]

end DefinedType

-- The type of a member is complete if its own type and the container are.
theorem ConcreteType.Fits.construct {heap : Heap} {definition_id : DefinitionId} {type : DefinedType}
    {container_type c : ConcreteType} {parser_type : ParserType}
    (hs : type.Sound heap definition_id) (hm : parser_type ∈ type.member_types)
    (hc : container_type.Fits heap)
    (h : construct_concrete_type parser_type container_type = some c) : c.Fits heap := by
  obtain ⟨container, hcf, hcp⟩ := hc.tree.exists_term
  obtain ⟨member, hmf, hmp⟩ := (hs.trees parser_type hm).exists_term
  subst hcp
  rw [construct_concrete_type_eq hcf] at h
  constructor
  case tree =>
    rw [← hmp, Term.substParts_parts hmf fun p u hu => (mem_of_member_part hu).left] at h
    obtain ⟨t, ht, he⟩ := Option.map_eq_some_iff.mp h
    have hformed := hmf.subst (fun p q hq => num_embedded_of_member_part hq)
      (fun p u hu => hcf.args u (mem_of_member_part hu).right) ht
    exact he ▸ hformed.forest
  case instances =>
    intro part hpart id hid
    cases Term.mem_of_substParts h part hpart with
    | inl hkept =>
      obtain ⟨p, hp, hq⟩ := hkept
      have hq := parser_to_concrete_part_of_member_part hq
      cases p <;> cases hq <;> cases hid
      rw [hs.instances parser_type hm _ _ hp]
    | inr hfilled =>
      obtain ⟨p, _, t, ht, hmem⟩ := hfilled
      have harg := (mem_of_member_part ht).right
      exact hc.instances part (Term.mem_parts_of_arg harg hmem) id hid

section Base

variable {heap : Heap} {symbols : SymbolTable} {poly_vars : List PolymorphicVariable} {idx : Nat}

def IsUsed (poly_vars : List PolymorphicVariable) (idx : Nat) : Prop :=
  (poly_vars[idx]?.map PolymorphicVariable.is_in_use).getD false = true

theorem isUsed_modify (i : Nat) :
    IsUsed (poly_vars.modify i ({ · with is_in_use := true })) idx ↔
      IsUsed poly_vars idx ∨ idx < poly_vars.length ∧ idx = i := by
  by_cases hi : i = idx
  case pos =>
    subst hi
    by_cases hlt : i < poly_vars.length <;> simp [IsUsed, hlt]
  case neg => simp [IsUsed, hi, Ne.symm hi]

theorem isUsed_mark (parser_type : ParserType) :
    IsUsed (mark_used_polymorphic_variables poly_vars parser_type) idx ↔
      IsUsed poly_vars idx ∨
        idx < poly_vars.length ∧ ∃ id, .polymorphicArgument id idx ∈ parser_type := by
  unfold mark_used_polymorphic_variables
  induction parser_type generalizing poly_vars with
  | nil => simp
  | cons part parser_type ih =>
    rw [List.foldl_cons, ih]
    cases part with
    | polymorphicArgument id i =>
      simp only [isUsed_modify, List.length_modify, List.mem_cons,
        ParserTypeVariant.polymorphicArgument.injEq]
      constructor
      case mp =>
        intro h
        rcases h with (h | ⟨hlt, rfl⟩) | ⟨hlt, id', hm⟩
        · exact .inl h
        · exact .inr ⟨hlt, id, .inl ⟨rfl, rfl⟩⟩
        · exact .inr ⟨hlt, id', .inr hm⟩
      case mpr =>
        intro h
        rcases h with h | ⟨hlt, id', ⟨_, rfl⟩ | hm⟩
        · exact .inl (.inl h)
        · exact .inl (.inr ⟨hlt, rfl⟩)
        · exact .inr ⟨hlt, id', hm⟩
    | _ => simp

theorem isUsed_marks (parser_types : List ParserType) :
    IsUsed (parser_types.foldl mark_used_polymorphic_variables poly_vars) idx ↔
      IsUsed poly_vars idx ∨ idx < poly_vars.length ∧
        ∃ parser_type ∈ parser_types, ∃ id, .polymorphicArgument id idx ∈ parser_type := by
  induction parser_types generalizing poly_vars with
  | nil => simp
  | cons parser_type parser_types ih =>
    have hlen : (mark_used_polymorphic_variables poly_vars parser_type).length = poly_vars.length :=
      length_foldl_mark [parser_type] poly_vars
    rw [List.foldl_cons, ih, isUsed_mark, hlen]
    simp only [List.exists_mem_cons_iff]
    constructor
    case mp =>
      intro h
      rcases h with (h | ⟨hlt, hm⟩) | ⟨hlt, hm⟩
      · exact .inl h
      · exact .inr ⟨hlt, .inl hm⟩
      · exact .inr ⟨hlt, .inr hm⟩
    case mpr =>
      intro h
      rcases h with h | ⟨hlt, hm | hm⟩
      · exact .inl (.inl h)
      · exact .inl (.inr ⟨hlt, hm⟩)
      · exact .inr ⟨hlt, hm⟩

theorem not_isUsed_create (identifiers : List Identifier) :
    ¬IsUsed (create_polymorphic_variables identifiers) idx := by
  simp only [IsUsed, create_polymorphic_variables, List.getElem?_map]
  cases identifiers[idx]? <;> simp

-- The variables in use are those in the types of the members.
theorem isUsed_members (identifiers : List Identifier) (parser_types : List ParserType) :
    IsUsed (parser_types.foldl mark_used_polymorphic_variables
        (create_polymorphic_variables identifiers)) idx ↔
      idx < identifiers.length ∧
        ∃ parser_type ∈ parser_types, ∃ id, .polymorphicArgument id idx ∈ parser_type := by
  rw [isUsed_marks, or_iff_right (not_isUsed_create identifiers), create_polymorphic_variables,
    List.length_map]

namespace Heap

theorem build_base_definition_used {definition_id : DefinitionId} {definition : Definition}
    {type : DefinedType} (h : heap.build_base_definition symbols definition_id definition = .ok type)
    (hd : type.is_data_type) :
    IsUsed type.poly_vars idx ↔ idx < definition.poly_vars.length ∧
      ∃ parser_type ∈ definition.member_types, ∃ id, .polymorphicArgument id idx ∈ parser_type := by
  unfold build_base_definition at h
  split at h
  case h_1 variants hv =>
    obtain ⟨_, _, h⟩ := Except.bind_eq_ok.mp h
    obtain ⟨_, _, h⟩ := Except.bind_eq_ok.mp h
    obtain ⟨_, _, h⟩ := Except.bind_eq_ok.mp h
    cases h
    simp [not_isUsed_create, Definition.member_types, hv]
  case h_2 variants hv =>
    obtain ⟨_, _, h⟩ := Except.bind_eq_ok.mp h
    obtain ⟨_, _, h⟩ := Except.bind_eq_ok.mp h
    obtain ⟨_, _, h⟩ := Except.bind_eq_ok.mp h
    cases h
    simp only [isUsed_members, Definition.member_types, hv]
  case h_3 fields hf =>
    obtain ⟨_, _, h⟩ := Except.bind_eq_ok.mp h
    obtain ⟨_, _, h⟩ := Except.bind_eq_ok.mp h
    obtain ⟨_, _, h⟩ := Except.bind_eq_ok.mp h
    cases h
    simp only [isUsed_members, Definition.member_types, hf]
  case h_4 =>
    obtain ⟨_, _, h⟩ := Except.bind_eq_ok.mp h
    obtain ⟨_, _, h⟩ := Except.bind_eq_ok.mp h
    obtain ⟨_, _, h⟩ := Except.bind_eq_ok.mp h
    obtain ⟨_, _, h⟩ := Except.bind_eq_ok.mp h
    cases h
    simp [DefinedType.is_data_type] at hd
  case h_5 =>
    obtain ⟨_, _, h⟩ := Except.bind_eq_ok.mp h
    obtain ⟨_, _, h⟩ := Except.bind_eq_ok.mp h
    obtain ⟨_, _, h⟩ := Except.bind_eq_ok.mp h
    cases h
    simp [DefinedType.is_data_type] at hd

-- The base type of a parsed definition.
theorem sound_of_build_base (hp : heap.Parsed) {definition_id : DefinitionId} {definition : Definition}
    {type : DefinedType} (hget : heap.definitions[definition_id]? = some definition)
    (h : heap.build_base_definition symbols definition_id definition = .ok type)
    (hd : type.is_data_type) : type.Sound heap definition_id := by
  have hb := build_base_definition_based h
  have hmem := List.mem_of_getElem? hget
  have hnum : heap.num_poly_vars definition_id = definition.poly_vars.length := by
    rw [num_poly_vars, hget]
    rfl
  constructor
  case poly_vars => rw [hb.poly_vars, hnum]
  case used_iff =>
    intro idx
    rw [hb.member_types]
    refine (build_base_definition_used h hd).trans ⟨fun hu => hu.right, fun hu => ⟨?_, hu⟩⟩
    obtain ⟨parser_type, hm, id, hpart⟩ := hu
    exact hp.poly_vars definition hmem parser_type hm id idx hpart
  case trees =>
    rw [hb.member_types]
    exact hp.trees definition hmem
  case parts =>
    intro parser_type hm
    rw [hb.member_types] at hm
    rw [hnum]
    exact canBeMember_of_check (hb.checked parser_type hm)
      fun id idx => hp.poly_vars definition hmem parser_type hm id idx
  case instances =>
    rw [hb.member_types]
    exact hp.definitions definition hmem

theorem build_base_definitions_get {first_id : DefinitionId} {definitions : List Definition}
    {lookup : List DefinedType}
    (h : heap.build_base_definitions symbols first_id definitions = .ok lookup) {i : Nat}
    {type : DefinedType} (hget : lookup[i]? = some type) :
    ∃ definition, definitions[i]? = some definition ∧
      heap.build_base_definition symbols (first_id + i) definition = .ok type := by
  induction definitions generalizing first_id lookup i with
  | nil =>
    cases h
    simp at hget
  | cons definition definitions ih =>
    obtain ⟨type', htype, h⟩ := Except.bind_eq_ok.mp h
    obtain ⟨types, htypes, h⟩ := Except.bind_eq_ok.mp h
    cases h
    cases i with
    | zero =>
      cases hget
      exact ⟨definition, rfl, htype⟩
    | succ i =>
      obtain ⟨definition', hd, hb⟩ := ih htypes hget
      refine ⟨definition', hd, ?_⟩
      rwa [Nat.add_right_comm] at hb

end Heap

end Base

namespace DefinedType

variable {heap : Heap} {definition_id : DefinitionId} {type type' : DefinedType} {t : ConcreteType}
  {idx monomorph_idx : Nat}

theorem is_var_used_of_base (hb : type'.base = type.base) : type'.is_var_used = type.is_var_used := by
  funext idx
  rw [is_var_used, is_var_used, ← type'.base_poly_vars, hb, type.base_poly_vars]

theorem agree_of_base (hb : type'.base = type.base) : type'.Agree = type.Agree := by
  funext a b
  simp only [Agree, is_var_used_of_base hb]

theorem Sound.of_base (hs : type.Sound heap definition_id) (hb : type'.base = type.base) :
    type'.Sound heap definition_id := by
  have hm : type'.member_types = type.member_types := by
    rw [← type'.member_types_base, hb, type.member_types_base]
  constructor
  case poly_vars => rw [← type'.base_poly_vars, hb, type.base_poly_vars, hs.poly_vars]
  case used_iff =>
    intro idx
    rw [is_var_used_of_base hb, hm]
    exact hs.used_iff idx
  case trees => exact hm ▸ hs.trees
  case parts => exact hm ▸ hs.parts
  case instances => exact hm ▸ hs.instances

theorem erased_monomorph_types (type : DefinedType) :
    type.erased.monomorph_types = type.monomorph_types := by
  unfold erased
  split
  case h_1 definition hd => simp [monomorph_types, hd, UnionMonomorph.erased]
  case h_2 definition hd => simp [monomorph_types, hd, StructMonomorph.erased]
  case h_3 => rfl

theorem erased_members (type : DefinedType) (idx : Nat) :
    type.erased.members idx = (type.members idx).map MonomorphMember.erased := by
  have hid : type.erased.ast_definition = type.ast_definition := by
    unfold erased
    split <;> rfl
  rw [members, remaining_erased, hid, members]

theorem members_of_erased (he : type'.erased = type.erased) (idx : Nat) :
    (type'.members idx).map (some ·.concrete_type) =
      (type.members idx).map (some ·.concrete_type) := by
  have hm := congrArg (·.members idx) he
  simp only [erased_members] at hm
  have hmap := congrArg (List.map (some ·.concrete_type)) hm
  rwa [List.map_map, List.map_map] at hmap

theorem Shares.of_erased (h : type.Shares heap definition_id) (he : type'.erased = type.erased) :
    type'.Shares heap definition_id := by
  have hb : type'.base = type.base := by rw [← type'.erased_base, he, type.erased_base]
  have ht : type'.monomorph_types = type.monomorph_types := by
    rw [← type'.erased_monomorph_types, he, type.erased_monomorph_types]
  have hm : type'.member_types = type.member_types := by
    rw [← type'.member_types_base, hb, type.member_types_base]
  constructor
  case instances => exact ht ▸ h.instances
  case distinct =>
    rw [agree_of_base hb, ht]
    exact h.distinct
  case members =>
    intro idx c hc
    rw [ht] at hc
    rw [hm, members_of_erased he]
    exact h.members idx c hc

-- A new monomorph comes behind the others.
structure Appends (type : DefinedType) (t : ConcreteType) (type' : DefinedType) : Prop where
  types   : type'.monomorph_types = type.monomorph_types ++ [t]
  others  : ∀ idx < type.monomorph_types.length, type'.members idx = type.members idx
  members : type.member_types.map (construct_concrete_type · t) =
    (type'.members type.monomorph_types.length).map (some ·.concrete_type)

theorem map_construct_eq {parser_types : List ParserType} {members : List MonomorphMember}
    (h : List.Forall₂ (fun parser_type member =>
      construct_concrete_type parser_type t = some member.concrete_type) parser_types members) :
    parser_types.map (construct_concrete_type · t) = members.map (some ·.concrete_type) := by
  induction h with
  | nil            => rfl
  | cons hm _ ih => rw [List.map_cons, List.map_cons, hm, ih]

theorem push_monomorph_appends (h : type.push_monomorph t = .ok (type', monomorph_idx)) :
    type.Appends t type' := by
  unfold push_monomorph at h
  split at h
  case h_1 definition hd =>
    cases h
    constructor
    case types => simp [monomorph_types, hd]
    case others => simp [members, remaining, hd]
    case members => simp [member_types, members, remaining, hd]
  case h_2 definition hd =>
    obtain ⟨variants, hv, h⟩ := Except.bind_eq_ok.mp h
    cases h
    constructor
    case types => simp [monomorph_types, hd]
    case others =>
      intro idx hidx
      simp only [monomorph_types, hd, List.length_map] at hidx
      simp [members, remaining, hd, List.getElem?_append_left hidx]
    case members =>
      simpa [member_types, members, remaining, hd, remaining_embedded_zero, monomorph_types]
        using map_construct_eq (forall₂_flatMap_embedded hv)
  case h_3 definition hd =>
    obtain ⟨fields, hf, h⟩ := Except.bind_eq_ok.mp h
    cases h
    constructor
    case types => simp [monomorph_types, hd]
    case others =>
      intro idx hidx
      simp only [monomorph_types, hd, List.length_map] at hidx
      simp [members, remaining, hd, List.getElem?_append_left hidx]
    case members =>
      simpa [member_types, members, remaining, hd, monomorph_types]
        using map_construct_eq (construct_concrete_types_cases hf)
  case h_4 => cases h
  case h_5 => cases h

theorem Shares.push (hd : type.is_data_type) (hs : type.Sound heap definition_id)
    (h : type.Shares heap definition_id) (ht : t.InstanceOf heap definition_id)
    (hnone : type.get_monomorph_index t = none)
    (hpush : type.push_monomorph t = .ok (type', monomorph_idx)) :
    type'.Shares heap definition_id := by
  have hb := (push_monomorph_cases hpush).base
  have happ := push_monomorph_appends hpush
  have hm : type'.member_types = type.member_types := by
    rw [← type'.member_types_base, hb, type.member_types_base]
  constructor
  case instances =>
    rw [happ.types]
    exact List.forall_mem_append.mpr ⟨h.instances, List.forall_mem_singleton.mpr ht⟩
  case distinct =>
    rw [agree_of_base hb, happ.types]
    exact h.distinct.append (not_agree_of_get_monomorph_index hd hs h ht hnone)
  case members =>
    intro idx c hc
    rw [happ.types] at hc
    rw [hm]
    by_cases hidx : idx < type.monomorph_types.length
    case pos =>
      rw [List.getElem?_append_left hidx] at hc
      rw [happ.others idx hidx]
      exact h.members idx c hc
    case neg =>
      have heq : idx = type.monomorph_types.length := by
        obtain ⟨hlt, _⟩ := List.getElem?_eq_some_iff.mp hc
        simp only [List.length_append, List.length_singleton] at hlt
        omega
      subst heq
      rw [List.getElem?_concat_length] at hc
      cases hc
      exact happ.members

theorem exists_monomorph_of_mem {member : MonomorphMember} (h : member ∈ type.members idx) :
    type.is_data_type ∧ ∃ c, type.monomorph_types[idx]? = some c := by
  unfold members remaining at h
  split at h
  case h_1 definition hd =>
    split at h
    case h_1 monomorph hm => exact ⟨by simp [is_data_type, hd], monomorph.concrete_type, by simp [monomorph_types, hd, hm]⟩
    case h_2 => simp at h
  case h_2 definition hd =>
    split at h
    case h_1 monomorph hm => exact ⟨by simp [is_data_type, hd], monomorph.concrete_type, by simp [monomorph_types, hd, hm]⟩
    case h_2 => simp at h
  case h_3 => simp at h

theorem Shares.member_fits (h : type.Shares heap definition_id) (hs : type.Sound heap definition_id)
    {member : MonomorphMember} (hm : member ∈ type.members idx) : member.concrete_type.Fits heap := by
  obtain ⟨_, c, hc⟩ := exists_monomorph_of_mem hm
  have hmem : some member.concrete_type ∈ type.member_types.map (construct_concrete_type · c) := by
    rw [h.members idx c hc]
    exact List.mem_map_of_mem hm
  obtain ⟨parser_type, hpt, hct⟩ := List.mem_map.mp hmem
  exact .construct hs hpt (h.instances c (List.mem_of_getElem? hc)).toFits hct

end DefinedType

-- All data types of a table share their monomorphs.
def SharesAll (heap : Heap) (lookup : List DefinedType) : Prop :=
  ∀ (id : DefinitionId) (type : DefinedType), lookup[id]? = some type → type.is_data_type →
    type.Sound heap id ∧ type.Shares heap id

namespace SharesAll

variable {heap : Heap} {lookup lookup' : List DefinedType} {table table' : TypeTable}

theorem base {symbols : SymbolTable} (hp : heap.Parsed)
    (h : heap.build_base_definitions symbols 0 heap.definitions = .ok lookup) :
    SharesAll heap lookup := by
  intro id type ht hd
  obtain ⟨definition, hdef, hbuild⟩ := Heap.build_base_definitions_get h ht
  rw [Nat.zero_add] at hbuild
  have hb := Heap.build_base_definition_based hbuild
  have hnone : type.monomorph_types = [] := by
    have hn := hb.no_monomorphs
    cases hdt : type.definition <;>
      simp_all [DefinedType.num_monomorphs, DefinedType.monomorph_types]
  refine ⟨Heap.sound_of_build_base hp hdef hbuild hd, ?_, ?_, ?_⟩
  · simp [hnone]
  · simp [hnone, Interning.Distinct]
  · simp [hnone]

theorem sameTypes (h : SharesAll heap lookup) (hs : SameTypes lookup lookup') :
    SharesAll heap lookup' := by
  intro id type' ht' hd'
  obtain ⟨type, ht, he⟩ := hs.symm.exists_getElem? ht'
  have hd : type.is_data_type := by rwa [← type.erased_is_data_type, he, type'.erased_is_data_type]
  have hb : type'.base = type.base := by rw [← type'.erased_base, ← he, type.erased_base]
  obtain ⟨hsound, hshares⟩ := h id type ht hd
  exact ⟨hsound.of_base hb, hshares.of_erased he.symm⟩

theorem member_fits (h : SharesAll heap lookup) (breadcrumb : TypeLoopBreadcrumb) :
    ∀ c ∈ remaining_members lookup breadcrumb, c.Fits heap := by
  intro c hc
  unfold remaining_members at hc
  split at hc
  case h_1 type ht =>
    obtain ⟨member, hm, he⟩ := List.mem_map.mp hc
    have hm := DefinedType.remaining_subset_members hm
    obtain ⟨hsound, hshares⟩ := h _ type ht (DefinedType.exists_monomorph_of_mem hm).left
    exact he ▸ hshares.member_fits hsound hm
  case h_2 => simp at hc

-- A new monomorph is only added if none of those there are agrees with it.
theorem push (h : SharesAll heap table.lookup) {t member : ConcreteType} {id : DefinitionId}
    (hfits : member.Fits heap)
    (hc : table.check_member_for_type_loops member = .ok (.pushBreadcrumb id t))
    {table₁ : TypeTable} (hp : table₁.handle_new_breadcrumb_for_type_loops id t = .ok table')
    (hsame : table₁.lookup = table.lookup) :
    SharesAll heap table'.lookup := by
  obtain ⟨part, parts, hmember, hcases⟩ := TypeTable.check_member_cases hc
  obtain ⟨type₀, hid, ht₀, hnone⟩ : ∃ type, part.definition_id = some id ∧
      table.lookup[id]? = some type ∧ type.get_monomorph_index member = none ∧ t = member := by
    rcases hcases with ⟨_, he⟩ | ⟨id', type, hid, ht, ⟨hnone, he⟩ | ⟨_, _, ⟨_, _, _, _, _, he⟩ | ⟨he, _⟩⟩⟩
    · cases he
    · cases he
      exact ⟨type, hid, ht, hnone, rfl⟩
    · cases he
    · cases he
  obtain ⟨hnone, he⟩ := hnone
  subst he
  obtain ⟨type, type', monomorph_idx, ht, hpush, htable⟩ := TypeTable.handle_new_breadcrumb_cases hp
  rw [hsame, ht₀] at ht
  cases ht
  have hd := DefinedType.is_data_type_of_push hpush
  obtain ⟨hsound, hshares⟩ := h id type₀ ht₀ hd
  have hinst : t.InstanceOf heap id := ⟨hfits, by rw [hmember]; exact hid⟩
  have hb := (DefinedType.push_monomorph_cases hpush).base
  intro id' type'' ht'' hd''
  rw [htable, hsame] at ht''
  by_cases hid' : id = id'
  case pos =>
    subst hid'
    rw [List.getElem?_set_self (List.getElem?_eq_some_iff.mp ht₀).fst] at ht''
    cases ht''
    exact ⟨hsound.of_base hb, hshares.push hd hsound hinst hnone hpush⟩
  case neg =>
    rw [List.getElem?_set_ne hid'] at ht''
    exact h id' type'' ht'' hd''

theorem round (h : SharesAll heap table.lookup) (hn : table.next heap = some (.ok table')) :
    SharesAll heap table'.lookup := by
  obtain ⟨below, breadcrumb, breadcrumb', result, _, hr, hcases⟩ := TypeTable.next_cases hn
  rcases hcases with ⟨_, rfl⟩ | ⟨id, t, rfl, hpush⟩ | ⟨first_idx, rfl, hloop⟩
  · exact h
  · obtain ⟨_, _, hscan, _⟩ := TypeTable.resolve_members_scanned hr
    obtain ⟨member, rest, hrest, hcheck⟩ := hscan.exists_cons (by simp)
    have hmem : member ∈ remaining_members table.lookup breadcrumb' := by
      rw [hrest]
      exact .head _
    exact h.push (h.member_fits breadcrumb' member hmem) hcheck hpush rfl
  · obtain ⟨lookup, hs, _, _, he⟩ := TypeTable.handle_type_loop_cases hloop
    subst he
    exact h.sameTypes hs

theorem rounds (h : SharesAll heap table.lookup)
    (hr : Relation.ReflTransGen (TypeTable.Round heap) table table') : SharesAll heap table'.lookup := by
  induction hr with
  | refl         => exact h
  | tail _ hr ih => exact ih.round hr

theorem detect {fuel : Nat} {t : ConcreteType} (h : SharesAll heap table.lookup) (hfits : t.Fits heap)
    (hd : table.detect_and_resolve_type_loops_for heap fuel t = .ok table') :
    SharesAll heap table'.lookup := by
  obtain ⟨_, _, _, _, hc, hpush, hresolve, he⟩ := TypeTable.detect_and_resolve_type_loops_for_cases hd
  subst he
  have hrounds := (TypeTable.rounds_of_resolve_breadcrumbs hresolve).left
  have hresolved := (h.push hfits hc hpush rfl).rounds hrounds
  exact hresolved

theorem add_base {fuel : Nat} {id : DefinitionId} {type : DefinedType} {table₁ : TypeTable}
    {arch : TargetArch} (h : SharesAll heap table.lookup) (ht : table.lookup[id]? = some type)
    (hd : type.is_data_type) (hpoly : type.poly_vars = [])
    (hdetect : table.detect_and_resolve_type_loops_for heap fuel [.«instance» id 0] = .ok table₁)
    (hlay : table₁.lay_out_memory_for_encountered_types arch fuel = .ok table') :
    SharesAll heap table'.lookup := by
  have hnum : heap.num_poly_vars id = 0 := by
    rw [← (h id type ht hd).left.poly_vars, hpoly]
    rfl
  have hfits : ConcreteType.Fits heap [.«instance» id 0] := by
    refine ⟨.cons .nil, fun part hpart id' hid => ?_⟩
    cases List.mem_singleton.mp hpart
    cases hid
    rw [hnum]
  exact (h.detect hfits hdetect).sameTypes (TypeTable.lay_out_memory_laidOut hlay).types

theorem lay_out_base_types {fuel : Nat} {arch : TargetArch} {ids : List DefinitionId}
    (h : SharesAll heap table.lookup)
    (hl : TypeTable.lay_out_base_types arch heap fuel table ids = .ok table') :
    SharesAll heap table'.lookup := by
  induction ids generalizing table with
  | nil =>
    cases hl
    exact h
  | cons id ids ih =>
    unfold TypeTable.lay_out_base_types at hl
    split at hl
    case h_1 => cases hl
    case h_2 type ht =>
      split at hl
      case isTrue hbase =>
        obtain ⟨table₁, h₁, hl⟩ := Except.bind_eq_ok.mp hl
        obtain ⟨table₂, h₂, hl⟩ := Except.bind_eq_ok.mp hl
        exact ih (h.add_base ht hbase.left (List.isEmpty_iff.mp hbase.right.left) h₁ h₂) hl
      case isFalse => exact ih h hl

theorem build_base_types {symbols : SymbolTable} {fuel : Nat} {arch : TargetArch} (hp : heap.Parsed)
    (h : TypeTable.build_base_types arch heap symbols fuel = .ok table) :
    SharesAll heap table.lookup := by
  obtain ⟨lookup, hbase, h⟩ := Except.bind_eq_ok.mp h
  exact (base hp hbase).lay_out_base_types h

theorem add_data_monomorph {fuel : Nat} {arch : TargetArch} {id : DefinitionId} {t : ConcreteType}
    {monomorph_idx : Nat} (h : SharesAll heap table.lookup) (hfits : t.Fits heap)
    (ha : TypeTable.add_data_monomorph arch heap fuel table id t = .ok (table', monomorph_idx)) :
    SharesAll heap table'.lookup := by
  obtain he | ⟨table₁, h₁, h₂⟩ := TypeTable.add_data_monomorph_cases ha
  · exact he ▸ h
  · exact (h.detect hfits h₁).sameTypes (TypeTable.lay_out_memory_laidOut h₂).types

-- The monomorphs of procedures are not those of data types.
theorem reserve_procedure {id : DefinitionId} {t : ConcreteType} {monomorph_idx : Nat}
    (h : SharesAll heap table.lookup)
    (hr : table.reserve_procedure_monomorph_index id t = .ok (table', monomorph_idx)) :
    SharesAll heap table'.lookup := by
  unfold TypeTable.reserve_procedure_monomorph_index at hr
  split at hr
  case h_1 => cases hr
  case h_2 type ht =>
    have hset (type' : DefinedType) (hd' : type'.is_data_type = false) :
        SharesAll heap (table.lookup.set id type') := by
      intro id' type'' ht'' hd''
      by_cases hid : id = id'
      case pos =>
        subst hid
        rw [List.getElem?_set_self (List.getElem?_eq_some_iff.mp ht).fst] at ht''
        cases ht''
        rw [hd'] at hd''
        cases hd''
      case neg =>
        rw [List.getElem?_set_ne hid] at ht''
        exact h id' type'' ht'' hd''
    split at hr
    case h_1 =>
      cases hr
      exact hset _ rfl
    case h_2 =>
      cases hr
      exact hset _ rfl
    case h_3 => cases hr

end SharesAll

-- The tables that come out of building the base types, and then of adding data types and procedures.
inductive Additions (arch : TargetArch) (heap : Heap) (symbols : SymbolTable) : TypeTable → Prop
  | build {table : TypeTable} {fuel : Nat} :
      TypeTable.build_base_types arch heap symbols fuel = .ok table → Additions arch heap symbols table
  | add {table table' : TypeTable} {fuel monomorph_idx : Nat} {id : DefinitionId} {t : ConcreteType} :
      Additions arch heap symbols table → t.InstanceOf heap id →
      TypeTable.add_data_monomorph arch heap fuel table id t = .ok (table', monomorph_idx) →
      Additions arch heap symbols table'
  | reserve {table table' : TypeTable} {monomorph_idx : Nat} {id : DefinitionId} {t : ConcreteType} :
      Additions arch heap symbols table →
      table.reserve_procedure_monomorph_index id t = .ok (table', monomorph_idx) →
      Additions arch heap symbols table'

theorem Additions.sharesAll {arch : TargetArch} {heap : Heap} {symbols : SymbolTable} {table : TypeTable}
    (hp : heap.Parsed) (h : Additions arch heap symbols table) : SharesAll heap table.lookup := by
  induction h with
  | build hb       => exact .build_base_types hp hb
  | add _ ht ha ih => exact ih.add_data_monomorph ht.toFits ha
  | reserve _ hr ih => exact ih.reserve_procedure hr

-- What is found of a type: the size and the alignment of its monomorph, and its members with their
-- types, sizes, alignments and offsets.
def DefinedType.layout (type : DefinedType) (t : ConcreteType) :
    Option (Except Stop (Option (Nat × Nat)) × List MonomorphMember) :=
  (type.get_monomorph_index t).map fun idx => (type.get_monomorph_size_alignment idx, type.members idx)

-- A type is found at the one monomorph that agrees with it on the variables in use. Types that are found
-- at the same monomorph have the same members and the same layout.
structure SharedMonomorphs (arch : TargetArch) (heap : Heap) (lookup : List DefinedType)
    (id : DefinitionId) (type : DefinedType) : Prop where
  found_iff : ∀ t, t.InstanceOf heap id → ∀ idx, type.get_monomorph_index t = some idx ↔
    ∃ c, type.monomorph_types[idx]? = some c ∧ type.Agree c t
  unique : ∀ (t a b : ConcreteType) (i j : Nat), type.monomorph_types[i]? = some a →
    type.monomorph_types[j]? = some b → type.Agree a t → type.Agree b t → i = j
  members : ∀ a b idx, a.InstanceOf heap id → b.InstanceOf heap id →
    type.get_monomorph_index a = some idx → type.get_monomorph_index b = some idx →
    type.member_types.map (construct_concrete_type · a) = (type.members idx).map (some ·.concrete_type) ∧
    type.member_types.map (construct_concrete_type · b) = (type.members idx).map (some ·.concrete_type)
  layout : ∀ a b idx, a.InstanceOf heap id → b.InstanceOf heap id →
    type.get_monomorph_index a = some idx → type.get_monomorph_index b = some idx →
    type.layout a = type.layout b ∧
    ∀ stack_len, get_memory_layout_or_breadcrumb arch lookup stack_len a =
      get_memory_layout_or_breadcrumb arch lookup stack_len b

theorem monomorphs_shared {arch : TargetArch} {heap : Heap} {symbols : SymbolTable} {table : TypeTable}
    (hp : heap.Parsed) (hr : Additions arch heap symbols table) {id : DefinitionId} {type : DefinedType}
    (ht : table.lookup[id]? = some type) (hd : type.is_data_type) :
    SharedMonomorphs arch heap table.lookup id type := by
  obtain ⟨hsound, hshares⟩ := hr.sharesAll hp id type ht hd
  have hfound (t : ConcreteType) (hinst : t.InstanceOf heap id) (idx : Nat) :
      type.get_monomorph_index t = some idx ↔
        ∃ c, type.monomorph_types[idx]? = some c ∧ type.Agree c t :=
    DefinedType.get_monomorph_index_eq_some_iff hd hsound hshares hinst
  have hmembers (t : ConcreteType) (idx : Nat) (hinst : t.InstanceOf heap id)
      (hit : type.get_monomorph_index t = some idx) :
      type.member_types.map (construct_concrete_type · t) =
        (type.members idx).map (some ·.concrete_type) := by
    obtain ⟨c, hc, hagree⟩ := (hfound t hinst idx).mp hit
    rw [← hshares.members idx c hc]
    exact List.map_congr_left fun parser_type hm => (hagree.construct_eq hsound parser_type hm).symm
  constructor
  case found_iff => exact hfound
  case unique =>
    intro t a b i j hi hj ha hb
    exact hshares.distinct.unique type.agree_equivalence hi hj ha hb
  case members =>
    intro a b idx ha hb hia hib
    exact ⟨hmembers a idx ha hia, hmembers b idx hb hib⟩
  case layout =>
    intro a b idx ha hb hia hib
    refine ⟨by rw [DefinedType.layout, DefinedType.layout, hia, hib], fun stack_len => ?_⟩
    obtain ⟨_, hpa⟩ := ha.exists_part
    obtain ⟨_, hpb⟩ := hb.exists_part
    rw [hpa] at hia ⊢
    rw [hpb] at hib ⊢
    simp only [get_memory_layout_or_breadcrumb, builtin_size_alignment, ht, hia, hib]

-- `struct Pair<A, B> { A first, u8 second }`, of which a `Pair<u16, bool>` has been added.
def phantom : Heap :=
  ⟨[⟨none, "Pair", ["A", "B"],
    .struct [⟨"first", [.polymorphicArgument 0 0]⟩, ⟨"second", [.uint8]⟩]⟩]⟩

theorem phantom_parsed : phantom.Parsed := by
  have hall {P : ParserType → Prop} (h₁ : P [.polymorphicArgument 0 0]) (h₂ : P [.uint8]) :
      ∀ definition ∈ phantom.definitions, ∀ parser_type ∈ definition.member_types, P parser_type := by
    intro definition hd
    cases List.mem_singleton.mp hd
    exact List.forall_mem_cons.mpr ⟨h₁, List.forall_mem_singleton.mpr h₂⟩
  constructor
  case trees => exact hall (.cons .nil) (.cons .nil)
  case definitions => exact hall (by simp) (by simp)
  case poly_vars =>
    intro definition hd
    cases List.mem_singleton.mp hd
    refine List.forall_mem_cons.mpr ⟨fun id idx h => ?_, List.forall_mem_singleton.mpr (by simp)⟩
    cases List.mem_singleton.mp h
    exact Nat.zero_lt_two

theorem phantom_instance : ConcreteType.InstanceOf phantom 0 [.«instance» 0 2, .uint16, .bool] := by
  refine ⟨⟨.cons (.cons (.cons .nil)), ?_⟩, rfl⟩
  simp [ConcreteTypePart.definition_id, Heap.num_poly_vars, phantom]

theorem monomorphs_shared_phantom : ∃ table type,
    Additions .new phantom SymbolTable.new table ∧ table.lookup[0]? = some type ∧
    type.get_monomorph_index [.«instance» 0 2, .uint16, .bool] = some 0 ∧
    type.get_monomorph_index [.«instance» 0 2, .uint16, .uint64] = some 0 ∧
    type.get_monomorph_index [.«instance» 0 2, .uint8, .bool] = none ∧
    SharedMonomorphs .new phantom table.lookup 0 type := by
  have hbuild : TypeTable.build_base_types .new phantom SymbolTable.new 10 = .ok _ := rfl
  have hr := (Additions.build hbuild).add phantom_instance
    (show TypeTable.add_data_monomorph .new phantom 10 _ 0 _ = .ok (_, 0) from rfl)
  exact ⟨_, _, hr, rfl, rfl, rfl, rfl, monomorphs_shared phantom_parsed hr rfl rfl⟩

end Reowolf.Types
