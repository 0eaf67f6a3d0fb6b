import Reowolf.Types.BuiltTables

namespace Reowolf.Types

open Reowolf.Parser (ParserTypeVariant SymbolTable)

namespace Definition

def is_data_type (definition : Definition) : Bool :=
  match definition.variant with
  | .enum _ | .union _ | .struct _ => true
  | .function .. | .component _ => false

def member_types (definition : Definition) : List ParserType :=
  match definition.variant with
  | .union variants => variants.flatMap UnionVariantDefinition.value
  | .struct fields => fields.map StructFieldDefinition.parser_type
  | _ => []

-- A definition without polymorphic arguments, so that its members have none to refer to.
structure Nonpolymorphic (definition : Definition) : Prop where
  poly_vars : definition.poly_vars = []
  members   : ∀ parser_type ∈ definition.member_types, parser_type ≠ [] ∧
    ∀ definition_id idx, ParserTypeVariant.polymorphicArgument definition_id idx ∉ parser_type

end Definition

-- All structs, unions and enums are without polymorphic arguments.
def Heap.Nonpolymorphic (heap : Heap) : Prop :=
  ∀ definition ∈ heap.definitions, definition.is_data_type → definition.Nonpolymorphic

theorem length_foldl_mark (parser_types : List ParserType) (poly_vars : List PolymorphicVariable) :
    (parser_types.foldl mark_used_polymorphic_variables poly_vars).length = poly_vars.length := by
  have hmark (parser_type : ParserType) (poly_vars : List PolymorphicVariable) :
      (mark_used_polymorphic_variables poly_vars parser_type).length = poly_vars.length := by
    unfold mark_used_polymorphic_variables
    induction parser_type generalizing poly_vars with
    | nil => rfl
    | cons element parser_type ih =>
      rw [List.foldl_cons, ih]
      split <;> simp
  induction parser_types generalizing poly_vars with
  | nil => rfl
  | cons parser_type parser_types ih => rw [List.foldl_cons, ih, hmark]

theorem flatMap_build_union_variants (tag_counter : Int) (variants : List UnionVariantDefinition) :
    (build_union_variants tag_counter variants).flatMap UnionVariant.embedded =
      variants.flatMap UnionVariantDefinition.value := by
  induction variants generalizing tag_counter with
  | nil => rfl
  | cons variant variants ih => simp only [build_union_variants, List.flatMap_cons, ih]

namespace Heap

variable {heap : Heap} {symbols : SymbolTable}

theorem check_member_parser_types_cases {allow : Bool} {parser_types : List ParserType}
    (h : heap.check_member_parser_types allow parser_types = .ok ()) :
    ∀ parser_type ∈ parser_types, heap.check_member_parser_type parser_type allow = .ok () := by
  induction parser_types with
  | nil => simp
  | cons parser_type parser_types ih =>
    obtain ⟨_, hfirst, h⟩ := Except.bind_eq_ok.mp h
    intro p hp
    cases List.mem_cons.mp hp with
    | inl heq => exact heq ▸ hfirst
    | inr hp  => exact ih h p hp

-- The base type of a definition.
structure Based (heap : Heap) (definition : Definition) (type : DefinedType) : Prop where
  data_type    : type.is_data_type = definition.is_data_type
  poly_vars    : type.poly_vars.length = definition.poly_vars.length
  member_types : type.member_types = definition.member_types
  checked      : ∀ parser_type ∈ definition.member_types,
    heap.check_member_parser_type parser_type false = .ok ()
  no_members   : ∀ idx, type.members idx = []
  no_monomorphs : type.num_monomorphs = 0

theorem build_base_definition_based {definition_id : DefinitionId} {definition : Definition}
    {type : DefinedType} (h : heap.build_base_definition symbols definition_id definition = .ok type) :
    Based heap definition type := by
  unfold build_base_definition at h
  split at h
  case h_1 variants hv =>
    obtain ⟨_, _, h⟩ := Except.bind_eq_ok.mp h
    obtain ⟨_, _, h⟩ := Except.bind_eq_ok.mp h
    obtain ⟨_, _, h⟩ := Except.bind_eq_ok.mp h
    cases h
    constructor
    case poly_vars => simp [create_polymorphic_variables]
    all_goals simp [DefinedType.is_data_type, Definition.is_data_type, DefinedType.member_types,
      Definition.member_types, DefinedType.members, DefinedType.remaining, DefinedType.num_monomorphs, hv]
  case h_2 variants hv =>
    obtain ⟨_, hcheck, h⟩ := Except.bind_eq_ok.mp h
    obtain ⟨_, _, h⟩ := Except.bind_eq_ok.mp h
    obtain ⟨_, _, h⟩ := Except.bind_eq_ok.mp h
    cases h
    constructor
    case checked =>
      rw [Definition.member_types, hv]
      exact check_member_parser_types_cases hcheck
    case poly_vars => simp [create_polymorphic_variables, length_foldl_mark]
    all_goals simp [DefinedType.is_data_type, Definition.is_data_type, DefinedType.member_types,
      Definition.member_types, DefinedType.members, DefinedType.remaining, DefinedType.num_monomorphs, hv,
      flatMap_build_union_variants]
  case h_3 fields hf =>
    obtain ⟨_, hcheck, h⟩ := Except.bind_eq_ok.mp h
    obtain ⟨_, _, h⟩ := Except.bind_eq_ok.mp h
    obtain ⟨_, _, h⟩ := Except.bind_eq_ok.mp h
    cases h
    constructor
    case checked =>
      rw [Definition.member_types, hf]
      exact check_member_parser_types_cases hcheck
    case poly_vars => simp [create_polymorphic_variables, length_foldl_mark]
    all_goals simp [DefinedType.is_data_type, Definition.is_data_type, DefinedType.member_types,
      Definition.member_types, DefinedType.members, DefinedType.remaining, DefinedType.num_monomorphs, hf,
      Function.comp_def]
  case h_4 hv =>
    obtain ⟨_, _, h⟩ := Except.bind_eq_ok.mp h
    obtain ⟨_, _, h⟩ := Except.bind_eq_ok.mp h
    obtain ⟨_, _, h⟩ := Except.bind_eq_ok.mp h
    obtain ⟨_, _, h⟩ := Except.bind_eq_ok.mp h
    cases h
    constructor
    case poly_vars => simp [create_polymorphic_variables, length_foldl_mark]
    all_goals simp [DefinedType.is_data_type, Definition.is_data_type, DefinedType.member_types,
      Definition.member_types, DefinedType.members, DefinedType.remaining, DefinedType.num_monomorphs, hv]
  case h_5 hv =>
    obtain ⟨_, _, h⟩ := Except.bind_eq_ok.mp h
    obtain ⟨_, _, h⟩ := Except.bind_eq_ok.mp h
    obtain ⟨_, _, h⟩ := Except.bind_eq_ok.mp h
    cases h
    constructor
    case poly_vars => simp [create_polymorphic_variables, length_foldl_mark]
    all_goals simp [DefinedType.is_data_type, Definition.is_data_type, DefinedType.member_types,
      Definition.member_types, DefinedType.members, DefinedType.remaining, DefinedType.num_monomorphs, hv]

theorem build_base_definitions_based {definition_id : DefinitionId} {definitions : List Definition}
    {lookup : List DefinedType}
    (h : heap.build_base_definitions symbols definition_id definitions = .ok lookup) :
    List.Forall₂ (Based heap) definitions lookup := by
  induction definitions generalizing definition_id lookup with
  | nil =>
    cases h
    exact .nil
  | cons definition definitions ih =>
    obtain ⟨type, htype, h⟩ := Except.bind_eq_ok.mp h
    obtain ⟨types, htypes, h⟩ := Except.bind_eq_ok.mp h
    cases h
    exact .cons (build_base_definition_based htype) (ih htypes)

end Heap

end Reowolf.Types
