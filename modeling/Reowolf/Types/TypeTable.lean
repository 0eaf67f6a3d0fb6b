import Mathlib.Algebra.Group.Int.Defs
import Reowolf.Types.ConcreteType

namespace Reowolf.Types

open Reowolf.Parser (ParserTypeVariant RootId SymbolScope SymbolTable)

-- What an error says: where it is, and what else is to know about it.
structure ParseError where
  statements : List String
deriving DecidableEq

-- Why the type table stops: with an error for the programmer, or at a place that the source holds to
-- be unreachable. The loops of this model have a bound that the source's do not have. What reaches
-- the bound stops in a way of its own.
inductive Stop
  | parse_error (error : ParseError)
  | panic
  | fuel
deriving DecidableEq

structure EnumVariantDefinition where
  identifier : Identifier
  value      : Option Int

structure UnionVariantDefinition where
  identifier : Identifier
  value      : List ParserType

structure StructFieldDefinition where
  field       : Identifier
  parser_type : ParserType

structure Parameter where
  identifier  : Identifier
  parser_type : ParserType

inductive DefinitionVariant
  | enum (variants : List EnumVariantDefinition)
  | union (variants : List UnionVariantDefinition)
  | struct (fields : List StructFieldDefinition)
  | function (return_types : List ParserType) (parameters : List Parameter) (builtin : Bool)
  | component (parameters : List Parameter)

-- A definition as the programmer typed it. A builtin one is not defined in a module.
structure Definition where
  defined_in : Option RootId
  identifier : Identifier
  poly_vars  : List Identifier
  variant    : DefinitionVariant

structure Heap where
  definitions : List Definition

def Heap.identifier (heap : Heap) (definition_id : DefinitionId) : Identifier :=
  (heap.definitions[definition_id]?.map Definition.identifier).getD ""

structure PolymorphicVariable where
  identifier : Identifier
  is_in_use  : Bool

structure EnumVariant where
  identifier : Identifier
  value      : Int

structure EnumMonomorph where
  concrete_type : ConcreteType

structure EnumType where
  variants          : List EnumVariant
  monomorphs        : List EnumMonomorph
  minimum_tag_value : Int
  maximum_tag_value : Int
  tag_type          : ConcreteType
  size              : Nat
  alignment         : Nat

structure UnionVariant where
  identifier : Identifier
  embedded   : List ParserType
  tag_value  : Int

-- A field of a struct or an embedded type of a union, and where it lies. The offset is from the start
-- of the value, or from the start of the allocated memory if the variant lives on the heap.
structure MonomorphMember where
  concrete_type : ConcreteType
  size          : Nat
  alignment     : Nat
  offset        : Nat

abbrev UnionMonomorphEmbedded := MonomorphMember
abbrev StructMonomorphField   := MonomorphMember

structure UnionMonomorphVariant where
  lives_on_heap : Bool
  embedded      : List UnionMonomorphEmbedded

structure UnionMonomorph where
  concrete_type   : ConcreteType
  variants        : List UnionMonomorphVariant
  stack_size      : Nat
  stack_alignment : Nat
  heap_size       : Nat
  heap_alignment  : Nat

structure UnionType where
  variants   : List UnionVariant
  monomorphs : List UnionMonomorph
  tag_type   : ConcreteType
  tag_size   : Nat

structure StructField where
  identifier  : Identifier
  parser_type : ParserType

structure StructMonomorph where
  concrete_type : ConcreteType
  fields        : List StructMonomorphField
  size          : Nat
  alignment     : Nat

structure StructType where
  fields     : List StructField
  monomorphs : List StructMonomorph

structure ProcedureMonomorph where
  concrete_type : ConcreteType

structure FunctionArgument where
  identifier  : Identifier
  parser_type : ParserType

structure FunctionType where
  return_types : List ParserType
  arguments    : List FunctionArgument
  monomorphs   : List ProcedureMonomorph

structure ComponentType where
  arguments  : List FunctionArgument
  monomorphs : List ProcedureMonomorph

inductive DefinedTypeVariant
  | enum (definition : EnumType)
  | union (definition : UnionType)
  | struct (definition : StructType)
  | function (definition : FunctionType)
  | component (definition : ComponentType)

-- The definition of a type with the monomorphs of it that have been encountered.
structure DefinedType where
  ast_root       : Option RootId
  ast_definition : DefinitionId
  definition     : DefinedTypeVariant
  poly_vars      : List PolymorphicVariable
  is_polymorph   : Bool

namespace DefinedType

def is_data_type (type : DefinedType) : Bool :=
  match type.definition with
  | .enum _ | .union _ | .struct _ => true
  | .function _ | .component _ => false

def is_union (type : DefinedType) : Bool :=
  match type.definition with
  | .union _ => true
  | _ => false

def num_monomorphs (type : DefinedType) : Nat :=
  match type.definition with
  | .enum definition => definition.monomorphs.length
  | .union definition => definition.monomorphs.length
  | .struct definition => definition.monomorphs.length
  | .function definition => definition.monomorphs.length
  | .component definition => definition.monomorphs.length

def is_var_used (type : DefinedType) (section_idx : Nat) : Bool :=
  (type.poly_vars[section_idx]?.map PolymorphicVariable.is_in_use).getD false

-- Compares two types, while disregarding the polymorphic variables that are not in use.
def concrete_types_match (type : DefinedType) (type_a type_b : ConcreteType)
    (check_if_poly_var_is_used : Bool) : Bool :=
  (type_a.embedded_iter.zip type_b.embedded_iter).zipIdx.all fun ((a_section, b_section), section_idx) =>
    (check_if_poly_var_is_used && !type.is_var_used section_idx) || a_section = b_section

-- The index at which a monomorph occurs. An enum is never a true polymorph.
def get_monomorph_index (type : DefinedType) (concrete_type : ConcreteType) : Option Nat :=
  match type.definition with
  | .enum definition => if definition.monomorphs.isEmpty then none else some 0
  | .union definition =>
    definition.monomorphs.findIdx? (type.concrete_types_match ·.concrete_type concrete_type true)
  | .struct definition =>
    definition.monomorphs.findIdx? (type.concrete_types_match ·.concrete_type concrete_type true)
  | .function definition =>
    definition.monomorphs.findIdx? (type.concrete_types_match ·.concrete_type concrete_type false)
  | .component definition =>
    definition.monomorphs.findIdx? (type.concrete_types_match ·.concrete_type concrete_type false)

-- The size and the alignment of a monomorph if it has been laid out in memory. Even a type of size
-- zero has an alignment.
def get_monomorph_size_alignment (type : DefinedType) (idx : Nat) : Except Stop (Option (Nat × Nat)) :=
  let size_alignment :=
    match type.definition with
    | .enum definition => some (definition.size, definition.alignment)
    | .union definition => definition.monomorphs[idx]?.map fun mono => (mono.stack_size, mono.stack_alignment)
    | .struct definition => definition.monomorphs[idx]?.map fun mono => (mono.size, mono.alignment)
    | .function _ | .component _ => none
  match size_alignment with
  | none => .error .panic
  | some (size, alignment) =>
    if size = 0 ∧ alignment = 0 then .ok none else .ok (some (size, alignment))

end DefinedType

structure TypeLoopBreadcrumb where
  definition_id : DefinitionId
  monomorph_idx : Nat
  next_member   : Nat
  next_embedded : Nat -- for unions, the index into the variant's embedded types
deriving DecidableEq

structure MemoryBreadcrumb where
  definition_id            : DefinitionId
  monomorph_idx            : Nat
  next_member              : Nat
  next_embedded            : Nat
  first_size_alignment_idx : Nat
deriving DecidableEq

structure TypeLoopEntry where
  definition_id : DefinitionId
  monomorph_idx : Nat
  is_union      : Bool
deriving DecidableEq

structure TypeLoop where
  members : List TypeLoopEntry
deriving DecidableEq

-- The definitions are added to the table in the order of their ids, so that they are looked up by
-- their positions.
structure TypeTable where
  lookup                    : List DefinedType
  type_loop_breadcrumbs     : List TypeLoopBreadcrumb
  type_loops                : List TypeLoop
  encountered_types         : List TypeLoopEntry
  memory_layout_breadcrumbs : List MemoryBreadcrumb
  size_alignment_stack      : List (Nat × Nat)

def TypeTable.new : TypeTable := ⟨[], [], [], [], [], []⟩

-- The tag type of a union or an enum, and the size of that type in bytes.
def variant_tag_type_from_values (min_val max_val : Int) : ConcreteType × Nat :=
  if 0 ≤ min_val then
    if max_val ≤ 2 ^ 8 - 1 then ([.uint8], 1)
    else if max_val ≤ 2 ^ 16 - 1 then ([.uint16], 2)
    else if max_val ≤ 2 ^ 32 - 1 then ([.uint32], 4)
    else ([.uint64], 8)
  else
    if -2 ^ 7 ≤ min_val ∧ max_val ≤ 2 ^ 7 - 1 then ([.sint8], 1)
    else if -2 ^ 15 ≤ min_val ∧ max_val ≤ 2 ^ 15 - 1 then ([.sint16], 2)
    else if -2 ^ 31 ≤ min_val ∧ max_val ≤ 2 ^ 31 - 1 then ([.sint32], 4)
    else ([.sint64], 8)

def create_polymorphic_variables (identifiers : List Identifier) : List PolymorphicVariable :=
  identifiers.map (⟨·, false⟩)

def mark_used_polymorphic_variables (poly_vars : List PolymorphicVariable) (parser_type : ParserType) :
    List PolymorphicVariable :=
  parser_type.foldl
    (fun poly_vars element =>
      match element with
      | .polymorphicArgument _ idx => poly_vars.modify idx ({ · with is_in_use := true })
      | _ => poly_vars)
    poly_vars

namespace Heap

-- Whether a field of a struct, an embedded type of a union or a parameter may be of a type.
def check_member_parser_type (heap : Heap) (member_parser_type : ParserType)
    (allow_special_compiler_types : Bool) : Except Stop Unit :=
  match member_parser_type with
  | [] => .ok ()
  | element :: member_parser_type =>
    match element with
    | .void | .inputOrOutput | .arrayLike | .integerLike =>
      if allow_special_compiler_types then
        heap.check_member_parser_type member_parser_type allow_special_compiler_types
      else
        .error .panic
    | .integerLiteral | .inferred => .error .panic
    | .definition definition_id _ =>
      match heap.definitions[definition_id]?.map Definition.variant with
      | some (.enum _) | some (.union _) | some (.struct _) =>
        heap.check_member_parser_type member_parser_type allow_special_compiler_types
      | some _ => .error (.parse_error ⟨["expected a datatype (a struct, enum or union)"]⟩)
      | none => .error .panic
    | _ => heap.check_member_parser_type member_parser_type allow_special_compiler_types

end Heap

-- All identifiers have to be different.
def check_identifier_collision (items : List Identifier) (item_name : String) : Except Stop Unit :=
  if items.Nodup then
    .ok ()
  else
    .error (.parse_error ⟨["This " ++ item_name ++ " is defined more than once",
      "The other " ++ item_name ++ " is defined here"]⟩)

-- Polymorphic arguments have to be different, from each other and from the symbols that are defined or
-- imported in the module.
def check_poly_args_collision (symbols : SymbolTable) (root_id : Option RootId)
    (earlier : List Identifier) : (poly_args : List Identifier) → Except Stop Unit
  | [] => .ok ()
  | poly_arg :: poly_args =>
    if poly_arg ∈ earlier then
      .error (.parse_error ⟨["This polymorphic argument is defined more than once",
        "It conflicts with this polymorphic argument"]⟩)
    else if (root_id.bind fun root_id => symbols.get_symbol_by_name (.module root_id) poly_arg).isSome then
      .error (.parse_error ⟨["This polymorphic argument conflicts with another symbol",
        "It conflicts due to this symbol"]⟩)
    else
      check_poly_args_collision symbols root_id (earlier ++ [poly_arg]) poly_args

-- A variant without an explicit value comes behind the one before it.
def build_enum_variants : (enum_value : Int) → List EnumVariantDefinition → Except Stop (List EnumVariant)
  | _, [] => .ok []
  | enum_value, variant :: variants => do
    if enum_value = 2 ^ 63 - 1 then
      .error (.parse_error ⟨["this enum variant has an integer value that is too large"]⟩)
    else
      let enum_value := variant.value.getD (enum_value + 1)
      let built ← build_enum_variants enum_value variants
      .ok (⟨variant.identifier, enum_value⟩ :: built)

def build_union_variants : (tag_counter : Int) → List UnionVariantDefinition → List UnionVariant
  | _, [] => []
  | tag_counter, variant :: variants =>
    ⟨variant.identifier, variant.value, tag_counter⟩ :: build_union_variants (tag_counter + 1) variants

namespace Heap

variable (heap : Heap) (symbols : SymbolTable)

def build_base_enum_definition (definition_id : DefinitionId) (definition : Definition)
    (variants : List EnumVariantDefinition) : Except Stop DefinedType := do
  let variants ← build_enum_variants (-1) variants
  let values := variants.map EnumVariant.value
  let min_enum_value := values.tail.foldl min (values.headD 0)
  let max_enum_value := values.tail.foldl max (values.headD 0)
  let (tag_type, size_and_alignment) := variant_tag_type_from_values min_enum_value max_enum_value
  check_identifier_collision (variants.map EnumVariant.identifier) "enum variant"
  check_poly_args_collision symbols definition.defined_in [] definition.poly_vars
  .ok {
    ast_root       := definition.defined_in
    ast_definition := definition_id
    definition     := .enum {
      variants
      monomorphs        := []
      minimum_tag_value := min_enum_value
      maximum_tag_value := max_enum_value
      tag_type
      size              := size_and_alignment
      alignment         := size_and_alignment
    }
    poly_vars      := create_polymorphic_variables definition.poly_vars
    is_polymorph   := false
  }

def check_member_parser_types (allow_special_compiler_types : Bool) : List ParserType → Except Stop Unit
  | [] => .ok ()
  | parser_type :: parser_types => do
    heap.check_member_parser_type parser_type allow_special_compiler_types
    check_member_parser_types allow_special_compiler_types parser_types

def build_base_union_definition (definition_id : DefinitionId) (definition : Definition)
    (variants : List UnionVariantDefinition) : Except Stop DefinedType := do
  let embedded := variants.flatMap UnionVariantDefinition.value
  heap.check_member_parser_types false embedded
  let variants := build_union_variants 0 variants
  let (tag_type, tag_size) := variant_tag_type_from_values 0 (variants.length - 1 : Nat)
  check_identifier_collision (variants.map UnionVariant.identifier) "union variant"
  check_poly_args_collision symbols definition.defined_in [] definition.poly_vars
  let poly_vars :=
    embedded.foldl mark_used_polymorphic_variables (create_polymorphic_variables definition.poly_vars)
  .ok {
    ast_root       := definition.defined_in
    ast_definition := definition_id
    definition     := .union { variants, monomorphs := [], tag_type, tag_size }
    poly_vars
    is_polymorph   := poly_vars.any PolymorphicVariable.is_in_use
  }

def build_base_struct_definition (definition_id : DefinitionId) (definition : Definition)
    (fields : List StructFieldDefinition) : Except Stop DefinedType := do
  heap.check_member_parser_types false (fields.map StructFieldDefinition.parser_type)
  check_identifier_collision (fields.map StructFieldDefinition.field) "struct field"
  check_poly_args_collision symbols definition.defined_in [] definition.poly_vars
  let poly_vars :=
    (fields.map StructFieldDefinition.parser_type).foldl mark_used_polymorphic_variables
      (create_polymorphic_variables definition.poly_vars)
  .ok {
    ast_root       := definition.defined_in
    ast_definition := definition_id
    definition     := .struct {
      fields     := fields.map fun field => ⟨field.field, field.parser_type⟩
      monomorphs := []
    }
    poly_vars
    is_polymorph   := poly_vars.any PolymorphicVariable.is_in_use
  }

def build_base_function_definition (definition_id : DefinitionId) (definition : Definition)
    (return_types : List ParserType) (parameters : List Parameter) (builtin : Bool) :
    Except Stop DefinedType := do
  heap.check_member_parser_types builtin return_types
  heap.check_member_parser_types builtin (parameters.map Parameter.parser_type)
  check_identifier_collision (parameters.map Parameter.identifier) "function argument"
  check_poly_args_collision symbols definition.defined_in [] definition.poly_vars
  let poly_vars :=
    (return_types ++ parameters.map Parameter.parser_type).foldl mark_used_polymorphic_variables
      (create_polymorphic_variables definition.poly_vars)
  .ok {
    ast_root       := definition.defined_in
    ast_definition := definition_id
    definition     := .function {
      return_types
      arguments  := parameters.map fun parameter => ⟨parameter.identifier, parameter.parser_type⟩
      monomorphs := []
    }
    poly_vars
    is_polymorph   := poly_vars.any PolymorphicVariable.is_in_use
  }

def build_base_component_definition (definition_id : DefinitionId) (definition : Definition)
    (parameters : List Parameter) : Except Stop DefinedType := do
  heap.check_member_parser_types false (parameters.map Parameter.parser_type)
  check_identifier_collision (parameters.map Parameter.identifier) "connector argument"
  check_poly_args_collision symbols definition.defined_in [] definition.poly_vars
  let poly_vars :=
    (parameters.map Parameter.parser_type).foldl mark_used_polymorphic_variables
      (create_polymorphic_variables definition.poly_vars)
  .ok {
    ast_root       := definition.defined_in
    ast_definition := definition_id
    definition     := .component {
      arguments  := parameters.map fun parameter => ⟨parameter.identifier, parameter.parser_type⟩
      monomorphs := []
    }
    poly_vars
    is_polymorph   := poly_vars.any PolymorphicVariable.is_in_use
  }

def build_base_definition (definition_id : DefinitionId) (definition : Definition) :
    Except Stop DefinedType :=
  match definition.variant with
  | .enum variants => build_base_enum_definition symbols definition_id definition variants
  | .union variants => heap.build_base_union_definition symbols definition_id definition variants
  | .struct fields => heap.build_base_struct_definition symbols definition_id definition fields
  | .function return_types parameters builtin =>
    heap.build_base_function_definition symbols definition_id definition return_types parameters builtin
  | .component parameters =>
    heap.build_base_component_definition symbols definition_id definition parameters

def build_base_definitions : (definition_id : DefinitionId) → List Definition →
    Except Stop (List DefinedType)
  | _, [] => .ok []
  | definition_id, definition :: definitions => do
    let type ← heap.build_base_definition symbols definition_id definition
    let types ← build_base_definitions (definition_id + 1) definitions
    .ok (type :: types)

end Heap

-- Reserves a monomorph of a procedure, which is type checked later.
def TypeTable.reserve_procedure_monomorph_index (table : TypeTable) (definition_id : DefinitionId)
    (concrete_type : ConcreteType) : Except Stop (TypeTable × Nat) :=
  match table.lookup[definition_id]? with
  | none => .error .panic
  | some type =>
    match type.definition with
    | .function definition =>
      let monomorphs := definition.monomorphs ++ [⟨concrete_type⟩]
      let type := { type with definition := .function { definition with monomorphs } }
      .ok ({ table with lookup := table.lookup.set definition_id type }, definition.monomorphs.length)
    | .component definition =>
      let monomorphs := definition.monomorphs ++ [⟨concrete_type⟩]
      let type := { type with definition := .component { definition with monomorphs } }
      .ok ({ table with lookup := table.lookup.set definition_id type }, definition.monomorphs.length)
    | _ => .error .panic

end Reowolf.Types
