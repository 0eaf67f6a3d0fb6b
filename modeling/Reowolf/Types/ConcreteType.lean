import Reowolf.Parser.ParserType

namespace Reowolf.Types

open Reowolf.Parser (ParserTypeVariant)

inductive ConcreteTypePart
  -- Special types (cannot be explicitly constructed by the programmer)
  | void
  -- Builtin types without nested types
  | message
  | bool
  | uint8
  | uint16
  | uint32
  | uint64
  | sint8
  | sint16
  | sint32
  | sint64
  | character
  | string
  -- Builtin types with one nested type
  | array
  | slice
  | input
  | output
  -- User defined type with any number of nested types
  | «instance» (definition_id : DefinitionId) (num_embedded : Nat)
  | function (definition_id : DefinitionId) (num_embedded : Nat)
  | component (definition_id : DefinitionId) (num_embedded : Nat)
deriving DecidableEq

namespace ConcreteTypePart

def num_embedded : ConcreteTypePart → Nat
  | array | slice | input | output => 1
  | «instance» _ num_embedded | function _ num_embedded | component _ num_embedded => num_embedded
  | _ => 0

def definition_id : ConcreteTypePart → Option DefinitionId
  | «instance» definition_id _ | function definition_id _ | component definition_id _ =>
    some definition_id
  | _ => none

end ConcreteTypePart

-- A type in front of the types that are its arguments.
abbrev ConcreteType := List ConcreteTypePart

namespace ConcreteType

-- The number of parts that belong to a subtree. A type has all of its arguments, so the walk ends
-- before the parts do.
def subtree_len : (depth : Nat) → ConcreteType → Nat
  | _, [] => 0
  | depth, part :: parts =>
    if depth + part.num_embedded - 1 = 0 then
      1
    else
      subtree_len (depth + part.num_embedded - 1) parts + 1

def subtrees : (num_embedded : Nat) → ConcreteType → List ConcreteType
  | 0, _ => []
  | num_embedded + 1, parts =>
    parts.take (subtree_len 1 parts) :: subtrees num_embedded (parts.drop (subtree_len 1 parts))

-- The type arguments.
def embedded_iter : ConcreteType → List ConcreteType
  | [] => []
  | part :: parts => subtrees part.num_embedded parts

-- The arguments of a definition but for one of them, which the source leaves out.
def display_args (display_part : ConcreteType → String × ConcreteType) :
    (num_poly_args : Nat) → ConcreteType → String × ConcreteType
  | 0, parts | 1, parts => ("", parts)
  | num_poly_args + 2, parts =>
    let (name, parts) := display_part parts
    let (names, parts) := display_args display_part (num_poly_args + 1) parts
    ("," ++ name ++ names, parts)

-- The name of the first subtree, and the parts behind it.
def display_part (identifier : DefinitionId → Identifier) :
    (fuel : Nat) → ConcreteType → String × ConcreteType
  | 0, parts => ("", parts)
  | _ + 1, [] => ("", [])
  | fuel + 1, part :: parts =>
    match part with
    | .void => ("void", parts)
    | .message => ("msg", parts)
    | .bool => ("bool", parts)
    | .uint8 => ("u8", parts)
    | .uint16 => ("u16", parts)
    | .uint32 => ("u32", parts)
    | .uint64 => ("u64", parts)
    | .sint8 => ("s8", parts)
    | .sint16 => ("s16", parts)
    | .sint32 => ("s32", parts)
    | .sint64 => ("s64", parts)
    | .character => ("char", parts)
    | .string => ("string", parts)
    | .array | .slice =>
      let (name, parts) := display_part identifier fuel parts
      (name ++ "[]", parts)
    | .input =>
      let (name, parts) := display_part identifier fuel parts
      ("in<" ++ name ++ ">", parts)
    | .output =>
      let (name, parts) := display_part identifier fuel parts
      ("out<" ++ name ++ ">", parts)
    | .«instance» definition_id num_poly_args | .function definition_id num_poly_args
    | .component definition_id num_poly_args =>
      if num_poly_args = 0 then
        (identifier definition_id, parts)
      else
        let (names, parts) := display_args (display_part identifier fuel) num_poly_args parts
        (identifier definition_id ++ "<" ++ names ++ ">", parts)

def display_name (identifier : DefinitionId → Identifier) (concrete_type : ConcreteType) : String :=
  (display_part identifier concrete_type.length concrete_type).fst

end ConcreteType

abbrev ParserType := List ParserTypeVariant

def parser_to_concrete_part : ParserTypeVariant → Option ConcreteTypePart
  | .message => some .message
  | .bool => some .bool
  | .uint8 => some .uint8
  | .uint16 => some .uint16
  | .uint32 => some .uint32
  | .uint64 => some .uint64
  | .sint8 => some .sint8
  | .sint16 => some .sint16
  | .sint32 => some .sint32
  | .sint64 => some .sint64
  | .void => some .void
  | .character => some .character
  | .string => some .string
  | .array => some .array
  | .input => some .input
  | .output => some .output
  | .definition definition_id num => some (.«instance» definition_id num)
  | _ => none

-- The type of a member of a container. Its polymorphic variables stand for the type arguments of the
-- container. There is no such type if the member is of a type that no member may be of.
def construct_concrete_type (member_type : ParserType) (container_type : ConcreteType) :
    Option ConcreteType :=
  match member_type with
  | [] => some []
  | member_part :: member_type =>
    match parser_to_concrete_part member_part, member_part with
    | some part, _ => (construct_concrete_type member_type container_type).map (part :: ·)
    | none, .polymorphicArgument _ poly_arg_idx => do
      let poly_section ← container_type.embedded_iter[poly_arg_idx]?
      (construct_concrete_type member_type container_type).map (poly_section ++ ·)
    | none, _ => none

end Reowolf.Types
