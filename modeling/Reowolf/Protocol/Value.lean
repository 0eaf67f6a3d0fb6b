import Mathlib.Algebra.Group.Int.Defs
import Reowolf.Protocol.Ast
import Reowolf.Runtime.Common

namespace Reowolf

-- What a step of the evaluator may end in instead of a result: an evaluation error, or one of the
-- ways of taking the host down.
inductive Fault
  | evalError (message : String)
  | accessor     -- a `Value::as_*` on a value of another kind
  | unreachable
  | todo
  | unwrap       -- of a `None`
  | index        -- out of the bounds of a vector or a deque
  | arithmetic   -- an overflow that is checked, a division by zero
  | assertion
  | recursion    -- out of stack, in a heap with a cycle
deriving DecidableEq

-- What the compiler settings and the memory layout decide: whether integer overflow panics, and the
-- address of the function `u8::max`.
structure Build where
  overflow_checks : Bool
  u8_max_address  : BitVec 64

inductive Width
  | w8
  | w16
  | w32
  | w64
deriving DecidableEq

def Width.bits : Width → Nat
  | w8  => 8
  | w16 => 16
  | w32 => 32
  | w64 => 64

structure IntegerType where
  signed : Bool
  width  : Width
deriving DecidableEq

abbrev IntegerType.bits (type : IntegerType) : Nat := type.width.bits

-- `KW_TYPE_UINT8_STR` and so on.
def IntegerType.name (type : IntegerType) : String :=
  (if type.signed then "s" else "u") ++ toString type.bits

abbrev IntegerType.u8 : IntegerType := ⟨false, .w8⟩

abbrev Integer (type : IntegerType) := BitVec type.bits

namespace IntegerType

variable {type : IntegerType}

def toInt (v : Integer type) : Int :=
  if type.signed then v.toInt else v.toNat

def min (type : IntegerType) : Int := if type.signed then -2 ^ (type.bits - 1) else 0

def max (type : IntegerType) : Int :=
  if type.signed then 2 ^ (type.bits - 1) - 1 else 2 ^ type.bits - 1

-- The cast with `as`.
def cast (to_type : IntegerType) (v : Integer type) : Integer to_type :=
  if type.signed then v.signExtend to_type.bits else v.setWidth to_type.bits

end IntegerType

abbrev StackPos := Nat
abbrev HeapPos  := Nat

inductive ValueId
  | stack (pos : StackPos)
  | heap (pos : HeapPos) (idx : Nat)
deriving DecidableEq

inductive Value
  | unassigned
  | prevStackBoundary (boundary : Int)
  | ref (id : ValueId)
  | binding (pos : StackPos)
  | input (port : PortId)
  | output (port : PortId)
  | message (pos : HeapPos)
  | null
  | bool (value : Bool)
  | char (value : Char)
  | string (pos : HeapPos)
  | integer (type : IntegerType) (value : Integer type)
  | array (pos : HeapPos)
  | enum (tag : Int)
  | union (tag : Int) (pos : HeapPos)
  | struct (pos : HeapPos)
deriving DecidableEq

namespace Value

def as_stack_boundary : Value → Except Fault Int
  | prevStackBoundary v => .ok v
  | _                   => .error .accessor

def as_ref : Value → Except Fault ValueId
  | ref v => .ok v
  | _     => .error .accessor

def as_input : Value → Except Fault PortId
  | input v => .ok v
  | _       => .error .accessor

def as_output : Value → Except Fault PortId
  | output v => .ok v
  | _        => .error .accessor

def as_message : Value → Except Fault HeapPos
  | message v => .ok v
  | _         => .error .accessor

def as_bool : Value → Except Fault Bool
  | bool v => .ok v
  | _      => .error .accessor

def as_char : Value → Except Fault Char
  | char v => .ok v
  | _      => .error .accessor

def as_string : Value → Except Fault HeapPos
  | string v => .ok v
  | _        => .error .accessor

-- `as_uint8` and so on.
def as_integer (type : IntegerType) : Value → Except Fault (Integer type)
  | integer t v => if h : t = type then .ok (h ▸ v) else .error .accessor
  | _           => .error .accessor

theorem as_integer_self {type : IntegerType} {v : Integer type} : (integer type v).as_integer type = .ok v :=
  dif_pos rfl

def as_array : Value → Except Fault HeapPos
  | array v => .ok v
  | _       => .error .accessor

def as_enum : Value → Except Fault Int
  | enum v => .ok v
  | _      => .error .accessor

def as_struct : Value → Except Fault HeapPos
  | struct v => .ok v
  | _        => .error .accessor

def as_union : Value → Except Fault (Int × HeapPos)
  | union tag v => .ok (tag, v)
  | _           => .error .accessor

-- `as_unsigned_integer` of an unsigned integer and `as_signed_integer` of a signed one.
def as_any_integer : Value → Except Fault Int
  | integer _ v => .ok (IntegerType.toInt v)
  | _           => .error .unreachable

-- The same, cast to an `i64`.
def as_index : Value → Except Fault Int
  | integer _ v => .ok (IntegerType.cast ⟨true, .w64⟩ v).toInt
  | _           => .error .unreachable

def is_signed_integer : Value → Bool
  | integer type _ => type.signed
  | _              => false

@[simp] def get_heap_pos : Value → Option HeapPos
  | message v | string v | array v | union _ v | struct v => some v
  | _ => none

-- A value of the same kind (and tag) that lives in another region.
@[simp] def with_heap_pos (pos : HeapPos) : Value → Value
  | message _   => message pos
  | string _    => string pos
  | array _     => array pos
  | union tag _ => union tag pos
  | struct _    => struct pos
  | value       => value

end Value

-- A type as the type table has it after monomorphisation: its parts in prefix order.
inductive ConcreteTypePart
  | void
  | message
  | bool
  | integer (type : IntegerType)
  | character
  | string
  | array
  | slice
  | input
  | output
  | instance (definition : DefinitionId) (num_embedded : Nat)
deriving DecidableEq

abbrev ConcreteType := List ConcreteTypePart

end Reowolf
