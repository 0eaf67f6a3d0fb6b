import Reowolf.Protocol.Store

namespace Reowolf

-- The operators on two integers of one type that give an integer of that type.
inductive IntOp
  | mul
  | div
  | rem
  | add
  | sub
  | shl
  | shr
  | and
  | xor
  | or
deriving DecidableEq

namespace IntegerType

variable {type : IntegerType}

-- The result of an operator that may overflow.
def checked (build : Build) (type : IntegerType) (exact : Int) : Except Fault (Integer type) :=
  if build.overflow_checks ∧ ¬(type.min ≤ exact ∧ exact ≤ type.max) then .error .arithmetic
  else .ok (BitVec.ofInt type.bits exact)

-- The number of places to shift by: a number that is not below the width is an overflow, and is
-- masked where overflows are not checked.
def shift_amount (build : Build) (rhs : Integer type) : Except Fault Nat :=
  if build.overflow_checks ∧ ¬(0 ≤ toInt rhs ∧ toInt rhs < type.bits) then .error .arithmetic
  else .ok (rhs.toNat % type.bits)

def apply (build : Build) (op : IntOp) (lhs rhs : Integer type) : Except Fault (Integer type) :=
  match op with
  | .mul => checked build type (toInt lhs * toInt rhs)
  | .add => checked build type (toInt lhs + toInt rhs)
  | .sub => checked build type (toInt lhs - toInt rhs)
  | .div =>
    if toInt rhs = 0 ∨ (toInt lhs = type.min ∧ toInt rhs = -1) then .error .arithmetic
    else .ok (BitVec.ofInt type.bits ((toInt lhs).tdiv (toInt rhs)))
  | .rem =>
    if toInt rhs = 0 ∨ (toInt lhs = type.min ∧ toInt rhs = -1) then .error .arithmetic
    else .ok (BitVec.ofInt type.bits ((toInt lhs).tmod (toInt rhs)))
  | .shl => do
    let amount ← shift_amount build rhs
    .ok (lhs <<< amount)
  | .shr => do
    let amount ← shift_amount build rhs
    .ok (if type.signed then lhs.sshiftRight amount else lhs >>> amount)
  | .and => .ok (lhs &&& rhs)
  | .xor => .ok (lhs ^^^ rhs)
  | .or  => .ok (lhs ||| rhs)

end IntegerType

def apply_int_op_and_return_self (build : Build) (op : IntOp) (lhs rhs : Value) :
    Except Fault Value :=
  match lhs with
  | .integer type lhs => do
    let rhs ← rhs.as_integer type
    let value ← IntegerType.apply build op lhs rhs
    .ok (.integer type value)
  | _ => .error .unreachable

def apply_int_op_and_return_bool (op : Int → Int → Bool) (lhs rhs : Value) : Except Fault Value :=
  match lhs with
  | .integer type lhs => do
    let rhs ← rhs.as_integer type
    .ok (.bool (op (IntegerType.toInt lhs) (IntegerType.toInt rhs)))
  | _ => .error .unreachable

-- What `=` writes over a value, and the region that the written value replaces.
def assign_set (lhs rhs : Value) : Except Fault (Value × Option HeapPos) :=
  match lhs with
  | .unassigned     => .ok (rhs, none)
  | .input _        => do .ok (.input (← rhs.as_input), none)
  | .output _       => do .ok (.output (← rhs.as_output), none)
  | .message pos    => do .ok (.message (← rhs.as_message), some pos)
  | .bool _         => do .ok (.bool (← rhs.as_bool), none)
  | .char _         => do .ok (.char (← rhs.as_char), none)
  | .string _       => do .ok (.string (← rhs.as_string), none)
  | .integer type _ => do .ok (.integer type (← rhs.as_integer type), none)
  | .array pos      => do .ok (.array (← rhs.as_array), some pos)
  | .enum _         => do .ok (.enum (← rhs.as_enum), none)
  | .union _ pos    => do
    let (rhs_tag, rhs_heap_pos) ← rhs.as_union
    .ok (.union rhs_tag rhs_heap_pos, some pos)
  | .struct pos     => do .ok (.struct (← rhs.as_struct), some pos)
  | _               => .error .unreachable

def unwrap_heap_pos (value : Value) : Except Fault HeapPos :=
  match value.get_heap_pos with
  | some pos => .ok pos
  | none     => .error .unwrap

-- Clones the values of a region with the given indices behind the values collected so far.
def clone_onto (source : HeapPos) :
    List Nat → List Value → Store → Except Fault (List Value × Store)
  | [], total, store => .ok (total, store)
  | idx :: idxs, total, store => do
    let value ← store.read_region source idx
    let (cloned, store) ← store.clone_value value
    clone_onto source idxs (total ++ [cloned]) store

def assign_concatenated (store : Store) (lhs rhs : Value) : Except Fault Store := do
  let lhs_heap_pos ← unwrap_heap_pos lhs
  let rhs_heap_pos ← unwrap_heap_pos rhs
  -- The region of the left hand side is swapped with an empty one while it is being extended.
  let total ← store.region lhs_heap_pos
  let store := store.set_region lhs_heap_pos []
  let rhs_values ← store.region rhs_heap_pos
  let (total, store) ← clone_onto rhs_heap_pos (List.range rhs_values.length) total store
  let store := store.set_region lhs_heap_pos total
  store.drop_heap_pos rhs_heap_pos

def AssignmentOperator.int_op : AssignmentOperator → Option IntOp
  | set | concatenated => none
  | multiplied         => some .mul
  | divided            => some .div
  | remained           => some .rem
  | added              => some .add
  | subtracted         => some .sub
  | shiftedLeft        => some .shl
  | shiftedRight       => some .shr
  | bitwiseAnded       => some .and
  | bitwiseXored       => some .xor
  | bitwiseOred        => some .or

def apply_assignment_operator (build : Build) (store : Store) (to_id : ValueId)
    (op : AssignmentOperator) (rhs : Value) : Except Fault Store := do
  let lhs ← store.read_ref to_id
  match op with
  | .set =>
    let (value, to_dealloc) ← assign_set lhs rhs
    (store.overwrite value to_id).drop_value to_dealloc
  | .concatenated => assign_concatenated store lhs rhs
  | op =>
    match op.int_op with
    | some int_op =>
      let value ← apply_int_op_and_return_self build int_op lhs rhs
      .ok (store.overwrite value to_id)
    | none => .error .unreachable

-- Compares the values of two regions with the given indices, until two of them differ.
def equal_elements (eq : Value → Value → Except Fault Bool) :
    List (Value × Value) → Except Fault Bool
  | [] => .ok true
  | (lhs, rhs) :: rest => do
    if ← eq lhs rhs then equal_elements eq rest else .ok false

def equal_heap (store : Store) (eq : Value → Value → Except Fault Bool) (lhs_pos rhs_pos : HeapPos) :
    Except Fault Bool := do
  let lhs_vals ← store.region lhs_pos
  let rhs_vals ← store.region rhs_pos
  if lhs_vals.length ≠ rhs_vals.length then .ok false
  else equal_elements eq (lhs_vals.zip rhs_vals)

def apply_equality_operator_at (store : Store) : Nat → Value → Value → Except Fault Bool
  | 0, _, _ => .error .recursion
  | depth + 1, lhs, rhs => do
    let lhs ← store.maybe_read_ref lhs
    let rhs ← store.maybe_read_ref rhs
    let equal_heap := equal_heap store (apply_equality_operator_at store depth)
    match lhs with
    | .input v        => .ok (v = (← rhs.as_input))
    | .output v       => .ok (v = (← rhs.as_output))
    | .message v      => equal_heap v (← rhs.as_message)
    | .null           => .error .todo
    | .bool v         => .ok (v = (← rhs.as_bool))
    | .char v         => .ok (v = (← rhs.as_char))
    | .string v       => equal_heap v (← rhs.as_string)
    | .integer type v => .ok (v = (← rhs.as_integer type))
    | .array v        => equal_heap v (← rhs.as_array)
    | .enum v         => .ok (v = (← rhs.as_enum))
    | .union tag v    =>
      let (rhs_tag, rhs_pos) ← rhs.as_union
      if tag ≠ rhs_tag then .ok false else equal_heap v rhs_pos
    | .struct v       => equal_heap v (← rhs.as_struct)
    | _               => .error .unreachable

def apply_equality_operator (store : Store) (lhs rhs : Value) : Except Fault Bool :=
  apply_equality_operator_at store store.depth lhs rhs

def unequal_elements (ne : Value → Value → Except Fault Bool) :
    List (Value × Value) → Except Fault Bool
  | [] => .ok false
  | (lhs, rhs) :: rest => do
    if ← ne lhs rhs then .ok true else unequal_elements ne rest

def unequal_heap (store : Store) (ne : Value → Value → Except Fault Bool)
    (lhs_pos rhs_pos : HeapPos) : Except Fault Bool := do
  let lhs_vals ← store.region lhs_pos
  let rhs_vals ← store.region rhs_pos
  if lhs_vals.length ≠ rhs_vals.length then .ok true
  else unequal_elements ne (lhs_vals.zip rhs_vals)

def apply_inequality_operator_at (store : Store) : Nat → Value → Value → Except Fault Bool
  | 0, _, _ => .error .recursion
  | depth + 1, lhs, rhs => do
    let lhs ← store.maybe_read_ref lhs
    let rhs ← store.maybe_read_ref rhs
    let unequal_heap := unequal_heap store (apply_inequality_operator_at store depth)
    match lhs with
    | .input v        => .ok (v ≠ (← rhs.as_input))
    | .output v       => .ok (v ≠ (← rhs.as_output))
    | .message v      => unequal_heap v (← rhs.as_message)
    | .null           => .error .todo
    | .bool v         => .ok (v ≠ (← rhs.as_bool))
    | .char v         => .ok (v ≠ (← rhs.as_char))
    | .string v       => unequal_heap v (← rhs.as_string)
    | .integer type v => .ok (v ≠ (← rhs.as_integer type))
    | .array v        => unequal_heap v (← rhs.as_array)
    | .enum v         => .ok (v ≠ (← rhs.as_enum))
    | .union tag v    =>
      let (rhs_tag, rhs_pos) ← rhs.as_union
      if tag ≠ rhs_tag then .ok true else unequal_heap v rhs_pos
    | .struct v       => unequal_heap v (← rhs.as_struct)
    | _               => .error .unreachable

def apply_inequality_operator (store : Store) (lhs rhs : Value) : Except Fault Bool :=
  apply_inequality_operator_at store store.depth lhs rhs

-- Binds the values of two regions with the given indices, until two of them do not match.
def bind_elements (bind : Store → Value → Value → Except Fault (Bool × Store))
    (lhs_pos rhs_pos : HeapPos) : List Nat → Store → Except Fault (Bool × Store)
  | [], store => .ok (true, store)
  | idx :: idxs, store => do
    let lhs_val ← store.read_region lhs_pos idx
    let rhs_val ← store.read_region rhs_pos idx
    let (result, store) ← bind store lhs_val rhs_val
    if result then bind_elements bind lhs_pos rhs_pos idxs store else .ok (false, store)

def bind_heap (bind : Store → Value → Value → Except Fault (Bool × Store)) (store : Store)
    (lhs_pos rhs_pos : HeapPos) : Except Fault (Bool × Store) := do
  let lhs_len := (← store.region lhs_pos).length
  let rhs_len := (← store.region rhs_pos).length
  if lhs_len ≠ rhs_len then .ok (false, store)
  else bind_elements bind lhs_pos rhs_pos (List.range lhs_len) store

def apply_binding_operator_at : Nat → Store → Value → Value → Except Fault (Bool × Store)
  | 0, _, _, _ => .error .recursion
  | depth + 1, store, lhs, rhs => do
    let lhs ← store.maybe_read_ref lhs
    let rhs ← store.maybe_read_ref rhs
    let bind_heap := bind_heap (apply_binding_operator_at depth) store
    match lhs with
    | .binding var_pos =>
      let (to_write, store) ← store.clone_value rhs
      let store ← store.write (.stack var_pos) to_write
      .ok (true, store)
    | .input v        => .ok (v = (← rhs.as_input), store)
    | .output v       => .ok (v = (← rhs.as_output), store)
    | .message v      => bind_heap v (← rhs.as_message)
    | .null           => .error .todo
    | .bool v         => .ok (v = (← rhs.as_bool), store)
    | .char v         => .ok (v = (← rhs.as_char), store)
    | .string v       => bind_heap v (← rhs.as_string)
    | .integer type v => .ok (v = (← rhs.as_integer type), store)
    | .array v        => bind_heap v (← rhs.as_array)
    | .enum v         => .ok (v = (← rhs.as_enum), store)
    | .union tag v    =>
      let (rhs_tag, rhs_pos) ← rhs.as_union
      if tag ≠ rhs_tag then .ok (false, store) else bind_heap v rhs_pos
    | .struct v       => bind_heap v (← rhs.as_struct)
    | _               => .error .unreachable

def apply_binding_operator (store : Store) (lhs rhs : Value) : Except Fault (Bool × Store) :=
  apply_binding_operator_at store.depth store lhs rhs

-- The two regions of a concatenation.
def concatenated_regions : Value → Value → Except Fault (HeapPos × HeapPos)
  | .message lhs, rhs => do .ok (lhs, ← rhs.as_message)
  | .string lhs, rhs  => do .ok (lhs, ← rhs.as_string)
  | .array lhs, rhs   => do .ok (lhs, ← rhs.as_array)
  | _, _              => .error .unreachable

def apply_concatenate (store : Store) (lhs rhs : Value) : Except Fault (Value × Store) := do
  let (target, store) := store.alloc_heap
  let lhs ← store.maybe_read_ref lhs
  let rhs ← store.maybe_read_ref rhs
  let (lhs_pos, rhs_pos) ← concatenated_regions lhs rhs
  let lhs_len := (← store.region lhs_pos).length
  let rhs_len := (← store.region rhs_pos).length
  let (concatenated, store) ← clone_onto lhs_pos (List.range lhs_len) [] store
  let (concatenated, store) ← clone_onto rhs_pos (List.range rhs_len) concatenated store
  .ok (lhs.with_heap_pos target, store.set_region target concatenated)

-- The operators that leave the store as it is.
def apply_pure_binary_operator (build : Build) (store : Store) (lhs : Value) (op : BinaryOperator)
    (rhs : Value) : Except Fault Value := do
  let lhs ← store.maybe_read_ref lhs
  let rhs ← store.maybe_read_ref rhs
  match op with
  | .concatenate      => .error .unreachable
  | .logicalOr        => if ← lhs.as_bool then .ok (.bool true) else .ok (.bool (← rhs.as_bool))
  | .logicalAnd       => if ← lhs.as_bool then .ok (.bool (← rhs.as_bool)) else .ok (.bool false)
  | .bitwiseOr        => apply_int_op_and_return_self build .or lhs rhs
  | .bitwiseXor       => apply_int_op_and_return_self build .xor lhs rhs
  | .bitwiseAnd       => apply_int_op_and_return_self build .and lhs rhs
  | .equality         => do .ok (.bool (← apply_equality_operator store lhs rhs))
  | .inequality       => do .ok (.bool (← apply_inequality_operator store lhs rhs))
  | .lessThan         => apply_int_op_and_return_bool (· < ·) lhs rhs
  | .greaterThan      => apply_int_op_and_return_bool (· > ·) lhs rhs
  | .lessThanEqual    => apply_int_op_and_return_bool (· ≤ ·) lhs rhs
  | .greaterThanEqual => apply_int_op_and_return_bool (· ≥ ·) lhs rhs
  | .shiftLeft        => apply_int_op_and_return_self build .shl lhs rhs
  | .shiftRight       => apply_int_op_and_return_self build .shr lhs rhs
  | .add              => apply_int_op_and_return_self build .add lhs rhs
  | .subtract         => apply_int_op_and_return_self build .sub lhs rhs
  | .multiply         => apply_int_op_and_return_self build .mul lhs rhs
  | .divide           => apply_int_op_and_return_self build .div lhs rhs
  | .remainder        => apply_int_op_and_return_self build .rem lhs rhs

def apply_binary_operator (build : Build) (store : Store) (lhs : Value) (op : BinaryOperator)
    (rhs : Value) : Except Fault (Value × Store) :=
  if op = .concatenate then apply_concatenate store lhs rhs
  else do .ok (← apply_pure_binary_operator build store lhs op rhs, store)

def apply_unary_operator (build : Build) (store : Store) (op : UnaryOperator) (value : Value) :
    Except Fault Value := do
  let value ← store.maybe_read_ref value
  match op with
  | .positive => .ok value
  | .negative =>
    match value with
    | .integer type v =>
      if type.signed then do
        .ok (.integer type (← IntegerType.checked build type (-IntegerType.toInt v)))
      else .error .unreachable
    | _ => .error .unreachable
  | .bitwiseNot =>
    match value with
    | .integer type v => .ok (.integer type (~~~v))
    | _               => .error .unreachable
  | .logicalNot => do .ok (.bool (!(← value.as_bool)))

-- Why a cast is refused.
def cast_error (value : Int) (target_type_name : String) : String :=
  "value is '" ++ toString value ++ "' which doesn't fit in a type '" ++ target_type_name ++ "'"

namespace IntegerType

-- `uN::MAX as T` and `iN::MAX as T`, as the bit pattern of `T`.
def max_as (type to_type : IntegerType) : Integer to_type := BitVec.ofInt to_type.bits type.max

def min_as (type to_type : IntegerType) : Integer to_type := BitVec.ofInt to_type.bits type.min

-- Whether an unsigned integer passes the range test for an integer type.
def fits_unsigned {type : IntegerType} (v : Integer type) (to_type : IntegerType) : Prop :=
  (to_type = ⟨false, .w64⟩) ∨ v.toNat ≤ (to_type.max_as type).toNat

-- Whether a signed integer passes the range test for an integer type. The masks are meant to make
-- up for a target that is wider than the input.
def fits_signed {type : IntegerType} (v : Integer type) (to_type : IntegerType) : Prop :=
  (to_type = ⟨true, .w64⟩) ∨
    (if to_type.signed then (to_type.min_as type ||| type.min_as type).toInt ≤ v.toInt
      else 0 ≤ v.toInt) ∧
    v.toInt ≤ (to_type.max_as type &&& type.max_as type).toInt

instance {type : IntegerType} (v : Integer type) (to_type) : Decidable (fits_unsigned v to_type) :=
  inferInstanceAs (Decidable (_ ∨ _))

instance {type : IntegerType} (v : Integer type) (to_type) : Decidable (fits_signed v to_type) :=
  inferInstanceAs (Decidable (_ ∨ _))

-- The largest value that a signed integer may have to become a character. The source writes
-- `u8::max`, the function, for `u8::MAX`.
def char_max (build : Build) (type : IntegerType) : Integer type :=
  build.u8_max_address.setWidth type.bits &&& type.max_as type

end IntegerType

def cast_integer (build : Build) (part : ConcreteTypePart) {type : IntegerType} (v : Integer type) :
    Except Fault (Except String Value) :=
  match part with
  | .bool => .ok (.ok (.bool (v ≠ 0)))
  | .character =>
    let fits := if type.signed then 0 ≤ v.toInt ∧ v.toInt ≤ (IntegerType.char_max build type).toInt
      else v.toNat ≤ (IntegerType.u8.max_as type).toNat
    if fits then .ok (.ok (.char (Char.ofNat (v.setWidth 8).toNat)))
    else .ok (.error (cast_error (IntegerType.toInt v) "char"))
  | .integer to_type =>
    let fits := if type.signed then IntegerType.fits_signed v to_type
      else IntegerType.fits_unsigned v to_type
    if fits then .ok (.ok (.integer to_type (IntegerType.cast to_type v)))
    else .ok (.error (cast_error (IntegerType.toInt v) to_type.name))
  | _ => .error .unreachable

-- `unchecked_cast`.
def unchecked_cast (part : ConcreteTypePart) (input : Nat) : Except Fault (Except String Value) :=
  match part with
  | .integer to_type => .ok (.ok (.integer to_type (BitVec.ofNat to_type.bits input)))
  | _                => .error .unreachable

def ConcreteTypePart.is_simple : ConcreteTypePart → Bool
  | bool | character | integer _ => true
  | _ => false

def apply_casting (build : Build) (store : Store) (output_type : ConcreteType) (subject : Value) :
    Except Fault (Except String Value × Store) :=
  match output_type with
  | [] => .error .index
  | part :: _ =>
    if ¬part.is_simple then do
      let (value, store) ← store.clone_value subject
      .ok (.ok value, store)
    else do
      let subject ← store.maybe_read_ref subject
      let result ← match subject with
        | .bool v =>
          match part with
          | .bool      => .ok (.ok (.bool v))
          | .character => .ok (.ok (.char (Char.ofNat 1)))
          | part       => unchecked_cast part v.toNat
        | .char v =>
          match part with
          | .bool      => .ok (.ok (.bool (v ≠ Char.ofNat 0)))
          | .character => .ok (.ok (.char v))
          | part       => unchecked_cast part v.toNat
        | .integer _ v => cast_integer build part v
        | _ => .error .unreachable
      .ok (result, store)

end Reowolf
