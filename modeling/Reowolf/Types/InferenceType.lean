import Mathlib.Data.List.Basic
import Reowolf.Types.ConcreteType

namespace Reowolf.Types

inductive InferenceTypePart
  -- In front of what was a polymorphic argument
  | marker (marker : Nat)
  -- Completely unknown type, needs to be inferred
  | unknown
  -- Partially known type, may be inferred to be the appropriate related type
  | numberLike
  | integerLike
  | arrayLike
  | portLike
  -- Special types that cannot be instantiated by the user
  | void
  -- Concrete types without subtypes
  | bool
  | uint8
  | uint16
  | uint32
  | uint64
  | sint8
  | sint16
  | sint32
  | sint64
  | character
  -- One subtype. For a string this is the type of its elements.
  | string
  | message
  | array
  | slice
  | input
  | output
  -- A user-defined type with any number of subtypes
  | «instance» (definition_id : DefinitionId) (num_args : Nat)
deriving DecidableEq

namespace InferenceTypePart

def is_marker : InferenceTypePart → Bool
  | marker _ => true
  | _ => false

def is_concrete : InferenceTypePart → Bool
  | unknown | numberLike | integerLike | arrayLike | portLike => false
  | _ => true

def is_concrete_number : InferenceTypePart → Bool
  | uint8 | uint16 | uint32 | uint64 | sint8 | sint16 | sint32 | sint64 => true
  | _ => false

def is_concrete_integer : InferenceTypePart → Bool
  | uint8 | uint16 | uint32 | uint64 | sint8 | sint16 | sint32 | sint64 => true
  | _ => false

def is_concrete_arraylike : InferenceTypePart → Bool
  | array | slice | string | message => true
  | _ => false

def is_concrete_port : InferenceTypePart → Bool
  | input | output => true
  | _ => false

-- Whether the part is less specific than the argument.
def may_be_inferred_from (part arg : InferenceTypePart) : Bool :=
  (part = integerLike && arg.is_concrete_integer) ||
  (part = numberLike && (arg.is_concrete_number || arg = integerLike)) ||
  (part = arrayLike && arg.is_concrete_arraylike) ||
  (part = portLike && arg.is_concrete_port)

-- The number of subtypes, less one.
def depth_change : InferenceTypePart → Int
  | unknown | numberLike | integerLike | void | bool | uint8 | uint16 | uint32 | uint64 | sint8
  | sint16 | sint32 | sint64 | character => -1
  | marker _ | arrayLike | message | array | slice | portLike | input | output | string => 0
  | «instance» _ num_args => num_args - 1

end InferenceTypePart

structure InferenceType where
  has_marker : Bool
  is_done    : Bool
  parts      : List InferenceTypePart
deriving DecidableEq

namespace InferenceType

def recompute_is_done (t : InferenceType) : InferenceType :=
  { t with is_done := t.parts.all (·.is_concrete) }

-- The walk over the parts behind the start. Running out of them means that the type is malformed.
def subtree_end : (depth : Int) → (idx : Nat) → List InferenceTypePart → Option Nat
  | _, _, [] => none
  | depth, idx, part :: parts =>
    if depth + part.depth_change = 0 then
      some (idx + 1)
    else
      subtree_end (depth + part.depth_change) (idx + 1) parts

def find_subtree_end_idx (parts : List InferenceTypePart) (start_idx : Nat) : Option Nat :=
  subtree_end 1 start_idx (parts.drop start_idx)

def replace_subtree (t : InferenceType) (start_idx : Nat) («with» : List InferenceTypePart) :
    Option InferenceType := do
  let end_idx ← find_subtree_end_idx t.parts start_idx
  return recompute_is_done
    { t with parts := t.parts.take start_idx ++ «with» ++ t.parts.drop end_idx }

-- The parts and indices after the inference of a part.
structure InferredPart where
  to_infer     : List InferenceTypePart
  to_infer_idx : Nat
  template_idx : Nat
  depth_change : Int

-- Inserts the parts but for the markers, one behind the other.
def insert_parts : List InferenceTypePart → Nat → List InferenceTypePart →
    List InferenceTypePart × Nat
  | to_infer, to_infer_idx, [] => (to_infer, to_infer_idx)
  | to_infer, to_infer_idx, part :: parts =>
    if part.is_marker then
      insert_parts to_infer to_infer_idx parts
    else
      insert_parts (to_infer.insertIdx to_infer_idx part) (to_infer_idx + 1) parts

-- There is no result at all if the source panics, and no inferred part if nothing can be inferred.
def infer_part_for_single_type (to_infer : List InferenceTypePart) (to_infer_idx : Nat)
    (template_parts : List InferenceTypePart) (template_idx : Nat) :
    Option (Option InferredPart) := do
  let to_infer_part ← to_infer[to_infer_idx]?
  let template_part ← template_parts[template_idx]?
  if to_infer_part.may_be_inferred_from template_part then
    return some {
      to_infer     := to_infer.set to_infer_idx template_part
      to_infer_idx := to_infer_idx + 1
      template_idx := template_idx + 1
      depth_change := to_infer_part.depth_change }
  else if to_infer_part = .unknown then
    let template_end_idx ← find_subtree_end_idx template_parts template_idx
    let (parts, idx) := insert_parts (to_infer.set to_infer_idx template_part) (to_infer_idx + 1)
      ((template_parts.take template_end_idx).drop (template_idx + 1))
    return some {
      to_infer     := parts
      to_infer_idx := idx
      template_idx := template_end_idx
      depth_change := -1 }
  else
    return none

-- The new indices and the change of the depth.
def check_part_for_single_type (to_check_parts : List InferenceTypePart) (to_check_idx : Nat)
    (template_parts : List InferenceTypePart) (template_idx : Nat) :
    Option (Option (Nat × Nat × Int)) := do
  let to_check_part ← to_check_parts[to_check_idx]?
  let template_part ← template_parts[template_idx]?
  if to_check_part.may_be_inferred_from template_part then
    return some (to_check_idx + 1, template_idx + 1, to_check_part.depth_change)
  else if to_check_part = .unknown then
    let template_end_idx ← find_subtree_end_idx template_parts template_idx
    return some (to_check_idx + 1, template_end_idx, -1)
  else
    return none

inductive DualInferenceResult
  | neither
  | first
  | second
  | both
  | incompatible
deriving DecidableEq

namespace DualInferenceResult

def modified_lhs : DualInferenceResult → Bool
  | first | both => true
  | _ => false

def modified_rhs : DualInferenceResult → Bool
  | second | both => true
  | _ => false

end DualInferenceResult

inductive SingleInferenceResult
  | unmodified
  | modified
  | incompatible
deriving DecidableEq

structure DualInference where
  parts_a    : List InferenceTypePart
  idx_a      : Nat
  parts_b    : List InferenceTypePart
  idx_b      : Nat
  depth      : Int
  modified_a : Bool
  modified_b : Bool

-- The loop of `infer_subtrees_for_both_types`, and whether it comes to its end. It does not if the
-- types are incompatible.
def infer_both : (fuel : Nat) → DualInference → Option (Bool × DualInference)
  | 0, _ => none
  | fuel + 1, d =>
    if d.depth > 0 then do
      let part_a ← d.parts_a[d.idx_a]?
      let part_b ← d.parts_b[d.idx_b]?
      if part_a = part_b then
        infer_both fuel
          { d with depth := d.depth + part_a.depth_change, idx_a := d.idx_a + 1, idx_b := d.idx_b + 1 }
      else if part_a.is_marker then
        infer_both fuel { d with idx_a := d.idx_a + 1 }
      else if part_b.is_marker then
        infer_both fuel { d with idx_b := d.idx_b + 1 }
      else
        match ← infer_part_for_single_type d.parts_a d.idx_a d.parts_b d.idx_b with
        | some r =>
          infer_both fuel { d with
            parts_a := r.to_infer, idx_a := r.to_infer_idx, idx_b := r.template_idx
            depth := d.depth + r.depth_change, modified_a := true }
        | none =>
          match ← infer_part_for_single_type d.parts_b d.idx_b d.parts_a d.idx_a with
          | some r =>
            infer_both fuel { d with
              parts_b := r.to_infer, idx_b := r.to_infer_idx, idx_a := r.template_idx
              depth := d.depth + r.depth_change, modified_b := true }
          | none => some (false, d)
    else
      some (true, d)

-- Every round passes by a part of one of the types, and the parts that are inserted are passed by at
-- once.
def infer_subtrees_for_both_types (type_a : InferenceType) (start_idx_a : Nat)
    (type_b : InferenceType) (start_idx_b : Nat) :
    Option (DualInferenceResult × InferenceType × InferenceType) := do
  let (done, d) ← infer_both (type_a.parts.length + type_b.parts.length + 1) {
    parts_a := type_a.parts, idx_a := start_idx_a, parts_b := type_b.parts, idx_b := start_idx_b
    depth := 1, modified_a := false, modified_b := false }
  let type_a := { type_a with parts := d.parts_a }
  let type_b := { type_b with parts := d.parts_b }
  if done then
    let type_a := if d.modified_a then type_a.recompute_is_done else type_a
    let type_b := if d.modified_b then type_b.recompute_is_done else type_b
    match d.modified_a, d.modified_b with
    | false, false => return (.neither, type_a, type_b)
    | false, true  => return (.second, type_a, type_b)
    | true,  false => return (.first, type_a, type_b)
    | true,  true  => return (.both, type_a, type_b)
  else
    return (.incompatible, type_a, type_b)

structure SingleInference where
  to_infer     : List InferenceTypePart
  to_infer_idx : Nat
  template_idx : Nat
  depth        : Int
  modified     : Bool

-- The loop of `infer_subtree_for_single_type`.
def infer_single (template : List InferenceTypePart) (forced_template : Bool) :
    (fuel : Nat) → SingleInference → Option (Bool × SingleInference)
  | 0, _ => none
  | fuel + 1, d =>
    if d.depth > 0 then do
      let to_infer_part ← d.to_infer[d.to_infer_idx]?
      let template_part ← template[d.template_idx]?
      if to_infer_part = template_part then
        infer_single template forced_template fuel { d with
          depth := d.depth + to_infer_part.depth_change
          to_infer_idx := d.to_infer_idx + 1, template_idx := d.template_idx + 1 }
      else if to_infer_part.is_marker then
        infer_single template forced_template fuel { d with to_infer_idx := d.to_infer_idx + 1 }
      else if template_part.is_marker then
        infer_single template forced_template fuel { d with template_idx := d.template_idx + 1 }
      else
        match ← infer_part_for_single_type d.to_infer d.to_infer_idx template d.template_idx with
        | some r =>
          infer_single template forced_template fuel { d with
            to_infer := r.to_infer, to_infer_idx := r.to_infer_idx, template_idx := r.template_idx
            depth := d.depth + r.depth_change, modified := true }
        | none =>
          if forced_template then
            some (false, d)
          else
            match ← check_part_for_single_type template d.template_idx d.to_infer d.to_infer_idx with
            | some (template_idx, to_infer_idx, depth_change) =>
              infer_single template forced_template fuel { d with
                template_idx := template_idx, to_infer_idx := to_infer_idx
                depth := d.depth + depth_change }
            | none => some (false, d)
    else
      some (true, d)

def infer_subtree_for_single_type (to_infer : InferenceType) (to_infer_idx : Nat)
    (template : List InferenceTypePart) (template_idx : Nat) (forced_template : Bool) :
    Option (SingleInferenceResult × InferenceType) := do
  let (done, d) ← infer_single template forced_template
    (to_infer.parts.length + template.length + 1) {
    to_infer := to_infer.parts, to_infer_idx := to_infer_idx, template_idx := template_idx
    depth := 1, modified := false }
  let to_infer := { to_infer with parts := d.to_infer }
  if done then
    if d.modified then
      return (.modified, to_infer.recompute_is_done)
    else
      return (.unmodified, to_infer)
  else
    return (.incompatible, to_infer)

structure Check where
  idx_a : Nat
  idx_b : Nat
  depth : Int

-- The loop of `check_subtrees`.
def check_both (type_parts_a type_parts_b : List InferenceTypePart) :
    (fuel : Nat) → Check → Option Bool
  | 0, _ => none
  | fuel + 1, d =>
    if d.depth > 0 then do
      let part_a ← type_parts_a[d.idx_a]?
      let part_b ← type_parts_b[d.idx_b]?
      if part_a = part_b then
        check_both type_parts_a type_parts_b fuel
          { d with depth := d.depth + part_a.depth_change, idx_a := d.idx_a + 1, idx_b := d.idx_b + 1 }
      else if part_a.is_marker then
        check_both type_parts_a type_parts_b fuel { d with idx_a := d.idx_a + 1 }
      else if part_b.is_marker then
        check_both type_parts_a type_parts_b fuel { d with idx_b := d.idx_b + 1 }
      else
        match ← check_part_for_single_type type_parts_a d.idx_a type_parts_b d.idx_b with
        | some (idx_a, idx_b, depth_change) =>
          check_both type_parts_a type_parts_b fuel
            { idx_a := idx_a, idx_b := idx_b, depth := d.depth + depth_change }
        | none =>
          match ← check_part_for_single_type type_parts_b d.idx_b type_parts_a d.idx_a with
          | some (idx_b, idx_a, depth_change) =>
            check_both type_parts_a type_parts_b fuel
              { idx_a := idx_a, idx_b := idx_b, depth := d.depth + depth_change }
          | none => some false
    else
      some true

def check_subtrees (type_parts_a : List InferenceTypePart) (start_idx_a : Nat)
    (type_parts_b : List InferenceTypePart) (start_idx_b : Nat) : Option Bool :=
  check_both type_parts_a type_parts_b (type_parts_a.length + type_parts_b.length + 1)
    { idx_a := start_idx_a, idx_b := start_idx_b, depth := 1 }

end InferenceType
end Reowolf.Types
