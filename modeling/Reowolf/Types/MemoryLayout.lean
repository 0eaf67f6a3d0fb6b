import Reowolf.Types.LoopDetection
import Mathlib.Data.BitVec

namespace Reowolf.Types

open Reowolf.Parser (SymbolTable)

structure TargetArch where
  array_size_alignment   : Nat × Nat
  slice_size_alignment   : Nat × Nat
  string_size_alignment  : Nat × Nat
  port_size_alignment    : Nat × Nat
  pointer_size_alignment : Nat × Nat

-- The architecture that every parser is made for.
def TargetArch.new : TargetArch where
  array_size_alignment   := (3 * 8, 8) -- pointer, length, capacity
  slice_size_alignment   := (2 * 8, 8) -- pointer, length
  string_size_alignment  := (3 * 8, 8) -- pointer, length, capacity
  port_size_alignment    := (3 * 4, 4) -- two u32s: connector + port ID
  pointer_size_alignment := (8, 8)

inductive MemoryLayoutResult
  | typeExists (size alignment : Nat)
  | pushBreadcrumb (breadcrumb : MemoryBreadcrumb)

-- An addition of machine words, which stops on overflow.
def checked_add (a b : Nat) : Except Stop Nat :=
  if a + b < 2 ^ 64 then .ok (a + b) else .error .panic

def align_offset_to (offset alignment : Nat) : Except Stop Nat := do
  if alignment = 0 then
    .error .panic
  else
    let offset ← checked_add offset (alignment - 1)
    .ok (BitVec.ofNat 64 offset &&& ~~~BitVec.ofNat 64 (alignment - 1)).toNat

-- The size and the alignment of a type that is not defined by the user.
def builtin_size_alignment (arch : TargetArch) : ConcreteTypePart → Option (Nat × Nat)
  | .void => some (0, 1)
  | .message => some arch.array_size_alignment
  | .bool => some (1, 1)
  | .uint8 => some (1, 1)
  | .uint16 => some (2, 2)
  | .uint32 => some (4, 4)
  | .uint64 => some (8, 8)
  | .sint8 => some (1, 1)
  | .sint16 => some (2, 2)
  | .sint32 => some (4, 4)
  | .sint64 => some (8, 8)
  | .character => some (4, 4)
  | .string => some arch.string_size_alignment
  | .array => some arch.array_size_alignment
  | .slice => some arch.array_size_alignment
  | .input => some arch.port_size_alignment
  | .output => some arch.port_size_alignment
  | .«instance» .. | .function .. | .component .. => none

-- Whether a type has been laid out in memory. The stack is that of the sizes and alignments.
def get_memory_layout_or_breadcrumb (arch : TargetArch) (lookup : List DefinedType) (stack_len : Nat)
    (concrete_type : ConcreteType) : Except Stop MemoryLayoutResult :=
  match concrete_type with
  | [] => .error .panic
  | part :: _ =>
    match builtin_size_alignment arch part, part with
    | some (size, alignment), _ => .ok (.typeExists size alignment)
    | none, .«instance» definition_id _ =>
      match lookup[definition_id]? with
      | none => .error .panic
      | some entry =>
        match entry.get_monomorph_index concrete_type with
        | none => .error .panic
        | some monomorph_idx => do
          match ← entry.get_monomorph_size_alignment monomorph_idx with
          | some (size, alignment) => .ok (.typeExists size alignment)
          | none => .ok (.pushBreadcrumb ⟨definition_id, monomorph_idx, 0, 0, stack_len⟩)
    | none, _ => .error .panic -- storage for function pointers

-- Pushes the sizes and alignments of members up to the first one that is not yet laid out.
def size_members (arch : TargetArch) (lookup : List DefinedType) :
    (next_member : Nat) → (stack : List (Nat × Nat)) → List MonomorphMember →
      Except Stop (Nat × List (Nat × Nat) × Option MemoryBreadcrumb)
  | next_member, stack, [] => .ok (next_member, stack, none)
  | next_member, stack, member :: members => do
    match ← get_memory_layout_or_breadcrumb arch lookup stack.length member.concrete_type with
    | .typeExists size alignment =>
      size_members arch lookup (next_member + 1) (stack ++ [(size, alignment)]) members
    | .pushBreadcrumb new_breadcrumb => .ok (next_member, stack, some new_breadcrumb)

-- The sizes of the members of a heap-allocated variant cannot be computed yet.
def size_variants (arch : TargetArch) (lookup : List DefinedType) :
    (next_member next_embedded : Nat) → (stack : List (Nat × Nat)) → List UnionMonomorphVariant →
      Except Stop (Nat × Nat × List (Nat × Nat) × Option MemoryBreadcrumb)
  | next_member, next_embedded, stack, [] => .ok (next_member, next_embedded, stack, none)
  | next_member, next_embedded, stack, variant :: variants => do
    if variant.lives_on_heap then
      size_variants arch lookup (next_member + 1) 0 stack variants
    else
      match ← size_members arch lookup next_embedded stack (variant.embedded.drop next_embedded) with
      | (_, stack, none) => size_variants arch lookup (next_member + 1) 0 stack variants
      | (next_embedded, stack, some new_breadcrumb) =>
        .ok (next_member, next_embedded, stack, some new_breadcrumb)

def MonomorphMember.place (member : MonomorphMember) (size alignment offset : Nat) : MonomorphMember :=
  { member with size, alignment, offset }

-- On the heap the source stores the offset in the place of the alignment.
def MonomorphMember.place_on_heap (member : MonomorphMember) (size _alignment offset : Nat) :
    MonomorphMember :=
  { member with size, alignment := offset }

-- What a group of members looks like after it has been placed from an offset on.
structure Placement where
  members   : List MonomorphMember
  offset    : Nat -- behind the last member
  alignment : Nat
  sizes     : List (Nat × Nat) -- what is left of the sizes and alignments

def place_members (place : MonomorphMember → Nat → Nat → Nat → MonomorphMember) :
    (sizes : List (Nat × Nat)) → (offset alignment : Nat) → List MonomorphMember → Except Stop Placement
  | sizes, offset, alignment, [] => .ok ⟨[], offset, alignment, sizes⟩
  | [], _, _, _ :: _ => .error .panic
  | (size, member_alignment) :: sizes, offset, alignment, member :: members => do
    let member_offset ← align_offset_to offset member_alignment
    let placement ← place_members place sizes (← checked_add member_offset size)
      (max alignment member_alignment) members
    .ok { placement with members := place member size member_alignment member_offset :: placement.members }

-- The variants of a union, and the largest size and alignment among them.
structure VariantPlacement where
  variants  : List UnionMonomorphVariant
  size      : Nat
  alignment : Nat
  sizes     : List (Nat × Nat)

-- We're doing stack computations, so always start with the tag size/alignment.
def place_variant (arch : TargetArch) (tag_size : Nat) (sizes : List (Nat × Nat))
    (variant : UnionMonomorphVariant) : Except Stop Placement :=
  if variant.lives_on_heap then do
    let (ptr_size, ptr_align) := arch.pointer_size_alignment
    let offset ← align_offset_to tag_size ptr_align
    let offset ← checked_add offset ptr_size
    .ok ⟨variant.embedded, offset, max tag_size ptr_align, sizes⟩
  else
    place_members .place sizes tag_size tag_size variant.embedded

def place_variants (arch : TargetArch) (tag_size : Nat) :
    (sizes : List (Nat × Nat)) → (max_size max_alignment : Nat) → List UnionMonomorphVariant →
      Except Stop VariantPlacement
  | sizes, max_size, max_alignment, [] => .ok ⟨[], max_size, max_alignment, sizes⟩
  | sizes, max_size, max_alignment, variant :: variants => do
    let placement ← place_variant arch tag_size sizes variant
    let rest ← place_variants arch tag_size placement.sizes (max max_size placement.offset)
      (max max_alignment placement.alignment) variants
    .ok { rest with variants := { variant with embedded := placement.members } :: rest.variants }

namespace TypeTable

variable (arch : TargetArch)

-- Either the type on top is completely laid out, or a member of it comes first.
def lay_out_breadcrumb (table : TypeTable) (below : List MemoryBreadcrumb)
    (breadcrumb : MemoryBreadcrumb) : Except Stop TypeTable := do
  let first_idx := breadcrumb.first_size_alignment_idx
  let finished := { table with memory_layout_breadcrumbs := below }
  match table.lookup[breadcrumb.definition_id]? with
  | none => .error .panic
  | some poly_type =>
    match poly_type.definition with
    | .enum _ => .ok finished
    | .union definition =>
      match definition.monomorphs[breadcrumb.monomorph_idx]? with
      | none => .error .panic
      | some mono_type =>
        match ← size_variants arch table.lookup breadcrumb.next_member breadcrumb.next_embedded
          table.size_alignment_stack (mono_type.variants.drop breadcrumb.next_member) with
        | (next_member, next_embedded, stack, some new_breadcrumb) =>
          .ok { table with
            memory_layout_breadcrumbs :=
              below ++ [{ breadcrumb with next_member, next_embedded }, new_breadcrumb]
            size_alignment_stack      := stack
          }
        | (_, _, stack, none) =>
          let placement ← place_variants arch definition.tag_size (stack.drop first_idx)
            definition.tag_size definition.tag_size mono_type.variants
          let mono_type := { mono_type with
            variants        := placement.variants
            stack_size      := placement.size
            stack_alignment := placement.alignment
          }
          let definition := { definition with
            monomorphs := definition.monomorphs.set breadcrumb.monomorph_idx mono_type }
          let poly_type := { poly_type with definition := .union definition }
          .ok { finished with
            lookup               := table.lookup.set breadcrumb.definition_id poly_type
            size_alignment_stack := stack.take first_idx
          }
    | .struct definition =>
      match definition.monomorphs[breadcrumb.monomorph_idx]? with
      | none => .error .panic
      | some mono_type =>
        match ← size_members arch table.lookup breadcrumb.next_member table.size_alignment_stack
          (mono_type.fields.drop breadcrumb.next_member) with
        | (next_member, stack, some new_breadcrumb) =>
          .ok { table with
            memory_layout_breadcrumbs := below ++ [{ breadcrumb with next_member }, new_breadcrumb]
            size_alignment_stack      := stack
          }
        | (_, stack, none) =>
          let placement ← place_members .place (stack.drop first_idx) 0 1 mono_type.fields
          let mono_type := { mono_type with
            fields    := placement.members
            size      := placement.offset
            alignment := placement.alignment
          }
          let definition := { definition with
            monomorphs := definition.monomorphs.set breadcrumb.monomorph_idx mono_type }
          let poly_type := { poly_type with definition := .struct definition }
          .ok { finished with
            lookup               := table.lookup.set breadcrumb.definition_id poly_type
            size_alignment_stack := stack.take first_idx
          }
    | .function _ | .component _ => .error .panic

def lay_out_breadcrumbs : (fuel : Nat) → TypeTable → Except Stop TypeTable
  | fuel, table =>
    match table.memory_layout_breadcrumbs.getLast? with
    | none => .ok table
    | some breadcrumb =>
      match fuel with
      | 0 => .error .fuel
      | fuel + 1 => do
        let table ← table.lay_out_breadcrumb arch table.memory_layout_breadcrumbs.dropLast breadcrumb
        lay_out_breadcrumbs fuel table

end TypeTable

-- First pass over the heap variants, use buffer to store size/alignment.
def size_heap_members (arch : TargetArch) (lookup : List DefinedType) :
    (stack : List (Nat × Nat)) → List MonomorphMember → Except Stop (List (Nat × Nat))
  | stack, [] => .ok stack
  | stack, embedded :: members => do
    match ← get_memory_layout_or_breadcrumb arch lookup stack.length embedded.concrete_type with
    | .typeExists size alignment => size_heap_members arch lookup (stack ++ [(size, alignment)]) members
    | .pushBreadcrumb _ => .error .panic

-- Second pass, apply the size/alignment values in our buffer
def place_heap_variants : (sizes : List (Nat × Nat)) → (max_size max_alignment : Nat) →
    List UnionMonomorphVariant → Except Stop VariantPlacement
  | sizes, max_size, max_alignment, [] => .ok ⟨[], max_size, max_alignment, sizes⟩
  | sizes, max_size, max_alignment, variant :: variants => do
    if variant.lives_on_heap then
      let placement ← place_members .place_on_heap sizes 0 1 variant.embedded
      let rest ← place_heap_variants placement.sizes (max max_size placement.offset)
        (max max_alignment placement.alignment) variants
      .ok { rest with variants := { variant with embedded := placement.members } :: rest.variants }
    else
      let rest ← place_heap_variants sizes max_size max_alignment variants
      .ok { rest with variants := variant :: rest.variants }

namespace TypeTable

variable (arch : TargetArch)

-- The source does not empty the buffer between the unions, and reads it from the start each time.
def lay_out_heap_variants (table : TypeTable) (entry : TypeLoopEntry) : Except Stop TypeTable := do
  if !entry.is_union then
    .ok table
  else
    match table.lookup[entry.definition_id]? with
    | none => .error .panic
    | some poly_type =>
      match poly_type.definition with
      | .union definition =>
        match definition.monomorphs[entry.monomorph_idx]? with
        | none => .error .panic
        | some mono_type =>
          let heap_members :=
            (mono_type.variants.filter UnionMonomorphVariant.lives_on_heap).flatMap
              UnionMonomorphVariant.embedded
          let stack ← size_heap_members arch table.lookup table.size_alignment_stack heap_members
          let placement ← place_heap_variants stack 0 1 mono_type.variants
          let mono_type := { mono_type with variants := placement.variants }
          let mono_type :=
            if placement.size ≠ 0 then
              { mono_type with heap_size := placement.size, heap_alignment := placement.alignment }
            else
              mono_type
          let definition := { definition with
            monomorphs := definition.monomorphs.set entry.monomorph_idx mono_type }
          let poly_type := { poly_type with definition := .union definition }
          .ok { table with
            lookup               := table.lookup.set entry.definition_id poly_type
            size_alignment_stack := stack
          }
      | _ => .error .panic

def lay_out_encountered_heap_variants : TypeTable → List TypeLoopEntry → Except Stop TypeTable
  | table, [] => .ok table
  | table, entry :: entries => do
    lay_out_encountered_heap_variants (← table.lay_out_heap_variants arch entry) entries

def lay_out_memory_for_encountered_types (fuel : Nat) (table : TypeTable) : Except Stop TypeTable := do
  match table.encountered_types with
  | [] => .error .panic
  | first_entry :: _ =>
    let first_breadcrumb := ⟨first_entry.definition_id, first_entry.monomorph_idx, 0, 0, 0⟩
    let table ← { table with
      memory_layout_breadcrumbs := table.memory_layout_breadcrumbs ++ [first_breadcrumb]
    : TypeTable }.lay_out_breadcrumbs arch fuel
    let table ← table.lay_out_encountered_heap_variants arch table.encountered_types
    .ok { table with encountered_types := [] }

variable (heap : Heap)

-- Adds a data type, if it is not yet in the table, and yields the index of its monomorph.
def add_data_monomorph (fuel : Nat) (table : TypeTable) (definition_id : DefinitionId)
    (concrete_type : ConcreteType) : Except Stop (TypeTable × Nat) := do
  match table.lookup[definition_id]? with
  | none => .error .panic
  | some poly_type =>
    match poly_type.get_monomorph_index concrete_type with
    | some idx => .ok (table, idx)
    | none =>
      let table ← table.detect_and_resolve_type_loops_for heap fuel concrete_type
      match table.encountered_types with
      | [] => .error .panic
      | first_entry :: _ =>
        let table ← table.lay_out_memory_for_encountered_types arch fuel
        .ok (table, first_entry.monomorph_idx)

-- Lays out the types that have no polymorphic arguments.
def lay_out_base_types (fuel : Nat) : TypeTable → List DefinitionId → Except Stop TypeTable
  | table, [] => .ok table
  | table, definition_id :: definition_ids => do
    match table.lookup[definition_id]? with
    | none => .error .panic
    | some poly_type =>
      if poly_type.is_data_type ∧ poly_type.poly_vars.isEmpty ∧ poly_type.num_monomorphs = 0 then
        let table ← table.detect_and_resolve_type_loops_for heap fuel [.«instance» definition_id 0]
        let table ← table.lay_out_memory_for_encountered_types arch fuel
        lay_out_base_types fuel table definition_ids
      else
        lay_out_base_types fuel table definition_ids

def build_base_types (symbols : SymbolTable) (fuel : Nat) : Except Stop TypeTable := do
  let lookup ← heap.build_base_definitions symbols 0 heap.definitions
  { TypeTable.new with lookup }.lay_out_base_types arch heap fuel (List.range heap.definitions.length)

end TypeTable

end Reowolf.Types
