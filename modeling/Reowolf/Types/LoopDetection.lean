import Reowolf.Types.TypeTable

namespace Reowolf.Types

inductive TypeLoopResult
  | typeExists
  | pushBreadcrumb (definition_id : DefinitionId) (concrete_type : ConcreteType)
  | typeLoop (first_idx : Nat)
deriving DecidableEq

def construct_concrete_types (container_type : ConcreteType) : List ParserType → Except Stop (List MonomorphMember)
  | [] => .ok []
  | parser_type :: parser_types => do
    match construct_concrete_type parser_type container_type with
    | none => .error .panic
    | some concrete_type =>
      let members ← construct_concrete_types container_type parser_types
      .ok ({ concrete_type, size := 0, alignment := 0, offset := 0 } :: members)

def construct_mono_variants (container_type : ConcreteType) :
    List UnionVariant → Except Stop (List UnionMonomorphVariant)
  | [] => .ok []
  | poly_variant :: poly_variants => do
    let embedded ← construct_concrete_types container_type poly_variant.embedded
    let mono_variants ← construct_mono_variants container_type poly_variants
    .ok ({ lives_on_heap := false, embedded } :: mono_variants)

-- The entry of a table with a new monomorph, which is not yet laid out, and the index of it.
def DefinedType.push_monomorph (base_type : DefinedType) (definition_type : ConcreteType) :
    Except Stop (DefinedType × Nat) := do
  match base_type.definition with
  | .enum definition =>
    let definition := { definition with monomorphs := definition.monomorphs ++ [⟨definition_type⟩] }
    .ok ({ base_type with definition := .enum definition }, 0)
  | .union definition =>
    let variants ← construct_mono_variants definition_type definition.variants
    let monomorph : UnionMonomorph := {
      concrete_type := definition_type, variants
      stack_size := 0, stack_alignment := 0, heap_size := 0, heap_alignment := 0
    }
    let mono_idx := definition.monomorphs.length
    let definition := { definition with monomorphs := definition.monomorphs ++ [monomorph] }
    .ok ({ base_type with definition := .union definition }, mono_idx)
  | .struct definition =>
    let fields ← construct_concrete_types definition_type (definition.fields.map StructField.parser_type)
    let monomorph : StructMonomorph := {
      concrete_type := definition_type, fields, size := 0, alignment := 0
    }
    let mono_idx := definition.monomorphs.length
    let definition := { definition with monomorphs := definition.monomorphs ++ [monomorph] }
    .ok ({ base_type with definition := .struct definition }, mono_idx)
  | .function _ | .component _ => .error .panic

-- Marks the currently processed variant of a union as requiring heap allocation.
def UnionType.mark_variant (definition : UnionType) (breadcrumb : TypeLoopBreadcrumb) :
    Except Stop UnionType :=
  match definition.monomorphs[breadcrumb.monomorph_idx]? with
  | none => .error .panic
  | some monomorph =>
    match monomorph.variants[breadcrumb.next_member]? with
    | none => .error .panic
    | some variant =>
      let variants := monomorph.variants.set breadcrumb.next_member { variant with lives_on_heap := true }
      .ok { definition with
        monomorphs := definition.monomorphs.set breadcrumb.monomorph_idx { monomorph with variants } }

-- The breadcrumbs of a type loop become its members. A union among them also advances to the next
-- embedded type.
def close_type_loop : (lookup : List DefinedType) → List TypeLoopBreadcrumb →
    Except Stop (List DefinedType × List TypeLoopBreadcrumb × List TypeLoopEntry)
  | lookup, [] => .ok (lookup, [], [])
  | lookup, breadcrumb :: breadcrumbs => do
    match lookup[breadcrumb.definition_id]? with
    | none => .error .panic
    | some entry =>
      match entry.definition with
      | .union definition =>
        let definition ← definition.mark_variant breadcrumb
        let lookup := lookup.set breadcrumb.definition_id { entry with definition := .union definition }
        let (lookup, breadcrumbs, loop_members) ← close_type_loop lookup breadcrumbs
        .ok (lookup, { breadcrumb with next_embedded := breadcrumb.next_embedded + 1 } :: breadcrumbs,
          ⟨breadcrumb.definition_id, breadcrumb.monomorph_idx, true⟩ :: loop_members)
      | _ =>
        let (lookup, breadcrumbs, loop_members) ← close_type_loop lookup breadcrumbs
        .ok (lookup, breadcrumb :: breadcrumbs,
          ⟨breadcrumb.definition_id, breadcrumb.monomorph_idx, false⟩ :: loop_members)

namespace TypeTable

-- Whether a type needs to be resolved, has been resolved already or is in the process of being
-- resolved. Only user-defined types are of interest.
def check_member_for_type_loops (table : TypeTable) (definition_type : ConcreteType) :
    Except Stop TypeLoopResult :=
  match definition_type with
  | [] => .error .panic
  | part :: _ =>
    match part.definition_id with
    | none => .ok .typeExists
    | some definition_id =>
      match table.lookup[definition_id]? with
      | none => .error .panic
      | some base_type =>
        match base_type.get_monomorph_index definition_type with
        | none => .ok (.pushBreadcrumb definition_id definition_type)
        | some mono_idx =>
          match table.type_loop_breadcrumbs.findIdx? fun breadcrumb =>
              breadcrumb.definition_id = definition_id ∧ breadcrumb.monomorph_idx = mono_idx with
          | some breadcrumb_idx => .ok (.typeLoop breadcrumb_idx)
          | none => .ok .typeExists

def handle_new_breadcrumb_for_type_loops (table : TypeTable) (definition_id : DefinitionId)
    (definition_type : ConcreteType) : Except Stop TypeTable := do
  match table.lookup[definition_id]? with
  | none => .error .panic
  | some base_type =>
    let (new_type, monomorph_idx) ← base_type.push_monomorph definition_type
    .ok { table with
      lookup                := table.lookup.set definition_id new_type
      encountered_types     :=
        table.encountered_types ++ [⟨definition_id, monomorph_idx, base_type.is_union⟩]
      type_loop_breadcrumbs := table.type_loop_breadcrumbs ++ [⟨definition_id, monomorph_idx, 0, 0⟩]
    }

-- From the next member on, the first one that does not exist yet.
def check_members (table : TypeTable) : (next_member : Nat) → List MonomorphMember →
    Except Stop (Nat × TypeLoopResult)
  | next_member, [] => .ok (next_member, .typeExists)
  | next_member, member :: members => do
    match ← table.check_member_for_type_loops member.concrete_type with
    | .typeExists => table.check_members (next_member + 1) members
    | result => .ok (next_member, result)

def check_variants (table : TypeTable) : (next_member next_embedded : Nat) →
    List UnionMonomorphVariant → Except Stop (Nat × Nat × TypeLoopResult)
  | next_member, next_embedded, [] => .ok (next_member, next_embedded, .typeExists)
  | next_member, next_embedded, variant :: variants => do
    match ← table.check_members next_embedded (variant.embedded.drop next_embedded) with
    | (_, .typeExists) => table.check_variants (next_member + 1) 0 variants
    | (next_embedded, result) => .ok (next_member, next_embedded, result)

-- How far the members of a type get, and why no further.
def resolve_members (table : TypeTable) (breadcrumb : TypeLoopBreadcrumb) :
    Except Stop (TypeLoopBreadcrumb × TypeLoopResult) := do
  match table.lookup[breadcrumb.definition_id]? with
  | none => .error .panic
  | some poly_type =>
    match poly_type.definition with
    | .enum _ => .ok (breadcrumb, .typeExists)
    | .union definition =>
      match definition.monomorphs[breadcrumb.monomorph_idx]? with
      | none => .error .panic
      | some monomorph =>
        let (next_member, next_embedded, result) ← table.check_variants breadcrumb.next_member
          breadcrumb.next_embedded (monomorph.variants.drop breadcrumb.next_member)
        .ok ({ breadcrumb with next_member, next_embedded }, result)
    | .struct definition =>
      match definition.monomorphs[breadcrumb.monomorph_idx]? with
      | none => .error .panic
      | some monomorph =>
        let (next_member, result) ← table.check_members breadcrumb.next_member
          (monomorph.fields.drop breadcrumb.next_member)
        .ok ({ breadcrumb with next_member }, result)
    | .function _ | .component _ => .error .panic

end TypeTable

-- What an error says about a member of a type loop.
def type_loop_source_span_and_message (heap : Heap) (defined_type : DefinedType)
    (monomorph_idx index_in_loop : Nat) : Except Stop String :=
  let monomorph_type :=
    match defined_type.definition with
    | .union definition => definition.monomorphs[monomorph_idx]?.map UnionMonomorph.concrete_type
    | .struct definition => definition.monomorphs[monomorph_idx]?.map StructMonomorph.concrete_type
    | .enum _ | .function _ | .component _ => none -- impossible in a type loop
  match monomorph_type with
  | none => .error .panic
  | some monomorph_type =>
    let type_name := monomorph_type.display_name heap.identifier
    if index_in_loop = 0 then
      .ok ("encountered an infinitely large type for '" ++ type_name ++ "' (which can be fixed by " ++
        "introducing a union type that has a variant whose embedded types are " ++
        "not part of a type loop, or do not have embedded types)")
    else if index_in_loop = 1 then
      .ok ("because it depends on the type '" ++ type_name ++ "'")
    else
      .ok ("which depends on the type '" ++ type_name ++ "'")

-- The messages for the members from an index on. The type is that of the first member throughout.
def type_loop_messages (heap : Heap) (first_type : DefinedType) :
    (index_in_loop : Nat) → List TypeLoopEntry → Except Stop (List String)
  | _, [] => .ok []
  | index_in_loop, entry :: entries => do
    let message ← type_loop_source_span_and_message heap first_type entry.monomorph_idx index_in_loop
    let messages ← type_loop_messages heap first_type (index_in_loop + 1) entries
    .ok (message :: messages)

def construct_type_loop_error (heap : Heap) (lookup : List DefinedType) (type_loop : TypeLoop) : Stop :=
  match type_loop.members with
  | [] => .panic
  | first_entry :: _ =>
    match lookup[first_entry.definition_id]? with
    | none => .panic
    | some first_type =>
      match type_loop_messages heap first_type 0 type_loop.members with
      | .error stop => stop
      | .ok messages => .parse_error ⟨messages⟩

-- Whether a union of the loop ended up having variants that are not part of a type loop.
def can_be_broken (lookup : List DefinedType) : List TypeLoopEntry → Except Stop Bool
  | [] => .ok false
  | entry :: entries =>
    if entry.is_union then
      match lookup[entry.definition_id]?.map DefinedType.definition with
      | some (.union definition) =>
        match definition.monomorphs[entry.monomorph_idx]? with
        | none => .error .panic
        | some monomorph => do
          let can_be_broken ← can_be_broken lookup entries
          .ok (monomorph.variants.any (!·.lives_on_heap) || can_be_broken)
      | _ => .error .panic
    else
      can_be_broken lookup entries

def check_type_loops (heap : Heap) (lookup : List DefinedType) : List TypeLoop → Except Stop Unit
  | [] => .ok ()
  | type_loop :: type_loops => do
    if ← can_be_broken lookup type_loop.members then
      check_type_loops heap lookup type_loops
    else
      .error (construct_type_loop_error heap lookup type_loop)

namespace TypeTable

variable (heap : Heap)

-- Puts back a modified breadcrumb and adds a type loop. Without a union in it there is no way to break
-- the loop.
def handle_type_loop (table : TypeTable) (first_idx : Nat) : Except Stop TypeTable := do
  let (lookup, breadcrumbs, loop_members) ←
    close_type_loop table.lookup (table.type_loop_breadcrumbs.drop first_idx)
  if loop_members.any TypeLoopEntry.is_union then
    .ok { table with
      lookup
      type_loop_breadcrumbs := table.type_loop_breadcrumbs.take first_idx ++ breadcrumbs
      type_loops            := table.type_loops ++ [⟨loop_members⟩]
    }
  else
    .error (construct_type_loop_error heap lookup ⟨loop_members⟩)

-- One round of the main resolving loop, for the breadcrumb on top of those below it.
def resolve_breadcrumb (table : TypeTable) (below : List TypeLoopBreadcrumb)
    (breadcrumb : TypeLoopBreadcrumb) : Except Stop TypeTable := do
  let (breadcrumb, resolve_result) ← table.resolve_members breadcrumb
  let advanced := { table with type_loop_breadcrumbs := below ++ [breadcrumb] }
  match resolve_result with
  | .typeExists => .ok { table with type_loop_breadcrumbs := below }
  | .pushBreadcrumb definition_id concrete_type =>
    advanced.handle_new_breadcrumb_for_type_loops definition_id concrete_type
  | .typeLoop first_idx => advanced.handle_type_loop heap first_idx

-- There are no breadcrumbs at the end of the main resolving loop.
def next (table : TypeTable) : Option (Except Stop TypeTable) :=
  table.type_loop_breadcrumbs.getLast?.map
    (table.resolve_breadcrumb heap table.type_loop_breadcrumbs.dropLast)

def resolve_breadcrumbs : (fuel : Nat) → TypeTable → Except Stop TypeTable
  | fuel, table =>
    match table.next heap with
    | none => .ok table
    | some result =>
      match fuel with
      | 0 => .error .fuel
      | fuel + 1 => do resolve_breadcrumbs fuel (← result)

-- Checks whether all of the type loops can be broken, and puts the variants that break them on the
-- heap.
def detect_and_resolve_type_loops_for (fuel : Nat) (table : TypeTable) (concrete_type : ConcreteType) :
    Except Stop TypeTable := do
  match ← table.check_member_for_type_loops concrete_type with
  | .pushBreadcrumb definition_id concrete_type =>
    let table ← table.handle_new_breadcrumb_for_type_loops definition_id concrete_type
    let table ← table.resolve_breadcrumbs heap fuel
    check_type_loops heap table.lookup table.type_loops
    .ok { table with type_loops := [] }
  | _ => .error .panic

end TypeTable

end Reowolf.Types
