import Reowolf.Protocol.Value

namespace Reowolf

-- The values of one region of the simulated heap.
abbrev HeapAllocation := List Value

structure Store where
  stack              : List Value
  cur_stack_boundary : Nat
  heap_regions       : List HeapAllocation
  free_regions       : List HeapPos -- with the back of the deque first
deriving DecidableEq

namespace Store

def new : Store where
  stack              := [.prevStackBoundary (-1)]
  cur_stack_boundary := 0
  heap_regions       := []
  free_regions       := []

-- Recursion from value to value goes along heap positions. Where the heap has no cycle it visits
-- every region at most once, so that it never gets deeper than this.
def depth (store : Store) : Nat := store.heap_regions.length + 2

def region (store : Store) (pos : HeapPos) : Except Fault HeapAllocation :=
  match store.heap_regions[pos]? with
  | some values => .ok values
  | none        => .error .index

def set_region (store : Store) (pos : HeapPos) (values : HeapAllocation) : Store :=
  { store with heap_regions := store.heap_regions.set pos values }

def abs_pos (store : Store) (pos : StackPos) : Nat := store.cur_stack_boundary + 1 + pos

def read_stack (store : Store) (abs_pos : Nat) : Except Fault Value :=
  match store.stack[abs_pos]? with
  | some value => .ok value
  | none       => .error .index

def read_region (store : Store) (pos : HeapPos) (idx : Nat) : Except Fault Value := do
  match (← store.region pos)[idx]? with
  | some value => .ok value
  | none       => .error .index

def read_ref (store : Store) : ValueId → Except Fault Value
  | .stack pos    => store.read_stack (store.abs_pos pos)
  | .heap pos idx => store.read_region pos idx

def maybe_read_ref (store : Store) : Value → Except Fault Value
  | .ref id => store.read_ref id
  | value   => .ok value

-- Overwrites a value in place, without regard for what it owns.
def overwrite (store : Store) (value : Value) : ValueId → Store
  | .stack pos    => { store with stack := store.stack.set (store.abs_pos pos) value }
  | .heap pos idx =>
    { store with heap_regions := store.heap_regions.modify pos (·.set idx value) }

def reserve_stack (store : Store) (unique_stack_idx : Nat) : Store :=
  let new_size := store.cur_stack_boundary + unique_stack_idx + 1
  { store with
    stack := store.stack ++ List.replicate (new_size - store.stack.length) .unassigned }

def alloc_heap (store : Store) : HeapPos × Store :=
  match store.free_regions with
  | []          =>
    (store.heap_regions.length, { store with heap_regions := store.heap_regions ++ [[]] })
  | pos :: free => (pos, { store with free_regions := free })

def push_region (store : Store) (pos : HeapPos) (value : Value) : Except Fault Store := do
  let values ← store.region pos
  .ok (store.set_region pos (values ++ [value]))

-- Clones the values of a region with the given indices to the end of another region.
def clone_elements (clone : Store → Value → Except Fault (Value × Store)) (source target : HeapPos) :
    List Nat → Store → Except Fault Store
  | [], store => .ok store
  | idx :: idxs, store => do
    let value ← store.read_region source idx
    let (cloned, store) ← clone store value
    let store ← store.push_region target cloned
    clone_elements clone source target idxs store

def clone_value_at : Nat → Store → Value → Except Fault (Value × Store)
  | 0, _, _ => .error .recursion
  | depth + 1, store, value =>
    match value.get_heap_pos with
    | none =>
      match value with
      | .ref id => do
        let value ← store.read_ref id
        clone_value_at depth store value
      | value => .ok (value, store)
    | some source => do
      let (target, store) := store.alloc_heap
      let values ← store.region source
      let store ← clone_elements (clone_value_at depth) source target (List.range values.length) store
      .ok (value.with_heap_pos target, store)

def clone_value (store : Store) (value : Value) : Except Fault (Value × Store) :=
  clone_value_at store.depth store value

-- Drops what the values of a region with the given indices own.
def drop_elements (drop : Store → HeapPos → Except Fault Store) (pos : HeapPos) :
    List Nat → Store → Except Fault Store
  | [], store => .ok store
  | idx :: idxs, store => do
    let value ← store.read_region pos idx
    let store ← match value.get_heap_pos with
      | some other => drop store other
      | none       => .ok store
    drop_elements drop pos idxs store

def drop_heap_pos_at : Nat → Store → HeapPos → Except Fault Store
  | 0, _, _ => .error .recursion
  | depth + 1, store, pos => do
    let values ← store.region pos
    let store ← drop_elements (drop_heap_pos_at depth) pos (List.range values.length) store
    let _ ← store.region pos
    .ok { store.set_region pos [] with free_regions := pos :: store.free_regions }

def drop_heap_pos (store : Store) (pos : HeapPos) : Except Fault Store :=
  drop_heap_pos_at store.depth store pos

def drop_value (store : Store) : Option HeapPos → Except Fault Store
  | none     => .ok store
  | some pos => store.drop_heap_pos pos

def clear_slots : List Nat → Store → Except Fault Store
  | [], store => .ok store
  | idx :: idxs, store => do
    let value ← store.read_stack idx
    let store ← store.drop_value value.get_heap_pos
    clear_slots idxs { store with stack := store.stack.set idx .unassigned }

def clear_stack (store : Store) (unique_stack_idx : Nat) : Except Fault Store :=
  let new_size := store.cur_stack_boundary + unique_stack_idx + 1
  clear_slots (List.range' new_size (store.stack.length - new_size)) store

def read_copy (store : Store) (address : ValueId) : Except Fault (Value × Store) := do
  let value ← store.read_ref address
  store.clone_value value

def read_take_ownership (store : Store) : Value → Except Fault (Value × Store)
  | .ref id => store.read_copy id
  | value   => .ok (value, store)

def write (store : Store) (address : ValueId) (value : Value) : Except Fault Store := do
  let old ← store.read_ref address
  let store ← store.drop_value old.get_heap_pos
  .ok (store.overwrite value address)

end Store

-- Values on their way from one store to another.
structure ValueGroup where
  values  : List Value
  regions : List (List Value)
deriving DecidableEq

namespace ValueGroup

def new_stack (values : List Value) : ValueGroup := ⟨values, []⟩

-- Transfers values one after the other, with the regions that they need.
def retrieve_values (retrieve : Value → List (List Value) → Except Fault (Value × List (List Value))) :
    List Value → List (List Value) → Except Fault (List Value × List (List Value))
  | [], regions => .ok ([], regions)
  | value :: values, regions => do
    let (transferred, regions) ← retrieve value regions
    let (rest, regions) ← retrieve_values retrieve values regions
    .ok (transferred :: rest, regions)

def retrieve_value (from_store : Store) :
    Nat → Value → List (List Value) → Except Fault (Value × List (List Value))
  | 0, _, _ => .error .recursion
  | depth + 1, value, regions => do
    let value ← from_store.maybe_read_ref value
    match value.get_heap_pos with
    | none => .ok (value, regions)
    | some pos =>
      let from_region ← from_store.region pos
      let (new_region, regions) ← retrieve_values (retrieve_value from_store depth) from_region regions
      .ok (value.with_heap_pos regions.length, regions ++ [new_region])

def from_store (store : Store) (values : List Value) : Except Fault ValueGroup := do
  let (values, regions) ← retrieve_values (retrieve_value store store.depth) values []
  .ok ⟨values, regions⟩

def provide_values (provide : Value → Store → Except Fault (Value × Store)) (target : HeapPos) :
    List Value → Store → Except Fault Store
  | [], store => .ok store
  | value :: values, store => do
    let (transferred, store) ← provide value store
    let store ← store.push_region target transferred
    provide_values provide target values store

def provide_value (group : ValueGroup) : Nat → Value → Store → Except Fault (Value × Store)
  | 0, _, _ => .error .recursion
  | depth + 1, value, store =>
    match value.get_heap_pos with
    | none => .ok (value, store)
    | some from_pos => do
      let (to_pos, store) := store.alloc_heap
      match group.regions[from_pos]? with
      | none => .error .index
      | some region =>
        let store ← provide_values (group.provide_value depth) to_pos region store
        .ok (value.with_heap_pos to_pos, store)

def push_values (group : ValueGroup) : List Value → Store → Except Fault Store
  | [], store => .ok store
  | value :: values, store => do
    let (transferred, store) ← group.provide_value (group.regions.length + 1) value store
    group.push_values values { store with stack := store.stack ++ [transferred] }

def into_store (group : ValueGroup) (store : Store) : Except Fault Store :=
  group.push_values group.values store

end ValueGroup

end Reowolf
