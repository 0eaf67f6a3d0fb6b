import Reowolf.Protocol.Arithmetic
import Reowolf.Protocol.OwnedOperators
import Reowolf.Protocol.TotalCopies

namespace Reowolf

-- The operator that a compound assignment combines with `=`.
def AssignmentOperator.plain : AssignmentOperator → Option BinaryOperator
  | set          => none
  | concatenated => some .concatenate
  | multiplied   => some .multiply
  | divided      => some .divide
  | remained     => some .remainder
  | added        => some .add
  | subtracted   => some .subtract
  | shiftedLeft  => some .shiftLeft
  | shiftedRight => some .shiftRight
  | bitwiseAnded => some .bitwiseAnd
  | bitwiseXored => some .bitwiseXor
  | bitwiseOred  => some .bitwiseOr

-- Two values of one type that the operator takes.
inductive AssignmentOperator.Takes : AssignmentOperator → Value → Value → Prop
  | integer {op type} (l r : Integer type) : op ≠ .concatenated →
    Takes op (.integer type l) (.integer type r)
  | message {l r} : Takes .concatenated (.message l) (.message r)
  | string {l r}  : Takes .concatenated (.string l) (.string r)
  | array {l r}   : Takes .concatenated (.array l) (.array r)

def ValueId.regions : ValueId → Multiset HeapPos
  | .stack _    => 0
  | .heap pos _ => {pos}

-- A region that is in use, and that is not the region of the place, nor that of the value in it, nor
-- one of those of the value on the right.
structure Store.Apart (store : Store) (id : ValueId) (lhs r : Value) (pos : HeapPos) : Prop where
  in_use   : pos ∉ store.free_regions
  location : pos ∉ id.regions
  left     : lhs.get_heap_pos ≠ some pos
  right    : ∀ ts F, store.Reps [r] ts F → pos ∉ F

-- The value at the place stands for the same as the value in the other store, the regions of the value
-- on the right are free, and all other values stand for what they stood for.
structure Store.Agrees (store store₁ store' : Store) (id : ValueId) (lhs r value : Value) : Prop where
  location : ∃ lhs' t G G', store'.read_ref id = .ok lhs' ∧ store'.stack = (store.overwrite lhs' id).stack ∧
    store'.Reps [lhs'] [t] G ∧ store₁.Reps [value] [t] G'
  boundary : store'.cur_stack_boundary = store.cur_stack_boundary
  released : ∀ ts F, store.Reps [r] ts F → ∀ pos ∈ F, pos ∈ store'.free_regions
  frame    : ∀ w ts F, store.Reps [w] ts F → (∀ pos ∈ F, store.Apart id lhs r pos) → store'.Reps [w] ts F

namespace Store

variable {build : Build} {store store₁ store' : Store} {base slots vs : List Value}
variable {kept : List HeapAllocation} {A L R K : Multiset HeapPos} {id : ValueId} {lhs r value : Value}
variable {t tl tr : RegionHeap.Tree Value} {lp rp : HeapPos}

variable {lus rus : List Value} {lts rts : List (RegionHeap.Tree Value)}

-- A place in a region that is kept holds what it held.
theorem Keeps.read_ref {Q : Multiset HeapPos} (h : store.Keeps store' Q)
    (hid : ∀ pos ∈ id.regions, pos ∈ Q) : store'.read_ref id = store.read_ref id := by
  cases id with
  | stack pos => simp only [Store.read_ref, read_stack, abs_pos, h.stack, h.boundary]
  | heap pos idx =>
    have hus := h.regions pos (hid pos (Multiset.mem_singleton_self _))
    simp only [Store.read_ref, read_region, region, hus]

theorem Takes.regions (h : AssignmentOperator.Takes .concatenated lhs r) :
    ∃ lp rp, lhs.get_heap_pos = some lp ∧ r.get_heap_pos = some rp ∧
      concatenated_regions lhs r = .ok (lp, rp) := by
  cases h with
  | integer _ _ hc => exact absurd rfl hc
  | message | string | array => exact ⟨_, _, rfl, rfl, rfl⟩

-- A region that was kept is in use.
theorem Accounts.own {pos : HeapPos} (h : store.Accounts A K) (hp : pos ∈ K) :
    store.Accounts (pos ::ₘ A) (K.erase pos) where
  all := by
    rw [← h.all, Multiset.cons_add, Multiset.cons_add, ← Multiset.add_cons, Multiset.cons_erase hp]
  empty := h.empty
  plain := h.plain

end Store

-- `x @= y`, with `y` a copy of the array of arrays `x`.
def Store.nested : Store where
  stack              := [.prevStackBoundary (-1), .array 0]
  cur_stack_boundary := 0
  heap_regions       := [[.array 2], [.array 3], [.integer .u8 1], [.integer .u8 1]]
  free_regions       := []

end Reowolf
