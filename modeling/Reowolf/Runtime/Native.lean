import Reowolf.Runtime.Round

namespace Reowolf

-- The branch corresponds to a component solution exactly if `to_get` is empty.
structure NativeBranch where
  index  : Nat
  gotten : HashMap PortId Payload
  to_get : Finset PortId
deriving DecidableEq

structure BranchingNative where
  branches : HashMap Predicate NativeBranch
deriving DecidableEq

namespace NativeBranch

def is_ended (b : NativeBranch) : Prop :=
  b.to_get = ∅

instance (b : NativeBranch) : Decidable b.is_ended :=
  inferInstanceAs (Decidable (_ = _))

-- The union of what the two branches have gotten, where a payload of `branch` replaces one of `old`.
-- A port is removed from `to_get` if only `branch` has gotten its payload.
def merge (old branch : NativeBranch) : NativeBranch where
  index  := old.index
  gotten := branch.gotten.override old.gotten
  to_get := old.to_get.filter fun port =>
    (branch.gotten.get? port).isNone ∨ (old.gotten.get? port).isSome

end NativeBranch

namespace BranchingNative

def insert_branch_merging (branches : HashMap Predicate NativeBranch) (predicate : Predicate)
    (branch : NativeBranch) : HashMap Predicate NativeBranch :=
  branches.insertWith NativeBranch.merge predicate branch

section

variable (native_component_id : ComponentId) (getter : PortId) (msg : SendPayloadMsg)

-- An ended branch corresponds to a component solution.
def submit_if_ended (rctx : RoundCtx) (predicate : Predicate) (branch : NativeBranch) :
    SyncResult RoundCtx :=
  if branch.is_ended then rctx.submit (.localComponent native_component_id) predicate
  else return rctx

-- The closure `feed_branch` of `feed_msg`.
def feed_branch (rctx : RoundCtx) (branch : NativeBranch) (predicate : Predicate) :
    SyncResult (RoundCtx × NativeBranch) := do
  SyncResult.assert .payloadMismatch (branch.gotten.get? getter ∈ [none, some msg.payload])
  let branch := { branch with
    to_get := branch.to_get.erase getter
    gotten := branch.gotten.insert getter msg.payload }
  let rctx ← submit_if_ended native_component_id rctx predicate branch
  return (rctx, branch)

-- The loop body of `feed_msg`, which visits one branch.
def visit_branch (rctx : RoundCtx) (finished : HashMap Predicate NativeBranch)
    (predicate : Predicate) (branch : NativeBranch) :
    SyncResult (RoundCtx × HashMap Predicate NativeBranch) := do
  let var ← rctx.spec_var_for getter
  if predicate.query var ≠ some .FIRING then
    return (rctx, insert_branch_merging finished predicate branch)
  match predicate.assignment_union msg.predicate with
  | .nonexistant =>
    return (rctx, insert_branch_merging finished predicate branch)
  | .equivalent | .formerNotLatter =>
    let (rctx, branch) ← feed_branch native_component_id getter msg rctx branch predicate
    return (rctx, insert_branch_merging finished predicate branch)
  | .latterNotFormer =>
    let predicate2 := msg.predicate
    let (rctx, branch2) ← feed_branch native_component_id getter msg rctx branch predicate2
    let finished := insert_branch_merging finished predicate branch
    return (rctx, insert_branch_merging finished predicate2 branch2)
  | .new predicate2 =>
    let (rctx, branch2) ← feed_branch native_component_id getter msg rctx branch predicate2
    let finished := insert_branch_merging finished predicate branch
    return (rctx, insert_branch_merging finished predicate2 branch2)

-- Drains the branches in the given order of their predicates.
def visit_branches (draining : HashMap Predicate NativeBranch) :
    List Predicate → RoundCtx × HashMap Predicate NativeBranch →
    SyncResult (RoundCtx × HashMap Predicate NativeBranch)
  | [], acc => return acc
  | predicate :: order, (rctx, finished) => do
    match draining.get? predicate with
    | none        => throw .invalid
    | some branch =>
      let acc ← visit_branch native_component_id getter msg rctx finished predicate branch
      visit_branches draining order acc

def feed_msg (rctx : RoundCtx) (native : BranchingNative) (order : List Predicate) :
    SyncResult (RoundCtx × BranchingNative) := do
  SyncResult.choose (Iterates order (Finmap.keys native.branches))
  let polarity ← rctx.polarity getter
  SyncResult.assert .wrongPolarity (polarity = .getter)
  let (rctx, finished) ←
    visit_branches native_component_id getter msg native.branches order (rctx, ∅)
  return (rctx, { branches := finished })

end

-- The first branch, in the given order, that has ended and is consistent with the solution.
def collapse_with (native : BranchingNative) (order : List Predicate)
    (solution_predicate : Predicate) : SyncResult RoundEndedNative := do
  SyncResult.choose (Iterates order (Finmap.keys native.branches))
  let found := order.findSome? fun branch_predicate =>
    (native.branches.get? branch_predicate).bind fun branch =>
      if branch.is_ended ∧ branch_predicate.assigns_subset solution_predicate then some branch
      else none
  let branch ← SyncResult.unwrap .noMatchingBranch found
  return { batch_index := branch.index, gotten := branch.gotten }

-- The orders in which the sets of a batch are visited when it is made into a branch.
structure BatchOrder where
  firing : List PortId
  owned  : List PortId
  puts   : List PortId
deriving DecidableEq

-- The loops over the firing and over the silent ports. There is no predicate for a batch in which
-- one end of a channel fires and the other end, which the native owns too, does not.
def assign_firing (port_info : PortInfoMap) :
    List PortId → Predicate → SyncResult Predicate
  | [], predicate => return predicate
  | port :: ports, predicate => do
    let var ← SyncResult.unwrap .unknownPort (port_info.spec_var_for port)
    assign_firing port_info ports (predicate.inserted var .FIRING)

def assign_silent (port_info : PortInfoMap) (firing_ports : Finset PortId) :
    List PortId → Predicate → SyncResult (Option Predicate)
  | [], predicate => return some predicate
  | port :: ports, predicate => do
    if port ∈ firing_ports then
      assign_silent port_info firing_ports ports predicate
    else
      let var ← SyncResult.unwrap .unknownPort (port_info.spec_var_for port)
      if predicate.query var = some .FIRING then
        return none
      else
        assign_silent port_info firing_ports ports (predicate.inserted var .SILENT)

def firing_ports (batch : NativeBatch) : Finset PortId :=
  batch.to_get ∪ Finmap.keys batch.to_put

def batch_predicate (port_info : PortInfoMap) (native_component_id : ComponentId)
    (native_spec_var : SpecVar) (branch_spec_val : SpecVal) (batch : NativeBatch)
    (order : BatchOrder) : SyncResult (Option Predicate) := do
  SyncResult.choose (Iterates order.firing (firing_ports batch))
  SyncResult.choose (Iterates order.owned (port_info.ports_owned_by native_component_id))
  let predicate ← assign_firing port_info order.firing ∅
  let predicate ← assign_silent port_info (firing_ports batch) order.owned predicate
  return predicate.map (·.inserted native_spec_var branch_spec_val)

def send_puts (predicate : Predicate) (to_put : HashMap PortId Payload) :
    List PortId → RoundCtx → SyncResult RoundCtx
  | [], rctx => return rctx
  | putter :: putters, rctx => do
    match to_put.get? putter with
    | none         => throw .invalid
    | some payload =>
      let polarity ← rctx.polarity putter
      SyncResult.assert .wrongPolarity (polarity = .putter)
      let rctx ← rctx.putter_push putter { predicate := predicate, payload := payload }
      send_puts predicate to_put putters rctx

-- The loop body that makes a batch into a branch. The ports are those from before the round.
def start_batch (cu_ports : PortInfoMap) (native_component_id : ComponentId)
    (native_spec_var : SpecVar) (index : Nat) (batch : NativeBatch) (order : BatchOrder)
    (rctx : RoundCtx) (native : BranchingNative) : SyncResult (RoundCtx × BranchingNative) := do
  let some predicate ← batch_predicate cu_ports native_component_id native_spec_var
    (SpecVal.iter_domain index) batch order | return (rctx, native)
  SyncResult.choose (Iterates order.puts (Finmap.keys batch.to_put))
  let rctx ← send_puts predicate batch.to_put order.puts rctx
  let branch : NativeBranch := { index := index, gotten := ∅, to_get := batch.to_get }
  let rctx ← submit_if_ended native_component_id rctx predicate branch
  SyncResult.assert .duplicateBatch (native.branches.get? predicate = none)
  return (rctx, { branches := native.branches.insert predicate branch })

def start_batches (cu_ports : PortInfoMap) (native_component_id : ComponentId)
    (native_spec_var : SpecVar) : Nat → List (NativeBatch × BatchOrder) →
    RoundCtx × BranchingNative → SyncResult (RoundCtx × BranchingNative)
  | _, [], acc => return acc
  | index, (batch, order) :: batches, (rctx, native) => do
    let acc ← start_batch cu_ports native_component_id native_spec_var index batch order rctx native
    start_batches cu_ports native_component_id native_spec_var (index + 1) batches acc

end BranchingNative
end Reowolf
