import Reowolf.Runtime.Round

namespace Reowolf

variable {S : Type}

inductive SyncBlocker
  | inconsistent
  | syncBlockEnd
  | couldntReadMsg (port : PortId)
  | couldntCheckFiring (port : PortId)
  | putMsg (putter : PortId) (payload : Payload)
deriving DecidableEq

structure ProtoComponentBranchInner where
  did_put_or_get : Finset PortId
  inbox          : HashMap PortId Payload
deriving DecidableEq

instance : EmptyCollection ProtoComponentBranchInner :=
  ⟨⟨∅, ∅⟩⟩

-- The component has put or gotten a message through the port.
def ProtoComponentBranchInner.noting (inner : ProtoComponentBranchInner) (port : PortId) :
    ProtoComponentBranchInner :=
  { inner with did_put_or_get := insert port inner.did_put_or_get }

structure ProtoComponentBranch (S : Type) where
  state : S
  inner : ProtoComponentBranchInner
  ended : Bool
deriving DecidableEq

abbrev Branches (S : Type) :=
  HashMap Predicate (ProtoComponentBranch S)

structure CyclicDrainer (S : Type) where
  input  : Branches S
  swap   : Branches S
  output : Branches S

instance : EmptyCollection (CyclicDrainer S) :=
  ⟨⟨∅, ∅, ∅⟩⟩

-- What a component is busy with: nothing, the first loop of `feed_msg`, or
-- `drain_branches_to_blocked`.
inductive Activity
  | settled
  | visiting (getter : PortId) (msg : SendPayloadMsg)
  | draining
deriving DecidableEq

-- The branches, together with the temporary maps that are in use while the component is busy. In
-- `feed_msg` these are called `unblocked` (the input), and `blocked` (the output).
structure BranchingProtoComponent (S : Type) where
  branches : Branches S
  drainer  : CyclicDrainer S
  activity : Activity

-- A component runs on a fixed state of the ports, and with the predicate of one of its branches.
structure SyncProtoContext where
  port_info : PortInfoMap
  predicate : Predicate

namespace SyncProtoContext

def is_firing (ctx : SyncProtoContext) (port : PortId) : SyncResult (Option Bool) := do
  let var ← SyncResult.unwrap .unknownPort (ctx.port_info.spec_var_for port)
  return (ctx.predicate.query var).map SpecVal.is_firing

end SyncProtoContext

-- Runs a component to its next blocker. A blocked component retries the operation that blocked it.
def sync_run (pd : ProtocolDescription S) (ctx : SyncProtoContext) :
    Nat → S × ProtoComponentBranchInner → SyncResult (SyncBlocker × S × ProtoComponentBranchInner)
  | 0, _ => throw .invalid
  | fuel + 1, (state, inner) =>
    match pd.sync state with
    | .step next => sync_run pd ctx fuel (next, inner)
    | .inconsistent => return (.inconsistent, state, inner)
    | .syncBlockEnd next => return (.syncBlockEnd, next, inner)
    | .fires port next => do
      match ← ctx.is_firing port with
      | some firing => sync_run pd ctx fuel (next firing, inner)
      | none        => return (.couldntCheckFiring port, state, inner)
    | .get port next =>
      match inner.inbox.get? port with
      | some payload => sync_run pd ctx fuel (next payload, inner.noting port)
      | none         => return (.couldntReadMsg port, state, inner)
    | .put port payload next =>
      if port ∈ inner.did_put_or_get then
        sync_run pd ctx fuel (next, inner)
      else
        return (.putMsg port payload, state, inner)

namespace ProtoComponentBranch

def feed_msg (branch : ProtoComponentBranch S) (getter : PortId) (payload : Payload) :
    SyncResult (ProtoComponentBranch S) :=
  match branch.inner.inbox.get? getter with
  | none =>
    let inbox := branch.inner.inbox.insert getter payload
    return { branch with inner := { branch.inner with inbox := inbox } }
  | some was => do
    SyncResult.assert .payloadMismatch (was = payload)
    return branch

-- The existing branch is kept in place, with the union of the two inboxes.
def merge (old branch : ProtoComponentBranch S) : ProtoComponentBranch S :=
  { old with inner := { old.inner with inbox := branch.inner.inbox.override old.inner.inbox } }

end ProtoComponentBranch

namespace BranchingProtoComponent

-- The branch with which speculation begins is about to be drained.
def initial (state : S) : BranchingProtoComponent S where
  branches := ∅
  drainer  := { (∅ : CyclicDrainer S) with input := HashMap.insert ∅ ∅ ⟨state, ∅, false⟩ }
  activity := .draining

def insert_branch_merging (branches : Branches S) (predicate : Predicate)
    (branch : ProtoComponentBranch S) : Branches S :=
  branches.insertWith ProtoComponentBranch.merge predicate branch

-- The ports that a component owns, but has not exchanged a message on, become SILENT. There is no
-- predicate if a port was speculated to fire and did not, or the other way around.
def complete (port_info : PortInfoMap) (did_put_or_get : Finset PortId) :
    List PortId → Predicate → SyncResult (Option Predicate)
  | [], predicate => return some predicate
  | port :: ports, predicate => do
    let var ← SyncResult.unwrap .unknownPort (port_info.spec_var_for port)
    let val := (predicate.query var).getD .SILENT
    if decide (port ∈ did_put_or_get) ≠ decide (val = .FIRING) then
      return none
    else
      complete port_info did_put_or_get ports (predicate.inserted var val)

-- What `drain_branches_to_blocked` does with a branch that has reached a blocker. The order is the
-- one in which the ports that the component owns are visited when its synchronous block ends.
def handle_blocker (proto_component_id : ComponentId) (order : List PortId) (rctx : RoundCtx)
    (cd : CyclicDrainer S) (predicate : Predicate) (branch : ProtoComponentBranch S) :
    SyncBlocker → SyncResult (RoundCtx × CyclicDrainer S)
  | .inconsistent => return (rctx, cd)
  | .couldntReadMsg port => do
    SyncResult.assert .messageAvailable (branch.inner.inbox.get? port = none)
    return (rctx, { cd with output := insert_branch_merging cd.output predicate branch })
  | .couldntCheckFiring port => do
    let var ← rctx.spec_var_for port
    SyncResult.assert .firingKnown (predicate.query var = none)
    let swap := insert_branch_merging cd.swap (predicate.inserted var .SILENT) branch
    let swap := insert_branch_merging swap (predicate.inserted var .FIRING) branch
    return (rctx, { cd with swap := swap })
  | .putMsg putter payload => do
    let polarity ← rctx.polarity putter
    SyncResult.assert .wrongPolarity (polarity = .putter)
    let var ← rctx.spec_var_for putter
    if predicate.query var = some .SILENT then
      return (rctx, cd)
    let predicate := predicate.inserted var .FIRING
    SyncResult.assert .secondPut (putter ∉ branch.inner.did_put_or_get)
    let branch := { branch with inner := branch.inner.noting putter }
    let rctx ← rctx.putter_push putter { predicate := predicate, payload := payload }
    return (rctx, { cd with swap := insert_branch_merging cd.swap predicate branch })
  | .syncBlockEnd => do
    SyncResult.choose (Iterates order (rctx.ips.port_info.ports_owned_by proto_component_id))
    match ← complete rctx.ips.port_info branch.inner.did_put_or_get order predicate with
    | none           => return (rctx, cd)
    | some predicate =>
      let rctx ← rctx.submit (.localComponent proto_component_id) predicate
      let branch := { branch with ended := true }
      return (rctx, { cd with output := insert_branch_merging cd.output predicate branch })

-- The body of the inner loop of `drain_branches_to_blocked`.
def run_branch (pd : ProtocolDescription S) (proto_component_id : ComponentId) (fuel : Nat)
    (order : List PortId) (rctx : RoundCtx) (cd : CyclicDrainer S) (predicate : Predicate)
    (branch : ProtoComponentBranch S) : SyncResult (RoundCtx × CyclicDrainer S) := do
  let ctx := { port_info := rctx.ips.port_info, predicate := predicate }
  let (blocker, state, inner) ← sync_run pd ctx fuel (branch.state, branch.inner)
  let branch := { branch with state := state, inner := inner }
  handle_blocker proto_component_id order rctx cd predicate branch blocker

-- The body of the loop of `feed_msg`. A branch that receives the message is unblocked, all others
-- stay blocked.
def visit_branch (getter : PortId) (msg : SendPayloadMsg) (cd : CyclicDrainer S)
    (predicate : Predicate) (branch : ProtoComponentBranch S) : SyncResult (CyclicDrainer S) :=
  if branch.ended then
    return { cd with output := insert_branch_merging cd.output predicate branch }
  else
    match predicate.assignment_union msg.predicate with
    | .nonexistant =>
      return { cd with output := insert_branch_merging cd.output predicate branch }
    | .equivalent | .formerNotLatter => do
      let branch ← branch.feed_msg getter msg.payload
      return { cd with input := insert_branch_merging cd.input predicate branch }
    | .latterNotFormer => do
      let branch2 ← branch.feed_msg getter msg.payload
      return { cd with
        output := insert_branch_merging cd.output predicate branch
        input  := insert_branch_merging cd.input msg.predicate branch2 }
    | .new predicate2 => do
      let branch2 ← branch.feed_msg getter msg.payload
      return { cd with
        output := insert_branch_merging cd.output predicate branch
        input  := insert_branch_merging cd.input predicate2 branch2 }

-- The first branch, in the given order, that has ended and is consistent with the solution.
def collapse_with (branches : Branches S) (order : List Predicate)
    (solution_predicate : Predicate) : SyncResult S := do
  SyncResult.choose (Iterates order (Finmap.keys branches))
  let found := order.findSome? fun branch_predicate =>
    (branches.get? branch_predicate).bind fun branch =>
      if branch.ended ∧ branch_predicate.assigns_subset solution_predicate then some branch
      else none
  let branch ← SyncResult.unwrap .noMatchingBranch found
  return branch.state

-- The steps that make up `feed_msg` and `drain_branches_to_blocked`. Both visit the branches of a
-- map in any order, each of them once.
inductive Act
  | feed_msg (getter : PortId) (msg : SendPayloadMsg)
  | visit (predicate : Predicate)
  | drain
  | run (predicate : Predicate) (fuel : Nat) (order : List PortId)
  | cycle
  | settle
deriving DecidableEq

def step (pd : ProtocolDescription S) (proto_component_id : ComponentId) (rctx : RoundCtx)
    (c : BranchingProtoComponent S) : Act → SyncResult (RoundCtx × BranchingProtoComponent S)
  | .feed_msg getter msg => do
    SyncResult.choose (c.activity = .settled)
    return (rctx, { c with activity := .visiting getter msg })
  | .visit predicate =>
    match c.activity, c.branches.get? predicate with
    | .visiting getter msg, some branch => do
      let drainer ← visit_branch getter msg c.drainer predicate branch
      return (rctx, { c with branches := c.branches.erase predicate, drainer := drainer })
    | _, _ => throw .invalid
  | .drain =>
    match c.activity with
    | .visiting _ _ => do
      SyncResult.choose c.branches.IsEmpty
      return (rctx, { c with activity := .draining })
    | _ => throw .invalid
  | .run predicate fuel order =>
    match c.activity, c.drainer.input.get? predicate with
    | .draining, some branch => do
      let cd := { c.drainer with input := c.drainer.input.erase predicate }
      let (rctx, drainer) ←
        run_branch pd proto_component_id fuel order rctx cd predicate branch
      return (rctx, { c with drainer := drainer })
    | _, _ => throw .invalid
  | .cycle => do
    SyncResult.choose (c.activity = .draining ∧ c.drainer.input.IsEmpty)
    let drainer := { c.drainer with input := c.drainer.swap, swap := ∅ }
    return (rctx, { c with drainer := drainer })
  | .settle => do
    SyncResult.choose (c.activity = .draining ∧ c.drainer.input.IsEmpty ∧ c.drainer.swap.IsEmpty)
    return (rctx, { branches := c.drainer.output, drainer := ∅, activity := .settled })

-- All that `handle_blocker` can do with a branch.
inductive Handled (proto_component_id : ComponentId) (order : List PortId) (rctx : RoundCtx)
    (cd : CyclicDrainer S) (predicate : Predicate) (branch : ProtoComponentBranch S) :
    SyncBlocker → RoundCtx → CyclicDrainer S → Prop
  | inconsistent :
    Handled _ _ _ _ _ _ .inconsistent rctx cd
  | waits {port} :
    branch.inner.inbox.get? port = none →
    Handled _ _ _ _ _ _ (.couldntReadMsg port) rctx
      { cd with output := insert_branch_merging cd.output predicate branch }
  | forks {port var} :
    rctx.ips.port_info.spec_var_for port = some var →
    predicate.query var = none →
    Handled _ _ _ _ _ _ (.couldntCheckFiring port) rctx
      { cd with
        swap := insert_branch_merging
          (insert_branch_merging cd.swap (predicate.inserted var .SILENT) branch)
          (predicate.inserted var .FIRING) branch }
  | silent {putter payload var} :
    rctx.ips.port_info.spec_var_for putter = some var →
    predicate.query var = some .SILENT →
    Handled _ _ _ _ _ _ (.putMsg putter payload) rctx cd
  | puts {putter payload var getter} :
    rctx.ips.port_info.spec_var_for putter = some var →
    predicate.query var ≠ some .SILENT →
    putter ∉ branch.inner.did_put_or_get →
    (rctx.ips.port_info.map.get? putter).map (·.polarity) = some .putter →
    (rctx.ips.port_info.map.get? putter).bind (·.peer) = some getter →
    Handled _ _ _ _ _ _ (.putMsg putter payload)
      (rctx.getter_push getter ⟨predicate.inserted var .FIRING, payload⟩)
      { cd with
        swap := insert_branch_merging cd.swap (predicate.inserted var .FIRING)
          { branch with inner := branch.inner.noting putter } }
  | incomplete :
    complete rctx.ips.port_info branch.inner.did_put_or_get order predicate = .ok none →
    Handled _ _ _ _ _ _ .syncBlockEnd rctx cd
  | ends {completed rctx'} :
    Iterates order (rctx.ips.port_info.ports_owned_by proto_component_id) →
    complete rctx.ips.port_info branch.inner.did_put_or_get order predicate = .ok (some completed) →
    rctx.Submitted (.localComponent proto_component_id) {completed} rctx' →
    Handled _ _ _ _ _ _ .syncBlockEnd rctx'
      { cd with output := insert_branch_merging cd.output completed { branch with ended := true } }

variable {proto_component_id : ComponentId} {order : List PortId} {rctx rctx' : RoundCtx}
variable {cd cd' : CyclicDrainer S} {predicate : Predicate} {branch : ProtoComponentBranch S}
variable {blocker : SyncBlocker} {pd : ProtocolDescription S} {fuel : Nat}

theorem handle_blocker_cases
    (h : handle_blocker proto_component_id order rctx cd predicate branch blocker = .ok (rctx', cd')) :
    Handled proto_component_id order rctx cd predicate branch blocker rctx' cd' := by
  cases blocker
  case inconsistent =>
    cases h
    exact .inconsistent
  case couldntReadMsg port =>
    simp only [handle_blocker, SyncResult.bind_eq_ok, SyncResult.assert_eq_ok] at h
    obtain ⟨_, hi, h⟩ := h
    cases h
    exact .waits hi
  case couldntCheckFiring port =>
    simp only [handle_blocker, SyncResult.bind_eq_ok, SyncResult.assert_eq_ok, RoundCtx.spec_var_for,
      SyncResult.unwrap_eq_ok] at h
    obtain ⟨_, hv, _, hq, h⟩ := h
    cases h
    exact .forks hv hq
  case putMsg putter payload =>
    simp only [handle_blocker, SyncResult.bind_eq_ok, SyncResult.assert_eq_ok, RoundCtx.spec_var_for,
      SyncResult.unwrap_eq_ok, RoundCtx.polarity, SyncResult.pure_eq_ok] at h
    obtain ⟨pol, ⟨info, hi, hpol⟩, _, hp, var, hv, h⟩ := h
    split at h
    case isTrue hq =>
      cases h
      exact .silent hv hq
    case isFalse hq =>
      simp only [RoundCtx.putter_push, SyncResult.bind_eq_ok, SyncResult.assert_eq_ok,
        SyncResult.unwrap_eq_ok, SyncResult.pure_eq_ok] at h
      obtain ⟨_, hn, rctx'', ⟨info', hi', getter, hg, hr⟩, h⟩ := h
      cases hi.symm.trans hi'
      subst hr
      cases h
      exact .puts hv hq hn (by simp [hi, hpol, hp]) (by simp [hi, hg])
  case syncBlockEnd =>
    simp only [handle_blocker, SyncResult.bind_eq_ok, SyncResult.choose_eq_ok] at h
    obtain ⟨_, ho, completed, hc, h⟩ := h
    cases completed
    case none =>
      cases h
      exact .incomplete hc
    case some completed =>
      obtain ⟨rctx'', hs, h⟩ := SyncResult.bind_eq_ok.mp h
      cases h
      exact .ends ho hc (RoundCtx.submitted_of_submit hs)

theorem run_branch_cases
    (h : run_branch pd proto_component_id fuel order rctx cd predicate branch = .ok (rctx', cd')) :
    ∃ blocker state inner,
      sync_run pd ⟨rctx.ips.port_info, predicate⟩ fuel (branch.state, branch.inner) =
        .ok (blocker, state, inner) ∧
      Handled proto_component_id order rctx cd predicate
        { branch with state := state, inner := inner } blocker rctx' cd' := by
  obtain ⟨⟨blocker, state, inner⟩, hr, h⟩ := SyncResult.bind_eq_ok.mp h
  exact ⟨blocker, state, inner, hr, handle_blocker_cases h⟩

-- All that a step of a component can do.
inductive Stepped (pd : ProtocolDescription S) (proto_component_id : ComponentId)
    (rctx : RoundCtx) (c : BranchingProtoComponent S) :
    Act → RoundCtx → BranchingProtoComponent S → Prop
  | feed_msg {getter msg} :
    c.activity = .settled →
    Stepped _ _ _ _ (.feed_msg getter msg) rctx { c with activity := .visiting getter msg }
  | visit {predicate getter msg branch drainer} :
    c.activity = .visiting getter msg →
    c.branches.get? predicate = some branch →
    visit_branch getter msg c.drainer predicate branch = .ok drainer →
    Stepped _ _ _ _ (.visit predicate) rctx
      { c with branches := c.branches.erase predicate, drainer := drainer }
  | drain {getter msg} :
    c.activity = .visiting getter msg →
    c.branches = ∅ →
    Stepped _ _ _ _ .drain rctx { c with activity := .draining }
  | run {predicate fuel order branch blocker state inner rctx' drainer} :
    c.activity = .draining →
    c.drainer.input.get? predicate = some branch →
    sync_run pd ⟨rctx.ips.port_info, predicate⟩ fuel (branch.state, branch.inner) =
      .ok (blocker, state, inner) →
    Handled proto_component_id order rctx
      { c.drainer with input := c.drainer.input.erase predicate } predicate
      { branch with state := state, inner := inner } blocker rctx' drainer →
    Stepped _ _ _ _ (.run predicate fuel order) rctx' { c with drainer := drainer }
  | cycle :
    c.activity = .draining →
    c.drainer.input = ∅ →
    Stepped _ _ _ _ .cycle rctx
      { c with drainer := { c.drainer with input := c.drainer.swap, swap := ∅ } }
  | settle :
    c.activity = .draining →
    c.drainer.input = ∅ →
    c.drainer.swap = ∅ →
    Stepped _ _ _ _ .settle rctx
      { branches := c.drainer.output, drainer := ∅, activity := .settled }

theorem step_cases {c c' : BranchingProtoComponent S} {a : Act}
    (h : c.step pd proto_component_id rctx a = .ok (rctx', c')) :
    Stepped pd proto_component_id rctx c a rctx' c' := by
  cases a
  case feed_msg getter msg =>
    obtain ⟨_, ha, h⟩ := SyncResult.bind_eq_ok.mp h
    cases h
    exact .feed_msg (SyncResult.choose_eq_ok.mp ha)
  case visit predicate =>
    simp only [step] at h
    split at h
    case h_2 => cases h
    case h_1 ha hb =>
      obtain ⟨_, hv, h⟩ := SyncResult.bind_eq_ok.mp h
      cases h
      exact .visit ha hb hv
  case drain =>
    simp only [step] at h
    split at h
    case h_2 => cases h
    case h_1 ha =>
      obtain ⟨_, he, h⟩ := SyncResult.bind_eq_ok.mp h
      cases h
      exact .drain ha (HashMap.isEmpty_iff.mp (SyncResult.choose_eq_ok.mp he))
  case run predicate fuel order =>
    simp only [step] at h
    split at h
    case h_2 => cases h
    case h_1 ha hb =>
      obtain ⟨_, hr, h⟩ := SyncResult.bind_eq_ok.mp h
      cases h
      obtain ⟨_, _, _, hs, hh⟩ := run_branch_cases hr
      exact .run ha hb hs hh
  case cycle =>
    obtain ⟨_, ha, h⟩ := SyncResult.bind_eq_ok.mp h
    cases h
    obtain ⟨ha, hi⟩ := SyncResult.choose_eq_ok.mp ha
    exact .cycle ha (HashMap.isEmpty_iff.mp hi)
  case settle =>
    obtain ⟨_, ha, h⟩ := SyncResult.bind_eq_ok.mp h
    cases h
    obtain ⟨ha, hi, hs⟩ := SyncResult.choose_eq_ok.mp ha
    exact .settle ha (HashMap.isEmpty_iff.mp hi) (HashMap.isEmpty_iff.mp hs)

end BranchingProtoComponent
end Reowolf
