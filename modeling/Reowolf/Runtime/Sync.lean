import Mathlib.Data.Finset.Sort
import Reowolf.Runtime.Native
import Reowolf.Runtime.ProtoComponent
import Reowolf.Runtime.Topology

namespace Reowolf

variable {S : Type}

inductive NonsyncBlocker
  | inconsistent
  | componentExit
  | syncBlockStart
deriving DecidableEq

-- The vector of components that are yet to run is pushed and popped at its end. Here that end comes
-- first.
structure NonsyncProtoContext (S : Type) where
  ips                : IdAndPortState
  proto_component_id : ComponentId
  unrun_components   : List (ComponentId × S)

-- The order in which the source visits the moved ports makes no difference.
def nonsync_run (pd : ProtocolDescription S) :
    Nat → NonsyncProtoContext S → S → SyncResult (NonsyncBlocker × NonsyncProtoContext S × S)
  | 0, _, _ => throw .invalid
  | fuel + 1, ctx, state =>
    match pd.nonsync state with
    | .step next => nonsync_run pd fuel ctx next
    | .newChannel next => do
      let (ips, o, i) ← SyncResult.unwrap .newChannel <|
        NonsyncProtoContext.new_port_pair ctx.ips ctx.proto_component_id
      nonsync_run pd fuel { ctx with ips := ips } (next o i)
    | .newComponent moved_ports init next => do
      let (ips, new_cid) ← SyncResult.unwrap .newComponent <|
        NonsyncProtoContext.new_component ctx.ips ctx.proto_component_id moved_ports.sort
      let ctx := { ctx with ips := ips, unrun_components := (new_cid, init) :: ctx.unrun_components }
      nonsync_run pd fuel ctx next
    | .inconsistent => return (.inconsistent, ctx, state)
    | .exit => return (.componentExit, ctx, state)
    | .syncBlockStart next => return (.syncBlockStart, ctx, next)

abbrev Components (S : Type) :=
  HashMap ComponentId (BranchingProtoComponent S)

-- Runs all components until they enter their synchronous blocks. It fails with the id of a component
-- that is inconsistent.
def nonsync_run_all (pd : ProtocolDescription S) :
    Nat → IdAndPortState × List (ComponentId × S) × Components S →
    SyncResult (Except ComponentId (IdAndPortState × Components S))
  | _, (ips, [], branching_proto_components) => return .ok (ips, branching_proto_components)
  | 0, _ => throw .invalid
  | fuel + 1, (ips, (cid, component) :: unrun, branching_proto_components) => do
    let (blocker, ctx, state) ← nonsync_run pd fuel ⟨ips, cid, unrun⟩ component
    match blocker with
    | .inconsistent => return .error cid
    | .componentExit =>
      nonsync_run_all pd fuel (ctx.ips, ctx.unrun_components, branching_proto_components)
    | .syncBlockStart =>
      SyncResult.assert .secondComponent (branching_proto_components.get? cid = none)
      nonsync_run_all pd fuel (ctx.ips, ctx.unrun_components,
        branching_proto_components.insert cid (.initial state))

-- Where `sync_reach_decision` is in its work.
inductive SyncStage
  | entering                                 -- looks whether the native has any branches
  | starting (unrun : List ComponentId)      -- runs the components to their first blockers
  | routing                                  -- handles the messages in the payload inbox
  | feeding (cid : ComponentId)              -- feeds a component a message
  | forwarding                               -- forwards the new solutions
  | receiving (some_message_enqueued : Bool) -- receives from the endpoints
deriving DecidableEq

-- The local variables of a call of `sync` that has not reached a decision yet.
structure Round (S : Type) where
  rctx                       : RoundCtx
  branching_native           : BranchingNative
  branching_proto_components : Components S
  already_requested_failure  : Bool
  stage                      : SyncStage

-- The orders in which the hash maps are visited as a round begins, and the fuel for the components.
structure RoundOrders where
  fuel     : Nat
  unrun    : List ComponentId
  subtrees : List ComponentId
  batches  : List BranchingNative.BatchOrder
deriving DecidableEq

-- The children of a connector in the solution tree.
def subtree_ids (native_component_id : ComponentId) (components : List ComponentId)
    (neighborhood : Neighborhood) : List SubtreeId :=
  .localComponent native_component_id :: components.map .localComponent ++
    neighborhood.children.map .netEndpoint

-- The beginning of `connected_sync`, up to the call of `sync_reach_decision`.
def begin_round (pd : ProtocolDescription S) (cu : ConnectorUnphased S)
    (comm : ConnectorCommunication) (timeout : Bool) (orders : RoundOrders) :
    SyncResult (Except ComponentId (Round S)) := do
  SyncResult.choose (Iterates orders.unrun (Finmap.keys cu.proto_components))
  let unrun := orders.unrun.filterMap fun cid => (cu.proto_components.get? cid).map (cid, ·)
  match ← nonsync_run_all pd orders.fuel (cu.ips, unrun, ∅) with
  | .error cid => return .error cid
  | .ok (ips, branching_proto_components) =>
    SyncResult.choose (Iterates orders.subtrees (Finmap.keys branching_proto_components))
    SyncResult.choose (orders.batches.length = comm.native_batches.length)
    let ids := subtree_ids cu.native_component_id orders.subtrees comm.neighborhood
    let (native_spec_var, spec_var_stream) ← SyncResult.unwrap .newChannel <|
      cu.ips.id_manager.new_spec_var_stream.next
    let rctx := {
      solution_storage := .new ids
      spec_var_stream  := spec_var_stream
      payload_inbox    := []
      deadline         := timeout
      ips              := ips
    }
    let (rctx, branching_native) ← BranchingNative.start_batches cu.ips.port_info
      cu.native_component_id native_spec_var 0 (comm.native_batches.zip orders.batches) (rctx, ⟨∅⟩)
    return .ok {
      rctx                       := rctx
      branching_native           := branching_native
      branching_proto_components := branching_proto_components
      already_requested_failure  := false
      stage                      := .entering
    }

-- What a step of `sync_reach_decision` comes to: the messages that it sends, and possibly a decision.
structure Progress (S : Type) where
  endpoint_manager : EndpointManager
  round            : Round S
  out              : List (Nat × CommMsgContents)
  decision         : Option Decision

namespace EndpointManager

-- In the source the delayed messages are appended to the undelayed ones, and the last one is popped.
def undelay_all (em : EndpointManager) : EndpointManager :=
  { em with
    delayed_messages   := []
    undelayed_messages := em.delayed_messages ++ em.undelayed_messages }

-- The payloads that are sent out are not of interest. A failed round leaves the endpoints as they
-- are.
def udp_endpoints_round_end (em : EndpointManager) : Decision → EndpointManager
  | .failure   => em
  | .success _ =>
    let reset (ee : UdpEndpointExt) : UdpEndpointExt :=
      { ee with received_this_round := false, outgoing_payloads := ∅ }
    { em with udp_endpoint_store := em.udp_endpoint_store.map reset }

end EndpointManager

namespace Round

-- The steps of `sync_reach_decision`, with the orders in which the components and the native's
-- branches are visited.
inductive Act
  | checkNative (order : List ComponentId)
  | component (a : BranchingProtoComponent.Act)
  | enterLoop
  | route (order : List Predicate)
  | routed
  | forward (solution : Predicate)
  | forwarded
  | undelayed
  | net (net_index : Nat) (msg : Msg)
  | udp (index : Nat) (payload : Payload)
  | payloads
  | timeout
deriving DecidableEq

-- Without a parent the connector decides on failure. Otherwise it asks its parent to, but only once.
def fail_round (comm : ConnectorCommunication) (round : Round S) : Progress S :=
  match comm.neighborhood.parent with
  | none => ⟨comm.endpoint_manager, round, [], some .failure⟩
  | some parent =>
    if round.already_requested_failure then
      ⟨comm.endpoint_manager, round, [], none⟩
    else
      ⟨comm.endpoint_manager, { round with already_requested_failure := true },
        [(parent, .commCtrl (.suggest .failure))], none⟩

-- A component takes a step. Once all of its branches are blocked it must have one.
def step_component (pd : ProtocolDescription S) (comm : ConnectorCommunication) (round : Round S)
    (cid : ComponentId) (next : SyncStage) (a : BranchingProtoComponent.Act) :
    SyncResult (Progress S) :=
  match round.branching_proto_components.get? cid with
  | none => throw .invalid
  | some component => do
    let (rctx, component) ← component.step pd cid round.rctx a
    let round := { round with
      rctx                       := rctx
      branching_proto_components := round.branching_proto_components.insert cid component }
    if component.activity ≠ .settled then
      return ⟨comm.endpoint_manager, round, [], none⟩
    let round := { round with stage := next }
    if component.branches.IsEmpty then
      return fail_round comm round
    return ⟨comm.endpoint_manager, round, [], none⟩

-- A message to a component that has exited is dropped.
def route (pd : ProtocolDescription S) (native_component_id : ComponentId)
    (comm : ConnectorCommunication) (round : Round S) (getter : PortId) (msg : SendPayloadMsg)
    (order : List Predicate) : SyncResult (Progress S) := do
  let em := comm.endpoint_manager
  let getter_info ← SyncResult.unwrap .unknownPort (round.rctx.ips.port_info.map.get? getter)
  let cid := getter_info.owner
  SyncResult.assert .wrongPolarity (getter_info.polarity = .getter)
  match getter_info.route with
  | .udpEndpoint index =>
    let ee ← SyncResult.unwrap .unknownEndpoint em.udp_endpoint_store[index]?
    let ee := { ee with outgoing_payloads := ee.outgoing_payloads.insert msg.predicate msg.payload }
    return ⟨{ em with udp_endpoint_store := em.udp_endpoint_store.set index ee }, round, [], none⟩
  | .netEndpoint index =>
    SyncResult.assert .unknownEndpoint (index < em.net_endpoint_store.length)
    return ⟨em, round, [(index, .sendPayload msg)], none⟩
  | .localComponent =>
    if cid = native_component_id then
      let (rctx, native) ← round.branching_native.feed_msg native_component_id getter msg
        round.rctx order
      return ⟨em, { round with rctx := rctx, branching_native := native }, [], none⟩
    else if (round.branching_proto_components.get? cid).isSome then
      step_component pd comm { round with stage := .feeding cid } cid .routing (.feed_msg getter msg)
    else
      return ⟨em, round, [], none⟩

-- Suggestions are only accepted from children, and announcements only from the parent.
def handle_ctrl (comm : ConnectorCommunication) (round : Round S) (net_index : Nat) :
    CommCtrlMsg → SyncResult (Progress S)
  | .suggest suggestion =>
    if net_index ∈ comm.neighborhood.children then
      match suggestion with
      | .success predicate => do
        let rctx ← round.rctx.submit (.netEndpoint net_index) predicate
        return ⟨comm.endpoint_manager, { round with rctx := rctx }, [], none⟩
      | .failure => return fail_round comm round
    else
      return ⟨comm.endpoint_manager, round, [], none⟩
  | .announce decision =>
    if some net_index = comm.neighborhood.parent then
      return ⟨comm.endpoint_manager, round, [], some decision⟩
    else
      return ⟨comm.endpoint_manager, round, [], none⟩

-- Setup messages and those for an earlier round are discarded, and those for a later round delayed.
-- A payload message is enqueued, and a control message of this round is handled at once.
def handle_msg (comm : ConnectorCommunication) (round : Round S) (net_index : Nat) :
    Msg → SyncResult (Progress S)
  | .setupMsg _ => return ⟨comm.endpoint_manager, round, [], none⟩
  | .commMsg msg =>
    if msg.round_index < comm.round_index then
      return ⟨comm.endpoint_manager, round, [], none⟩
    else if comm.round_index < msg.round_index then
      let em := { comm.endpoint_manager with
        delayed_messages := (net_index, .commMsg msg) :: comm.endpoint_manager.delayed_messages }
      return ⟨em, round, [], none⟩
    else
      match msg.contents with
      | .commCtrl ctrl => handle_ctrl comm { round with stage := .routing } net_index ctrl
      | .sendPayload msg => do
        let ee ← SyncResult.unwrap .unknownEndpoint
          comm.endpoint_manager.net_endpoint_store[net_index]?
        let rctx := round.rctx.getter_push ee.getter_for_incoming msg
        return ⟨comm.endpoint_manager, { round with rctx := rctx, stage := .receiving true }, [], none⟩

-- A UDP endpoint takes one message in a round, and loses the others.
def recv_udp (comm : ConnectorCommunication) (round : Round S) (index : Nat) (payload : Payload) :
    SyncResult (Progress S) := do
  let em := comm.endpoint_manager
  let ee ← SyncResult.unwrap .unknownEndpoint em.udp_endpoint_store[index]?
  if ee.received_this_round then
    return ⟨em, round, [], none⟩
  let port_spec_var ← round.rctx.spec_var_for ee.getter_for_incoming
  let predicate := Predicate.singleton port_spec_var .FIRING
  let rctx := round.rctx.getter_push ee.getter_for_incoming ⟨predicate, payload⟩
  let ee := { ee with received_this_round := true }
  return ⟨{ em with udp_endpoint_store := em.udp_endpoint_store.set index ee },
    { round with rctx := rctx, stage := .receiving true }, [], none⟩

-- Messages are received from the endpoints in any order, but undelayed ones come first.
def step (pd : ProtocolDescription S) (native_component_id : ComponentId)
    (comm : ConnectorCommunication) (round : Round S) (a : Act) : SyncResult (Progress S) :=
  let em := comm.endpoint_manager
  match round.stage, a with
  | .entering, .checkNative order => do
    SyncResult.choose (Iterates order (Finmap.keys round.branching_proto_components))
    let round := { round with stage := .starting order }
    if round.branching_native.branches.IsEmpty then
      return fail_round comm round
    return ⟨em, round, [], none⟩
  | .starting (cid :: unrun), .component a =>
    step_component pd comm round cid (.starting unrun) a
  | .starting [], .enterLoop => return ⟨em.undelay_all, { round with stage := .routing }, [], none⟩
  | .routing, .route order =>
    match round.rctx.payload_inbox with
    | [] => throw .invalid
    | (getter, msg) :: payload_inbox =>
      let rctx := { round.rctx with payload_inbox := payload_inbox }
      route pd native_component_id comm { round with rctx := rctx } getter msg order
  | .feeding cid, .component a => step_component pd comm round cid .routing a
  | .routing, .routed => do
    SyncResult.choose (round.rctx.payload_inbox = [])
    return ⟨em, { round with stage := .forwarding }, [], none⟩
  | .forwarding, .forward solution => do
    let storage ← round.rctx.solution_storage.make_old solution
    let round := { round with rctx := { round.rctx with solution_storage := storage } }
    match comm.neighborhood.parent with
    | none        => return ⟨em, round, [], some (.success solution)⟩
    | some parent =>
      return ⟨em, round, [(parent, .commCtrl (.suggest (.success solution)))], none⟩
  | .forwarding, .forwarded => do
    SyncResult.choose (round.rctx.solution_storage.new_local = ∅)
    return ⟨em, { round with stage := .receiving false }, [], none⟩
  | .receiving _, .undelayed =>
    match em.undelayed_messages with
    | [] => throw .invalid
    | (net_index, msg) :: undelayed_messages =>
      let em := { em with undelayed_messages := undelayed_messages }
      handle_msg { comm with endpoint_manager := em } round net_index msg
  | .receiving _, .net net_index msg => do
    SyncResult.choose (em.undelayed_messages = [])
    handle_msg comm round net_index msg
  | .receiving _, .udp index payload => do
    SyncResult.choose (em.undelayed_messages = [])
    recv_udp comm round index payload
  | .receiving true, .payloads => do
    SyncResult.choose (em.undelayed_messages = [])
    return ⟨em, { round with stage := .routing }, [], none⟩
  | .receiving false, .timeout => do
    SyncResult.choose (em.undelayed_messages = [] ∧ round.rctx.deadline)
    let progress := fail_round comm { round with stage := .routing }
    let rctx := { progress.round.rctx with deadline := false }
    return { progress with round := { progress.round with rctx := rctx } }
  | _, _ => throw .invalid

-- The round goes on, or it fails.
inductive Continues (comm : ConnectorCommunication) (round : Round S) : Progress S → Prop
  | on    : Continues comm round ⟨comm.endpoint_manager, round, [], none⟩
  | fails : Continues comm round (fail_round comm round)

-- All that a step of a component can do to its round.
inductive ComponentStepped (pd : ProtocolDescription S) (comm : ConnectorCommunication)
    (round : Round S) (cid : ComponentId) (next : SyncStage) (a : BranchingProtoComponent.Act) :
    Progress S → Prop
  | mk {component rctx' component' stage pr} :
    round.branching_proto_components.get? cid = some component →
    component.step pd cid round.rctx a = .ok (rctx', component') →
    stage = round.stage ∨ component'.activity = .settled ∧ stage = next →
    Continues comm { round with
      rctx                       := rctx'
      branching_proto_components := round.branching_proto_components.insert cid component'
      stage                      := stage } pr →
    ComponentStepped _ _ _ _ _ _ pr

-- All that can happen to a message for a getter.
inductive Routed (pd : ProtocolDescription S) (native_component_id : ComponentId)
    (comm : ConnectorCommunication) (round : Round S) (getter : PortId) (msg : SendPayloadMsg)
    (order : List Predicate) : Progress S → Prop
  | udpEndpoint {info index ee} :
    round.rctx.ips.port_info.map.get? getter = some info →
    info.route = .udpEndpoint index →
    comm.endpoint_manager.udp_endpoint_store[index]? = some ee →
    Routed _ _ _ _ _ _ _ ⟨{ comm.endpoint_manager with
      udp_endpoint_store := comm.endpoint_manager.udp_endpoint_store.set index { ee with
        outgoing_payloads := ee.outgoing_payloads.insert msg.predicate msg.payload } },
      round, [], none⟩
  | netEndpoint {info index} :
    round.rctx.ips.port_info.map.get? getter = some info →
    info.route = .netEndpoint index →
    Routed _ _ _ _ _ _ _ ⟨comm.endpoint_manager, round, [(index, .sendPayload msg)], none⟩
  | native {info rctx' native'} :
    round.rctx.ips.port_info.map.get? getter = some info →
    info.owner = native_component_id →
    round.branching_native.feed_msg native_component_id getter msg round.rctx order =
      .ok (rctx', native') →
    Routed _ _ _ _ _ _ _ ⟨comm.endpoint_manager,
      { round with rctx := rctx', branching_native := native' }, [], none⟩
  | component {info pr} :
    round.rctx.ips.port_info.map.get? getter = some info →
    info.polarity = .getter →
    ComponentStepped pd comm { round with stage := .feeding info.owner } info.owner .routing
      (.feed_msg getter msg) pr →
    Routed _ _ _ _ _ _ _ pr
  | dropped {info} :
    round.rctx.ips.port_info.map.get? getter = some info →
    info.route = .localComponent →
    info.owner ≠ native_component_id →
    round.branching_proto_components.get? info.owner = none →
    Routed _ _ _ _ _ _ _ ⟨comm.endpoint_manager, round, [], none⟩

-- All that can happen to a message from a net endpoint.
inductive Received (comm : ConnectorCommunication) (round : Round S) (net_index : Nat) :
    Msg → Progress S → Prop
  | discarded {msg} {stage : SyncStage} :
    (∀ m, msg ≠ .commMsg ⟨comm.round_index, .sendPayload m⟩) →
    Received _ _ _ msg ⟨comm.endpoint_manager, { round with stage := stage }, [], none⟩
  | delayed {msg} :
    comm.round_index < msg.round_index →
    Received _ _ _ (.commMsg msg) ⟨{ comm.endpoint_manager with
      delayed_messages := (net_index, .commMsg msg) :: comm.endpoint_manager.delayed_messages },
      round, [], none⟩
  | payload {msg ee} :
    comm.endpoint_manager.net_endpoint_store[net_index]? = some ee →
    Received _ _ _ (.commMsg ⟨comm.round_index, .sendPayload msg⟩)
      ⟨comm.endpoint_manager, { round with
        rctx  := round.rctx.getter_push ee.getter_for_incoming msg
        stage := .receiving true }, [], none⟩
  | suggested {predicate rctx'} :
    net_index ∈ comm.neighborhood.children →
    round.rctx.submit (.netEndpoint net_index) predicate = .ok rctx' →
    Received _ _ _ (.commMsg ⟨comm.round_index, .commCtrl (.suggest (.success predicate))⟩)
      ⟨comm.endpoint_manager, { round with rctx := rctx', stage := .routing }, [], none⟩
  | failed :
    net_index ∈ comm.neighborhood.children →
    Received _ _ _ (.commMsg ⟨comm.round_index, .commCtrl (.suggest .failure)⟩)
      (fail_round comm { round with stage := .routing })
  | announced {decision} :
    some net_index = comm.neighborhood.parent →
    Received _ _ _ (.commMsg ⟨comm.round_index, .commCtrl (.announce decision)⟩)
      ⟨comm.endpoint_manager, { round with stage := .routing }, [], some decision⟩

-- All that a step of a round can do.
inductive Stepped (pd : ProtocolDescription S) (native_component_id : ComponentId)
    (comm : ConnectorCommunication) (round : Round S) : Act → Progress S → Prop
  | checkNative {order pr} :
    round.stage = .entering →
    Iterates order (Finmap.keys round.branching_proto_components) →
    Continues comm { round with stage := .starting order } pr →
    Stepped _ _ _ _ (.checkNative order) pr
  | start {cid unrun a pr} :
    round.stage = .starting (cid :: unrun) →
    ComponentStepped pd comm round cid (.starting unrun) a pr →
    Stepped _ _ _ _ (.component a) pr
  | enterLoop :
    round.stage = .starting [] →
    Stepped _ _ _ _ .enterLoop
      ⟨comm.endpoint_manager.undelay_all, { round with stage := .routing }, [], none⟩
  | route {getter msg payload_inbox order pr} :
    round.stage = .routing →
    round.rctx.payload_inbox = (getter, msg) :: payload_inbox →
    Routed pd native_component_id comm
      { round with rctx := { round.rctx with payload_inbox := payload_inbox } } getter msg order pr →
    Stepped _ _ _ _ (.route order) pr
  | feed {cid a pr} :
    round.stage = .feeding cid →
    ComponentStepped pd comm round cid .routing a pr →
    Stepped _ _ _ _ (.component a) pr
  | routed :
    round.stage = .routing →
    round.rctx.payload_inbox = [] →
    Stepped _ _ _ _ .routed ⟨comm.endpoint_manager, { round with stage := .forwarding }, [], none⟩
  | decide {solution storage} :
    round.stage = .forwarding →
    round.rctx.solution_storage.make_old solution = .ok storage →
    comm.neighborhood.parent = none →
    Stepped _ _ _ _ (.forward solution) ⟨comm.endpoint_manager,
      { round with rctx := { round.rctx with solution_storage := storage } }, [],
      some (.success solution)⟩
  | forward {solution storage parent} :
    round.stage = .forwarding →
    round.rctx.solution_storage.make_old solution = .ok storage →
    comm.neighborhood.parent = some parent →
    Stepped _ _ _ _ (.forward solution) ⟨comm.endpoint_manager,
      { round with rctx := { round.rctx with solution_storage := storage } },
      [(parent, .commCtrl (.suggest (.success solution)))], none⟩
  | forwarded :
    round.stage = .forwarding →
    round.rctx.solution_storage.new_local = ∅ →
    Stepped _ _ _ _ .forwarded
      ⟨comm.endpoint_manager, { round with stage := .receiving false }, [], none⟩
  | undelayed {b net_index msg undelayed_messages pr} :
    round.stage = .receiving b →
    comm.endpoint_manager.undelayed_messages = (net_index, msg) :: undelayed_messages →
    Received { comm with endpoint_manager := { comm.endpoint_manager with
      undelayed_messages := undelayed_messages } } round net_index msg pr →
    Stepped _ _ _ _ .undelayed pr
  | net {b net_index msg pr} :
    round.stage = .receiving b →
    comm.endpoint_manager.undelayed_messages = [] →
    Received comm round net_index msg pr →
    Stepped _ _ _ _ (.net net_index msg) pr
  | udp {b index payload ee var} :
    round.stage = .receiving b →
    comm.endpoint_manager.udp_endpoint_store[index]? = some ee →
    ee.received_this_round = false →
    round.rctx.ips.port_info.spec_var_for ee.getter_for_incoming = some var →
    Stepped _ _ _ _ (.udp index payload) ⟨{ comm.endpoint_manager with
        udp_endpoint_store := comm.endpoint_manager.udp_endpoint_store.set index { ee with
          received_this_round := true } },
      { round with
        rctx  := round.rctx.getter_push ee.getter_for_incoming ⟨.singleton var .FIRING, payload⟩
        stage := .receiving true }, [], none⟩
  | udpLost {b index payload} :
    round.stage = .receiving b →
    Stepped _ _ _ _ (.udp index payload) ⟨comm.endpoint_manager, round, [], none⟩
  | payloads :
    round.stage = .receiving true →
    Stepped _ _ _ _ .payloads
      ⟨comm.endpoint_manager, { round with stage := .routing }, [], none⟩
  | timeout {pr} :
    round.stage = .receiving false →
    round.rctx.deadline →
    pr = fail_round comm { round with stage := .routing } →
    Stepped _ _ _ _ .timeout { pr with
      round := { pr.round with rctx := { pr.round.rctx with deadline := false } } }

variable {pd : ProtocolDescription S} {native_component_id cid : ComponentId}
variable {comm : ConnectorCommunication} {round : Round S} {next : SyncStage} {pr : Progress S}

theorem step_component_cases {a : BranchingProtoComponent.Act}
    (h : step_component pd comm round cid next a = .ok pr) :
    ComponentStepped pd comm round cid next a pr := by
  unfold step_component at h
  split at h
  case h_1 => cases h
  case h_2 component hc =>
    obtain ⟨⟨rctx', component'⟩, hs, h⟩ := SyncResult.bind_eq_ok.mp h
    simp only at h
    split at h
    case isTrue hu =>
      cases h
      exact .mk hc hs (.inl rfl) .on
    case isFalse hu =>
      have hu := not_not.mp hu
      split at h <;> cases h
      case isTrue  => exact .mk hc hs (.inr ⟨hu, rfl⟩) .fails
      case isFalse => exact .mk hc hs (.inr ⟨hu, rfl⟩) .on

theorem route_cases {getter : PortId} {msg : SendPayloadMsg} {order : List Predicate}
    (h : route pd native_component_id comm round getter msg order = .ok pr) :
    Routed pd native_component_id comm round getter msg order pr := by
  simp only [route, SyncResult.bind_eq_ok, SyncResult.unwrap_eq_ok, SyncResult.assert_eq_ok] at h
  obtain ⟨info, hi, _, hp, h⟩ := h
  split at h
  case h_1 index hr =>
    obtain ⟨ee, he, h⟩ := SyncResult.bind_eq_ok.mp h
    cases h
    exact .udpEndpoint hi hr (SyncResult.unwrap_eq_ok.mp he)
  case h_2 index hr =>
    obtain ⟨_, _, h⟩ := SyncResult.bind_eq_ok.mp h
    cases h
    exact .netEndpoint hi hr
  case h_3 hr =>
    split at h
    case isTrue ho =>
      obtain ⟨⟨rctx', native'⟩, hf, h⟩ := SyncResult.bind_eq_ok.mp h
      cases h
      exact .native hi ho hf
    case isFalse ho =>
      split at h
      case isTrue  => exact .component hi hp (step_component_cases h)
      case isFalse hn =>
        cases h
        exact .dropped hi hr ho (Option.not_isSome_iff_eq_none.mp hn)

theorem handle_msg_cases {net_index : Nat} {msg : Msg}
    (h : handle_msg comm round net_index msg = .ok pr) : Received comm round net_index msg pr := by
  cases msg
  case setupMsg msg =>
    cases h
    exact @Received.discarded _ _ round _ _ round.stage nofun
  case commMsg msg =>
    have (.mk round_index contents) := msg
    simp only [handle_msg] at h
    split at h
    case isTrue hlt =>
      cases h
      refine @Received.discarded _ _ round _ _ round.stage fun m he => ?_
      cases he
      exact Nat.lt_irrefl _ hlt
    case isFalse hle =>
      split at h
      case isTrue hgt =>
        cases h
        exact .delayed hgt
      case isFalse hge =>
        have he : round_index = comm.round_index :=
          Nat.le_antisymm (Nat.not_lt.mp hge) (Nat.not_lt.mp hle)
        subst he
        split at h
        case h_2 m =>
          obtain ⟨ee, he, h⟩ := SyncResult.bind_eq_ok.mp h
          cases h
          exact .payload (SyncResult.unwrap_eq_ok.mp he)
        case h_1 ctrl =>
          unfold handle_ctrl at h
          split at h <;> split at h
          case h_1.isTrue hm =>
            split at h
            case h_1 predicate =>
              obtain ⟨rctx', hs, h⟩ := SyncResult.bind_eq_ok.mp h
              cases h
              exact .suggested hm hs
            case h_2 =>
              cases h
              exact .failed hm
          case h_2.isTrue hm =>
            cases h
            exact .announced hm
          all_goals
            cases h
            exact .discarded nofun

theorem step_cases {a : Act} (h : step pd native_component_id comm round a = .ok pr) :
    Stepped pd native_component_id comm round a pr := by
  unfold step at h
  split at h
  case h_1 hs =>
    obtain ⟨_, ho, h⟩ := SyncResult.bind_eq_ok.mp h
    simp only at h
    split at h <;> cases h
    case isTrue  => exact .checkNative hs (SyncResult.choose_eq_ok.mp ho) .fails
    case isFalse => exact .checkNative hs (SyncResult.choose_eq_ok.mp ho) .on
  case h_2 hs => exact .start hs (step_component_cases h)
  case h_3 hs =>
    cases h
    exact .enterLoop hs
  case h_4 hs =>
    split at h
    case h_1 => cases h
    case h_2 hi => exact .route hs hi (route_cases h)
  case h_5 hs => exact .feed hs (step_component_cases h)
  case h_6 hs =>
    obtain ⟨_, hi, h⟩ := SyncResult.bind_eq_ok.mp h
    cases h
    exact .routed hs (SyncResult.choose_eq_ok.mp hi)
  case h_7 hs =>
    obtain ⟨storage, hm, h⟩ := SyncResult.bind_eq_ok.mp h
    split at h <;> cases h
    case h_1 hp => exact .decide hs hm hp
    case h_2 hp => exact .forward hs hm hp
  case h_8 hs =>
    obtain ⟨_, hn, h⟩ := SyncResult.bind_eq_ok.mp h
    cases h
    exact .forwarded hs (SyncResult.choose_eq_ok.mp hn)
  case h_9 hs =>
    simp only at h
    split at h
    case h_1 => cases h
    case h_2 hu => exact .undelayed hs hu (handle_msg_cases h)
  case h_10 hs =>
    obtain ⟨_, hu, h⟩ := SyncResult.bind_eq_ok.mp h
    exact .net hs (SyncResult.choose_eq_ok.mp hu) (handle_msg_cases h)
  case h_11 hs =>
    simp only [recv_udp, SyncResult.bind_eq_ok, SyncResult.unwrap_eq_ok] at h
    obtain ⟨_, _, ee, he, h⟩ := h
    split at h
    case isTrue =>
      cases h
      exact .udpLost hs
    case isFalse hr =>
      simp only [SyncResult.bind_eq_ok, RoundCtx.spec_var_for, SyncResult.unwrap_eq_ok] at h
      obtain ⟨var, hv, h⟩ := h
      cases h
      exact .udp hs he (Bool.not_eq_true _ ▸ hr) hv
  case h_12 hs =>
    obtain ⟨_, _, h⟩ := SyncResult.bind_eq_ok.mp h
    cases h
    exact .payloads hs
  case h_13 hs =>
    obtain ⟨_, hd, h⟩ := SyncResult.bind_eq_ok.mp h
    cases h
    exact .timeout hs (SyncResult.choose_eq_ok.mp hd).right rfl
  case h_14 => cases h

end Round
end Reowolf
