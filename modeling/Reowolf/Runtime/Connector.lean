import Reowolf.Runtime.Message
import Reowolf.Runtime.Protocol

namespace Reowolf

inductive UnrecoverableSyncError
  | pollFailed
  | brokenNetEndpoint (index : Nat)
  | brokenUdpEndpoint (index : Nat)
deriving DecidableEq

inductive SyncError
  | notConnected
  | inconsistentProtoComponent (cid : ComponentId)
  | roundFailure
  | unrecoverable (err : UnrecoverableSyncError)
deriving DecidableEq

inductive ConnectError
  | alreadyConnected
  | portPeerPolarityMismatch (port : PortId)
deriving DecidableEq

inductive WrongStateError
  | wrongState
deriving DecidableEq

inductive PortOpError
  | wrongPolarity
  | unknownPolarity
  | notConnected
  | multipleOpsOnPort
  | portUnavailable
deriving DecidableEq

structure NetEndpointSetup where
  getter_for_incoming : PortId
deriving DecidableEq

structure UdpEndpointSetup where
  getter_for_incoming : PortId
deriving DecidableEq

structure ConnectorSetup where
  net_endpoint_setups : List NetEndpointSetup
  udp_endpoint_setups : List UdpEndpointSetup
deriving DecidableEq

structure NativeBatch where
  to_put : HashMap PortId Payload
  to_get : Finset PortId
deriving DecidableEq

instance : EmptyCollection NativeBatch :=
  ⟨⟨∅, ∅⟩⟩

structure RoundEndedNative where
  batch_index : Nat
  gotten      : HashMap PortId Payload
deriving DecidableEq

-- The indices of the children are in ascending order.
structure Neighborhood where
  parent   : Option Nat
  children : List Nat
deriving DecidableEq

structure NetEndpointExt where
  getter_for_incoming : PortId
deriving DecidableEq

structure UdpEndpointExt where
  received_this_round : Bool
  outgoing_payloads   : HashMap Predicate Payload
  getter_for_incoming : PortId
deriving DecidableEq

-- The source pushes and pops messages at the end of the two vectors. Here that end comes first.
structure EndpointManager where
  delayed_messages   : List (Nat × Msg)
  undelayed_messages : List (Nat × Msg)
  net_endpoint_store : List NetEndpointExt
  udp_endpoint_store : List UdpEndpointExt
deriving DecidableEq

structure ConnectorCommunication where
  round_index      : Nat
  endpoint_manager : EndpointManager
  neighborhood     : Neighborhood
  native_batches   : List NativeBatch
  round_result     : Except SyncError (Option RoundEndedNative)

inductive ConnectorPhased
  | setup (s : ConnectorSetup)
  | communication (c : ConnectorCommunication)

structure ConnectorUnphased (S : Type) where
  proto_components    : HashMap ComponentId S
  ips                 : IdAndPortState
  native_component_id : ComponentId

structure Connector (S : Type) where
  unphased : ConnectorUnphased S
  phased   : ConnectorPhased

-- The ports of the two channels between the native component and a UDP mediator component.
structure UdpMediatorPorts where
  nin  : PortId
  nout : PortId
  uin  : PortId
  uout : PortId
deriving DecidableEq

namespace IdManager

def new_udp_mediator_ports (m : IdManager) : Option (UdpMediatorPorts × IdManager) := do
  let (nin, m)  ← m.new_port_id
  let (nout, m) ← m.new_port_id
  let (uin, m)  ← m.new_port_id
  let (uout, m) ← m.new_port_id
  return (⟨nin, nout, uin, uout⟩, m)

end IdManager

-- Given a slice of ports, the first port, if any, that is present repeatedly.
def duplicate_port (slice : List PortId) : Option PortId :=
  go [] slice
where
  go (seen : List PortId) : List PortId → Option PortId
    | []         => none
    | port :: tl => if port ∈ seen then some port else go (port :: seen) tl

-- The infos that `setup_endpoints_and_pair_ports` receives, each with the index of its endpoint, in
-- the order of their arrival.
abbrev ReceivedInfos :=
  List (Nat × MyPortInfo)

-- An endpoint receives the info of its peer's port. The `owned` entry of the peer's owner gets the
-- port even if the map already has an entry for it, as the argument of `or_insert` is evaluated.
def pair_port (setups : List NetEndpointSetup) (port_info : PortInfoMap) :
    Nat × MyPortInfo → Result ConnectError PortInfoMap
  | (index, peer_info) => do
    let setup ← unwrap setups[index]?
    let local_port := setup.getter_for_incoming
    let local_info ← unwrap (port_info.map.get? local_port)
    if peer_info.polarity = local_info.polarity then
      throw (.err (.portPeerPolarityMismatch local_port))
    let map := port_info.map.insert local_port { local_info with peer := some peer_info.port }
    let port_info := { port_info with map := map }.extend_owned peer_info.owner {peer_info.port}
    return port_info.or_insert peer_info.port
      { owner    := peer_info.owner
        peer     := some local_port
        polarity := peer_info.polarity
        route    := .netEndpoint index }

def setup_endpoints_and_pair_ports (setups : List NetEndpointSetup) (received : ReceivedInfos)
    (port_info : PortInfoMap) : Result ConnectError PortInfoMap :=
  received.foldlM (pair_port setups) port_info

namespace Connector

variable {S : Type}

-- `none` when an id stream is exhausted.
def new (connector_id : ConnectorId) : Option (Connector S) := do
  let (native_component_id, id_manager) ← (IdManager.new connector_id).new_component_id
  return {
    unphased := {
      proto_components    := ∅
      ips                 := { port_info := ∅, id_manager := id_manager }
      native_component_id := native_component_id
    }
    phased := .setup { net_endpoint_setups := [], udp_endpoint_setups := [] }
  }

def new_port_pair (c : Connector S) : Option (Connector S × PortId × PortId) := do
  let (ips, o, i) ← c.unphased.ips.new_port_pair c.unphased.native_component_id
  return ({ c with unphased := { c.unphased with ips := ips } }, o, i)

def new_udp_mediator_component (c : Connector S) :
    Result WrongStateError (Connector S × PortId × PortId) := do
  match c.phased with
  | .communication _ => throw (.err .wrongState)
  | .setup setup =>
    let cu := c.unphased
    let udp_index := setup.udp_endpoint_setups.length
    let (udp_cid, ids) ← unwrap cu.ips.id_manager.new_component_id
    let (⟨nin, nout, uin, uout⟩, ids) ← unwrap ids.new_udp_mediator_ports
    let native := cu.native_component_id
    let map := cu.ips.port_info.map.insert nout
      { owner := native, peer := some uin, polarity := .putter, route := .localComponent }
    let map := map.insert uin
      { owner := udp_cid, peer := some uin, polarity := .getter, route := .udpEndpoint udp_index }
    let map := map.insert uout
      { owner := udp_cid, peer := some uin, polarity := .putter, route := .udpEndpoint udp_index }
    let map := map.insert nin
      { owner := native, peer := some uout, polarity := .getter, route := .localComponent }
    let port_info := { cu.ips.port_info with map := map }.extend_owned native {nin, nout}
    let port_info := { port_info with owned := port_info.owned.insert udp_cid {uin, uout} }
    let udp_endpoint_setups := setup.udp_endpoint_setups ++ [⟨nin⟩]
    return ({
      unphased := { cu with ips := { port_info := port_info, id_manager := ids } }
      phased   := .setup { setup with udp_endpoint_setups := udp_endpoint_setups }
    }, nout, nin)

def new_net_port (c : Connector S) (polarity : Polarity) :
    Result WrongStateError (Connector S × PortId) := do
  match c.phased with
  | .communication _ => throw (.err .wrongState)
  | .setup setup =>
    let cu := c.unphased
    let (new_pid, ids) ← unwrap cu.ips.id_manager.new_port_id
    let native := cu.native_component_id
    let map := cu.ips.port_info.map.insert new_pid
      { owner := native, peer := none, polarity := polarity, route := .localComponent }
    let port_info := { cu.ips.port_info with map := map }.extend_owned native {new_pid}
    let net_endpoint_setups := setup.net_endpoint_setups ++ [⟨new_pid⟩]
    return ({
      unphased := { cu with ips := { port_info := port_info, id_manager := ids } }
      phased   := .setup { setup with net_endpoint_setups := net_endpoint_setups }
    }, new_pid)

-- The neighborhood that `init_neighborhood` finds, and the messages that arrive too early for it,
-- are given. An error leaves the connector as it is, as the source works on a copy.
def connect (c : Connector S) (received : ReceivedInfos) (neighborhood : Neighborhood)
    (delayed undelayed : List (Nat × Msg)) : Result ConnectError (Connector S) := do
  match c.phased with
  | .communication _ => throw (.err .alreadyConnected)
  | .setup setup =>
    let cu := c.unphased
    let port_info ← setup_endpoints_and_pair_ports setup.net_endpoint_setups received
      cu.ips.port_info
    let endpoint_manager := {
      delayed_messages   := delayed
      undelayed_messages := undelayed
      net_endpoint_store := setup.net_endpoint_setups.map fun s => ⟨s.getter_for_incoming⟩
      udp_endpoint_store := setup.udp_endpoint_setups.map fun s => ⟨false, ∅, s.getter_for_incoming⟩
    }
    return {
      unphased := { cu with ips := { cu.ips with port_info := port_info } }
      phased   := .communication {
        round_index      := 0
        endpoint_manager := endpoint_manager
        neighborhood     := neighborhood
        native_batches   := [∅]
        round_result     := .ok none
      }
    }

def check_moved_port (cu : ConnectorUnphased S) :
    Polarity × PortId → Result AddComponentError Unit
  | (expected_polarity, port) =>
    match cu.ips.port_info.map.get? port with
    | none      => .error (.err (.unknownPort port))
    | some info =>
      if info.owner ≠ cu.native_component_id then
        .error (.err (.unknownPort port))
      else if info.polarity ≠ expected_polarity then
        .error (.err (.wrongPortPolarity port expected_polarity))
      else
        .ok ()

def drop_ports (ports : List PortId) (batch : NativeBatch) : NativeBatch where
  to_put := ports.foldl HashMap.erase batch.to_put
  to_get := batch.to_get.filter (· ∉ ports)

-- The native's batches only speak of the native's ports.
def drop_moved_ports (ports : List PortId) : ConnectorPhased → ConnectorPhased
  | .setup setup        => .setup setup
  | .communication comm => .communication { comm with
      native_batches := comm.native_batches.map (drop_ports ports) }

-- The error cases of `add_component`, which come before any change.
def check_component (pd : ProtocolDescription S) (cu : ConnectorUnphased S)
    (module_name identifier : List UInt8) (ports : List PortId) : Result AddComponentError Unit :=
  match duplicate_port ports with
  | some port => .error (.err (.duplicatePort port))
  | none =>
    match pd.component_polarities module_name identifier with
    | .error err => .error (.err err)
    | .ok expected_polarities =>
      if expected_polarities.length ≠ ports.length then
        .error (.err (.wrongNumberOfParamaters expected_polarities.length))
      else
        (expected_polarities.zip ports).forM (check_moved_port cu)

def add_component (pd : ProtocolDescription S) (c : Connector S)
    (module_name identifier : List UInt8) (ports : List PortId) :
    Result AddComponentError (Connector S) := do
  let cu := c.unphased
  check_component pd cu module_name identifier ports
  let (new_cid, ids) ← unwrap cu.ips.id_manager.new_component_id
  let component := pd.new_component module_name identifier ports
  let port_info := cu.ips.port_info.move_ports ports cu.native_component_id new_cid
  return {
    unphased := { cu with
      proto_components := cu.proto_components.insert new_cid component
      ips              := { port_info := port_info, id_manager := ids }
    }
    phased := drop_moved_ports ports c.phased
  }

def next_batch (c : Connector S) : Result WrongStateError (Connector S × Nat) :=
  match c.phased with
  | .setup _ => throw (.err .wrongState)
  | .communication comm =>
    let comm := { comm with native_batches := comm.native_batches ++ [∅] }
    return ({ c with phased := .communication comm }, comm.native_batches.length - 1)

-- The source returns a reference to the selected batch, which is the last one.
def port_op_access (c : Connector S) (port : PortId) (expect_polarity : Polarity) :
    Result PortOpError (ConnectorCommunication × NativeBatch) :=
  match c.unphased.ips.port_info.map.get? port with
  | none => .error (.err .unknownPolarity)
  | some info =>
    if info.owner ≠ c.unphased.native_component_id then
      .error (.err .portUnavailable)
    else if info.polarity ≠ expect_polarity then
      .error (.err .wrongPolarity)
    else
      match c.phased with
      | .setup _ => .error (.err .notConnected)
      | .communication comm => do
        let batch ← unwrap comm.native_batches.getLast?
        return (comm, batch)

def set_batch (c : Connector S) (comm : ConnectorCommunication) (batch : NativeBatch) :
    Connector S :=
  { c with phased := .communication { comm with
      native_batches := comm.native_batches.dropLast ++ [batch] } }

def put (c : Connector S) (port : PortId) (payload : Payload) :
    Result PortOpError (Connector S) := do
  let (comm, batch) ← c.port_op_access port .putter
  if port ∈ Finmap.keys batch.to_put then
    .error (.err .multipleOpsOnPort)
  else
    return c.set_batch comm { batch with to_put := batch.to_put.insert port payload }

def get (c : Connector S) (port : PortId) : Result PortOpError (Connector S) := do
  let (comm, batch) ← c.port_op_access port .getter
  if port ∈ batch.to_get then
    .error (.err .multipleOpsOnPort)
  else
    return c.set_batch comm { batch with to_get := insert port batch.to_get }

variable {c c' : Connector S} {port : PortId} {pol : Polarity} {comm : ConnectorCommunication}
variable {batch : NativeBatch} {payload : Payload}

-- The port is one of the native's, with the polarity that is expected.
def NativePort (cu : ConnectorUnphased S) (port : PortId) (pol : Polarity) : Prop :=
  ∃ info, cu.ips.port_info.map.get? port = some info ∧ info.owner = cu.native_component_id ∧
  info.polarity = pol

theorem port_op_access_cases (h : c.port_op_access port pol = .ok (comm, batch)) :
    c.phased = .communication comm ∧ comm.native_batches.getLast? = some batch ∧
    NativePort c.unphased port pol := by
  unfold port_op_access at h
  split at h
  case h_1 => cases h
  case h_2 info hi =>
    split at h
    case isTrue => cases h
    case isFalse ho =>
      split at h
      case isTrue => cases h
      case isFalse hp =>
        split at h
        case h_1 => cases h
        case h_2 comm' hc =>
          obtain ⟨_, hb, h⟩ := Result.bind_eq_ok.mp h
          cases h
          exact ⟨hc, Result.unwrap_eq_ok.mp hb, info, hi, not_not.mp ho, not_not.mp hp⟩

theorem put_cases (h : c.put port payload = .ok c') : ∃ comm batch,
    c.phased = .communication comm ∧ comm.native_batches.getLast? = some batch ∧
    NativePort c.unphased port .putter ∧
    c' = c.set_batch comm { batch with to_put := batch.to_put.insert port payload } := by
  obtain ⟨⟨comm, batch⟩, ha, h⟩ := Result.bind_eq_ok.mp h
  simp only at h
  split at h <;> cases h
  case isFalse =>
    obtain ⟨hc, hb, hp⟩ := port_op_access_cases ha
    exact ⟨comm, batch, hc, hb, hp, rfl⟩

theorem get_cases (h : c.get port = .ok c') : ∃ comm batch,
    c.phased = .communication comm ∧ comm.native_batches.getLast? = some batch ∧
    NativePort c.unphased port .getter ∧
    c' = c.set_batch comm { batch with to_get := insert port batch.to_get } := by
  obtain ⟨⟨comm, batch⟩, ha, h⟩ := Result.bind_eq_ok.mp h
  simp only at h
  split at h <;> cases h
  case isFalse =>
    obtain ⟨hc, hb, hp⟩ := port_op_access_cases ha
    exact ⟨comm, batch, hc, hb, hp, rfl⟩

end Connector
end Reowolf
