import Reowolf.Library.HashMap
import Reowolf.Runtime.Predicate

namespace Reowolf

inductive Route
  | localComponent
  | netEndpoint (index : Nat)
  | udpEndpoint (index : Nat)
deriving DecidableEq, Repr

structure PortInfo where
  owner    : ComponentId
  peer     : Option PortId
  polarity : Polarity
  route    : Route
deriving DecidableEq

structure MyPortInfo where
  polarity : Polarity
  port     : PortId
  owner    : ComponentId
deriving DecidableEq

structure PortInfoMap where
  map   : HashMap PortId PortInfo
  owned : HashMap ComponentId (Finset PortId)
deriving DecidableEq

structure IdManager where
  connector_id            : ConnectorId
  port_suffix_stream      : U32Stream
  component_suffix_stream : U32Stream
deriving DecidableEq

structure SpecVarStream where
  connector_id       : ConnectorId
  port_suffix_stream : U32Stream
deriving DecidableEq

structure IdAndPortState where
  port_info  : PortInfoMap
  id_manager : IdManager
deriving DecidableEq

namespace IdManager

def new (connector_id : ConnectorId) : IdManager where
  connector_id            := connector_id
  port_suffix_stream      := ⟨0⟩
  component_suffix_stream := ⟨0⟩

def new_port_id (m : IdManager) : Option (PortId × IdManager) := do
  let (n, s) ← m.port_suffix_stream.next
  return (⟨m.connector_id, n⟩, { m with port_suffix_stream := s })

def new_component_id (m : IdManager) : Option (ComponentId × IdManager) := do
  let (n, s) ← m.component_suffix_stream.next
  return (⟨m.connector_id, n⟩, { m with component_suffix_stream := s })

def SKIP_N : Nat :=
  100

def new_spec_var_stream (m : IdManager) : SpecVarStream where
  connector_id       := m.connector_id
  port_suffix_stream := m.port_suffix_stream.n_skipped SKIP_N

end IdManager

def SpecVarStream.next (s : SpecVarStream) : Option (SpecVar × SpecVarStream) := do
  let (n, stream) ← s.port_suffix_stream.next
  return (⟨s.connector_id, n⟩, { s with port_suffix_stream := stream })

namespace PortInfoMap

instance : EmptyCollection PortInfoMap :=
  ⟨⟨∅, ∅⟩⟩

def ports_owned_by (m : PortInfoMap) (owner : ComponentId) : Finset PortId :=
  (m.owned.get? owner).getD ∅

-- `none` where the source unwraps a missing port or a missing peer.
def spec_var_for (m : PortInfoMap) (port : PortId) : Option SpecVar := do
  let info ← m.map.get? port
  match info.polarity with
  | .getter => some port
  | .putter => info.peer

-- `owned.entry(owner).or_default().extend(ports)`
def extend_owned (m : PortInfoMap) (owner : ComponentId) (ports : Finset PortId) : PortInfoMap :=
  { m with owned := m.owned.insert owner (m.ports_owned_by owner ∪ ports) }

-- `map.entry(port).or_insert(info)`
def or_insert (m : PortInfoMap) (port : PortId) (info : PortInfo) : PortInfoMap :=
  match m.map.get? port with
  | some _ => m
  | none   => { m with map := m.map.insert port info }

-- The ports get their new owner, are dropped from the set of the old one, and form its own set.
def move_ports (m : PortInfoMap) (ports : List PortId) (old new : ComponentId) : PortInfoMap where
  map   := ports.foldl (fun map port => map.modify port ({ · with owner := new })) m.map
  owned := (m.owned.modify old (·.filter (· ∉ ports))).insert new ports.toFinset

end PortInfoMap

namespace IdAndPortState

-- The body shared by `Connector::new_port_pair` and `NonsyncProtoContext::new_port_pair`.
def new_port_pair (ips : IdAndPortState) (owner : ComponentId) :
    Option (IdAndPortState × PortId × PortId) := do
  let (o, ids) ← ips.id_manager.new_port_id
  let (i, ids) ← ids.new_port_id
  let map := ips.port_info.map.insert o
    { owner := owner, peer := some i, polarity := .putter, route := .localComponent }
  let map := map.insert i
    { owner := owner, peer := some o, polarity := .getter, route := .localComponent }
  let port_info := { ips.port_info with map := map }.extend_owned owner {o, i}
  return ({ port_info := port_info, id_manager := ids }, o, i)

end IdAndPortState

-- What a component may do to the port state before it enters its synchronous block. The ports to
-- move come in the order in which the source iterates over the set of them.
namespace NonsyncProtoContext

def new_component (ips : IdAndPortState) (proto_component_id : ComponentId)
    (moved_ports : List PortId) : Option (IdAndPortState × ComponentId) := do
  guard <| moved_ports.all fun port =>
    (ips.port_info.map.get? port).map (·.owner) = some proto_component_id
  let (new_cid, ids) ← ips.id_manager.new_component_id
  let port_info := ips.port_info.move_ports moved_ports proto_component_id new_cid
  return ({ port_info := port_info, id_manager := ids }, new_cid)

def new_port_pair (ips : IdAndPortState) (proto_component_id : ComponentId) :
    Option (IdAndPortState × PortId × PortId) :=
  ips.new_port_pair proto_component_id

end NonsyncProtoContext
end Reowolf
