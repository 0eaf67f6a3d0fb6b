import Reowolf.Library.Transition
import Reowolf.Runtime.Sync

namespace Reowolf

variable {S : Type}

-- Where a connector is in its calls of `sync`. Once a decision is reached, it is announced to the
-- children, one after the other.
inductive SyncState (S : Type)
  | idle
  | undecided (round : Round S)
  | decided (round : Round S) (decision : Decision) (unannounced : List Nat)

-- A connector in its communication phase.
structure SessionNode (S : Type) where
  unphased : ConnectorUnphased S
  comm     : ConnectorCommunication
  sync     : SyncState S

-- What the application may do between two calls of `sync`.
inductive Connector.Application (pd : ProtocolDescription S) (c : Connector S) : Connector S → Prop
  | newPortPair {c' o i} :
    c.new_port_pair = some (c', o, i) →
    Application pd c c'
  | addComponent {c' module_name identifier ports} :
    c.add_component pd module_name identifier ports = .ok c' →
    Application pd c c'
  | nextBatch {c' index} :
    c.next_batch = .ok (c', index) →
    Application pd c c'
  | put {c' port payload} :
    c.put port payload = .ok c' →
    Application pd c c'
  | get {c' port} :
    c.get port = .ok c' →
    Application pd c c'

-- The orders in which the branches of each component and of the native are visited as they collapse.
structure CommitOrders where
  components : List (ComponentId × List Predicate)
  native     : List Predicate
deriving DecidableEq

def collapse_components (branching_proto_components : Components S) (predicate : Predicate) :
    List (ComponentId × List Predicate) → HashMap ComponentId S → SyncResult (HashMap ComponentId S)
  | [], proto_components => return proto_components
  | (cid, order) :: orders, proto_components =>
    match branching_proto_components.get? cid with
    | none => throw .invalid
    | some component => do
      let state ← BranchingProtoComponent.collapse_with component.branches order predicate
      collapse_components branching_proto_components predicate orders
        (proto_components.insert cid state)

namespace SessionNode

def connector (node : SessionNode S) : Connector S where
  unphased := node.unphased
  phased   := .communication node.comm

-- A message that arrives while the connector is still in `connect`.
def delay (node : SessionNode S) (net_index : Nat) (msg : Msg) : SessionNode S :=
  let em := { node.comm.endpoint_manager with
    delayed_messages := (net_index, msg) :: node.comm.endpoint_manager.delayed_messages }
  { node with comm := { node.comm with endpoint_manager := em } }

-- The batches are drained as the round begins.
def begins (node : SessionNode S) (round : Round S) : SessionNode S :=
  { node with
    comm := { node.comm with native_batches := [∅] }
    sync := .undecided round }

-- With a decision the endpoints' round ends, and the children are to be told.
def progress (node : SessionNode S) (pr : Progress S) : SessionNode S :=
  match pr.decision with
  | none =>
    { node with
      comm := { node.comm with endpoint_manager := pr.endpoint_manager }
      sync := .undecided pr.round }
  | some decision =>
    let em := pr.endpoint_manager.udp_endpoints_round_end decision
    { node with
      comm := { node.comm with endpoint_manager := em }
      sync := .decided pr.round decision node.comm.neighborhood.children }

-- The call of `sync` returns.
def end_round (node : SessionNode S) (result : Except SyncError (Option RoundEndedNative)) :
    SessionNode S :=
  { node with
    comm := { node.comm with round_result := result, round_index := node.comm.round_index + 1 }
    sync := .idle }

-- The components and ports change only if the round succeeds.
def commit (node : SessionNode S) (round : Round S) (orders : CommitOrders) :
    Decision → SyncResult (SessionNode S)
  | .failure => return node.end_round (.error .roundFailure)
  | .success predicate => do
    SyncResult.choose <|
      Iterates (orders.components.map (·.1)) (Finmap.keys round.branching_proto_components)
    let proto_components ←
      collapse_components round.branching_proto_components predicate orders.components ∅
    let round_ok ← round.branching_native.collapse_with orders.native predicate
    let unphased := { node.unphased with
      proto_components := proto_components
      ips              := round.rctx.ips }
    return { node with unphased := unphased }.end_round (.ok (some round_ok))

-- A commit ends the round.
theorem commit_cases {node node' : SessionNode S} {round : Round S} {orders : CommitOrders}
    {d : Decision} (h : node.commit round orders d = .ok node') :
    node'.comm.round_index = node.comm.round_index + 1 ∧ node'.sync = .idle ∧
    node'.comm.neighborhood = node.comm.neighborhood ∧
    node'.comm.endpoint_manager = node.comm.endpoint_manager ∧
    node'.comm.native_batches = node.comm.native_batches ∧
    node'.unphased.native_component_id = node.unphased.native_component_id := by
  cases d
  case failure =>
    cases h
    exact ⟨rfl, rfl, rfl, rfl, rfl, rfl⟩
  case success =>
    simp only [commit, SyncResult.bind_eq_ok] at h
    obtain ⟨_, _, _, _, _, _, h⟩ := h
    cases h
    exact ⟨rfl, rfl, rfl, rfl, rfl, rfl⟩

end SessionNode

-- What happens in a session, and to which connector. A step of a round comes with the connector as
-- it is before the step, and with the progress it makes.
inductive SessionAct (K S : Type)
  | application (k : K)
  | delays (k : K)
  | begins (k : K) (node : SessionNode S) (round : Round S)
  | inconsistent (k : K)
  | steps (k : K) (node : SessionNode S) (a : Round.Act) (pr : Progress S)
  | announces (k : K)
  | ends (k : K) (node : SessionNode S) (decision : Decision) (round : Round S)
  | breaks (k : K)

namespace Topology

variable {K : Type} [DecidableEq K]

abbrev Session (net : Topology K) (S : Type) :=
  net.State (SessionNode S)

def outbox (round_index : Nat) (out : List (Nat × CommMsgContents)) : Outbox :=
  out.map fun (index, contents) => (index, .commMsg ⟨round_index, contents⟩)

namespace Session

variable {net : Topology K}

inductive Step (pd : ProtocolDescription S) (s : net.Session S) :
    SessionAct K S → net.Session S → Prop
  | application {k : K} {unphased comm} :
    (s.node k).sync = .idle →
    Connector.Application pd (s.node k).connector ⟨unphased, .communication comm⟩ →
    Step pd s (.application k) (s.act k ⟨unphased, comm, .idle⟩ [])
  -- a connector that has not synced yet may still be in `connect`, while others are ahead of it
  | delays {e : net.End} {msg msgs} :
    (s.node e.node).sync = .idle →
    (s.node e.node).comm.round_index = 0 →
    s.chan e = msg :: msgs →
    Step pd s (.delays e.node) ((s.pop e).act e.node ((s.node e.node).delay e.index msg) [])
  | begins {k : K} {timeout orders round} :
    (s.node k).sync = .idle →
    (∀ err, (s.node k).comm.round_result ≠ .error (.unrecoverable err)) →
    begin_round pd (s.node k).unphased (s.node k).comm timeout orders = .ok (.ok round) →
    Step pd s (.begins k (s.node k) round) (s.act k ((s.node k).begins round) [])
  | inconsistent {k : K} {timeout orders cid} :
    (s.node k).sync = .idle →
    (∀ err, (s.node k).comm.round_result ≠ .error (.unrecoverable err)) →
    begin_round pd (s.node k).unphased (s.node k).comm timeout orders = .ok (.error cid) →
    Step pd s (.inconsistent k)
      (s.act k ((s.node k).end_round (.error (.inconsistentProtoComponent cid))) [])
  | steps {k : K} {round a pr} :
    (s.node k).sync = .undecided round →
    (∀ net_index msg, a ≠ .net net_index msg) →
    Round.step pd (s.node k).unphased.native_component_id (s.node k).comm round a = .ok pr →
    Step pd s (.steps k (s.node k) a pr)
      (s.act k ((s.node k).progress pr) (outbox (s.node k).comm.round_index pr.out))
  | recv {e : net.End} {msg msgs round pr} :
    (s.node e.node).sync = .undecided round →
    s.chan e = msg :: msgs →
    Round.step pd (s.node e.node).unphased.native_component_id (s.node e.node).comm round
      (.net e.index msg) = .ok pr →
    Step pd s (.steps e.node (s.node e.node) (.net e.index msg) pr)
      ((s.pop e).act e.node ((s.node e.node).progress pr)
        (outbox (s.node e.node).comm.round_index pr.out))
  | announces {k : K} {round decision child unannounced} :
    (s.node k).sync = .decided round decision (child :: unannounced) →
    Step pd s (.announces k) (s.act k
      { s.node k with sync := .decided round decision unannounced }
      (outbox (s.node k).comm.round_index [(child, .commCtrl (.announce decision))]))
  | ends {k : K} {round decision orders node} :
    (s.node k).sync = .decided round decision [] →
    (s.node k).commit round orders decision = .ok node →
    Step pd s (.ends k (s.node k) decision round) (s.act k node [])
  -- polling, or the connection to another connector, may fail at any time
  | breaks {k : K} {err} :
    (s.node k).sync ≠ .idle →
    Step pd s (.breaks k) (s.act k ((s.node k).end_round (.error (.unrecoverable err))) [])

end Session

-- The messages that `connect` leaves behind are setup messages.
def session (net : Topology K) (neighborhoods : K → Neighborhood) (pd : ProtocolDescription S) :
    TransitionSystem (net.Session S) (SessionAct K S) where
  Init s :=
    (∀ k, (s.node k).sync = .idle ∧ (s.node k).comm.round_index = 0 ∧
      (s.node k).comm.neighborhood = neighborhoods k ∧
      ∀ x ∈ (s.node k).comm.endpoint_manager.delayed_messages ++
        (s.node k).comm.endpoint_manager.undelayed_messages, ∃ msg, x.2 = .setupMsg msg) ∧
    ∀ e, ∀ m ∈ s.chan e, ∃ msg, m = .setupMsg msg
  Step := Session.Step pd

end Topology
end Reowolf
