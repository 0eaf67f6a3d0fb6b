import Mathlib.Data.Finset.Sort
import Reowolf.Library.Transition
import Reowolf.Runtime.Topology

namespace Reowolf

open Topology

-- The state of a distributed wave.
structure WaveState where
  parent : Option Nat
  leader : ConnectorId
deriving DecidableEq

-- How `init_neighborhood` goes wrong: by a failed `assert!`, or by the error
-- `SetupAlgMisbehavior`.
inductive SetupFault
  | assertion
  | misbehavior
deriving DecidableEq

-- Where a connector is in `connect`: the ports' infos are exchanged, the leader is elected, the
-- tree is constructed, and the neighborhood is returned.
inductive SetupPhase
  | pairing (unsent waiting : Finset Nat)
  | election (best_wave : WaveState) (awaiting : Finset Nat)
  | construction (election_result : WaveState) (awaiting : Finset Nat) (children : List Nat)
  | returned (neighborhood : Neighborhood)
deriving DecidableEq

-- The phase, and the two vectors of the endpoint manager. Messages are pushed and popped at the end
-- of these, which comes first here.
structure SetupNode where
  phase              : SetupPhase
  delayed_messages   : List (Nat × Msg)
  undelayed_messages : List (Nat × Msg)
deriving DecidableEq

namespace SetupNode

section

variable (connector_id : ConnectorId) (num_net_endpoints : Nat)

def ensure (fault : SetupFault) (p : Prop) [Decidable p] : Except SetupFault Unit :=
  if p then .ok () else .error fault

-- The endpoints other than the parent.
def others (parent : Option Nat) : List Nat :=
  (List.range num_net_endpoints).filter (some · ≠ parent)

def do_wave (ws : WaveState) : Finset Nat × Outbox :=
  let indices := others num_net_endpoints ws.parent
  (indices.toFinset, indices.map fun index => (index, .setupMsg (.leaderWave ws.leader)))

def undelay_all (node : SetupNode) : SetupNode :=
  { node with
    delayed_messages   := []
    undelayed_messages := node.delayed_messages ++ node.undelayed_messages }

def delay (node : SetupNode) (recv_index : Nat) (msg : Msg) : SetupNode :=
  { node with delayed_messages := (recv_index, msg) :: node.delayed_messages }

-- The beginning of `init_neighborhood`. The messages that arrived too early are no longer delayed.
def start (node : SetupNode) : SetupNode × Outbox :=
  if num_net_endpoints = 0 then
    ({ node.undelay_all with phase := .returned { parent := none, children := [] } }, [])
  else
    let best_wave := { parent := none, leader := connector_id }
    let (awaiting, out) := do_wave num_net_endpoints best_wave
    ({ node.undelay_all with phase := .election best_wave awaiting }, out)

def construction_msg (election_result : WaveState) (index : Nat) : SetupMsg :=
  if some index = election_result.parent then .youAreMyParent
  else .leaderAnnounce election_result.leader

-- The election is left, and one message is sent through each endpoint.
def start_construction (node : SetupNode) (election_result : WaveState) : SetupNode × Outbox :=
  let awaiting := (others num_net_endpoints election_result.parent).toFinset
  let out := (List.range num_net_endpoints).map fun index =>
    (index, .setupMsg (construction_msg election_result index))
  ({ node.undelay_all with phase := .construction election_result awaiting [] }, out)

-- A message of the wave that this connector participates in.
def wave_reply (node : SetupNode) (best_wave : WaveState) (awaiting : Finset Nat)
    (recv_index : Nat) : Except SetupFault (SetupNode × Outbox) := do
  ensure .assertion (recv_index ∈ awaiting)
  let awaiting := awaiting.erase recv_index
  if awaiting = ∅ then
    match best_wave.parent with
    | some parent =>
      return ({ node with phase := .election best_wave awaiting },
        [(parent, .setupMsg (.leaderWave best_wave.leader))])
    | none => return start_construction num_net_endpoints node best_wave
  else
    return ({ node with phase := .election best_wave awaiting }, [])

def recv_election (node : SetupNode) (best_wave : WaveState) (awaiting : Finset Nat)
    (recv_index : Nat) : Msg → Except SetupFault (SetupNode × Outbox)
  | .setupMsg (.leaderAnnounce tree_leader) => do
    ensure .assertion (tree_leader ≥ best_wave.leader)
    ensure .assertion (tree_leader ≠ connector_id)
    return start_construction num_net_endpoints node { leader := tree_leader, parent := recv_index }
  | .setupMsg (.leaderWave wave_leader) =>
    if wave_leader < best_wave.leader then
      return (node, [])
    else if wave_leader > best_wave.leader then
      let best_wave := { leader := wave_leader, parent := some recv_index }
      let (awaiting, out) := do_wave num_net_endpoints best_wave
      -- the only neighbor may be the parent
      let reply := if awaiting = ∅ then [(recv_index, .setupMsg (.leaderWave wave_leader))] else []
      return ({ node with phase := .election best_wave awaiting }, out ++ reply)
    else
      wave_reply num_net_endpoints node best_wave awaiting recv_index
  | .setupMsg .youAreMyParent | .setupMsg (.myPortInfo _) => throw .misbehavior
  | .commMsg msg => return (node.delay recv_index (.commMsg msg), [])

def recv_construction (node : SetupNode) (election_result : WaveState) (awaiting : Finset Nat)
    (children : List Nat) (recv_index : Nat) : Msg → Except SetupFault (SetupNode × Outbox)
  | .setupMsg (.leaderAnnounce _) => do
    ensure .misbehavior (recv_index ∈ awaiting)
    return ({ node with
      phase := .construction election_result (awaiting.erase recv_index) children }, [])
  | .setupMsg .youAreMyParent => do
    ensure .misbehavior (recv_index ∈ awaiting)
    return ({ node with
      phase := .construction election_result (awaiting.erase recv_index)
        (children ++ [recv_index]) }, [])
  | .setupMsg (.myPortInfo _) | .setupMsg (.leaderWave _) => return (node, [])
  | .commMsg msg => return (node.delay recv_index (.commMsg msg), [])

-- What a connector does with a message. Before the election it only waits for port infos. After the
-- neighborhood is returned, setup messages are discarded, and other messages are not of interest.
def recv (node : SetupNode) (recv_index : Nat) (msg : Msg) :
    Except SetupFault (SetupNode × Outbox) :=
  match node.phase with
  | .pairing unsent waiting =>
    match msg with
    | .setupMsg (.myPortInfo _) =>
      return ({ node with phase := .pairing unsent (waiting.erase recv_index) }, [])
    | msg => return (node.delay recv_index msg, [])
  | .election best_wave awaiting =>
    recv_election connector_id num_net_endpoints node best_wave awaiting recv_index msg
  | .construction election_result awaiting children =>
    recv_construction node election_result awaiting children recv_index msg
  | .returned _ => return (node, [])

end

-- The connector is about to receive a message, from that endpoint if not an undelayed one. An
-- endpoint is not read any more once it has received its port's info.
def Reads (node : SetupNode) (recv_index : Nat) : Prop :=
  match node.phase with
  | .pairing _ waiting         => recv_index ∈ waiting
  | .election _ _              => True
  | .construction _ awaiting _ => awaiting ≠ ∅
  | .returned _                => True

-- The end of `init_neighborhood`. A `VecSet` is sorted and has no duplicates.
def finish (node : SetupNode) (election_result : WaveState) (children : List Nat) : SetupNode :=
  { node with
    phase := .returned
      { parent := election_result.parent, children := children.toFinset.sort } }

-- All that receiving a message can lead to.
inductive Reaction (connector_id : ConnectorId) (num_net_endpoints : Nat) (node : SetupNode)
    (index : Nat) : Msg → SetupNode → Outbox → Prop
  | paired {unsent waiting info} :
    node.phase = .pairing unsent waiting →
    Reaction _ _ _ _ (.setupMsg (.myPortInfo info))
      { node with phase := .pairing unsent (waiting.erase index) } []
  | early {unsent waiting msg} :
    node.phase = .pairing unsent waiting →
    (∀ info, msg ≠ .setupMsg (.myPortInfo info)) →
    Reaction _ _ _ _ msg (node.delay index msg) []
  | announced {best_wave awaiting tree_leader} :
    node.phase = .election best_wave awaiting →
    Reaction _ _ _ _ (.setupMsg (.leaderAnnounce tree_leader))
      (start_construction num_net_endpoints node ⟨some index, tree_leader⟩).1
      (start_construction num_net_endpoints node ⟨some index, tree_leader⟩).2
  | ignores {best_wave awaiting wave_leader} :
    node.phase = .election best_wave awaiting →
    Reaction _ _ _ _ (.setupMsg (.leaderWave wave_leader)) node []
  | joins {best_wave awaiting wave_leader} :
    node.phase = .election best_wave awaiting →
    best_wave.leader < wave_leader →
    Reaction _ _ _ _ (.setupMsg (.leaderWave wave_leader))
      { node with
        phase := .election ⟨some index, wave_leader⟩ (others num_net_endpoints (some index)).toFinset }
      ((do_wave num_net_endpoints ⟨some index, wave_leader⟩).2 ++
        if (others num_net_endpoints (some index)).toFinset = ∅ then
          [(index, .setupMsg (.leaderWave wave_leader))]
        else [])
  | hears {best_wave awaiting} :
    node.phase = .election best_wave awaiting →
    index ∈ awaiting →
    Reaction _ _ _ _ (.setupMsg (.leaderWave best_wave.leader))
      { node with phase := .election best_wave (awaiting.erase index) }
      (if awaiting.erase index = ∅ then
        best_wave.parent.toList.map (·, .setupMsg (.leaderWave best_wave.leader))
      else [])
  | wins {best_wave awaiting} :
    node.phase = .election best_wave awaiting →
    index ∈ awaiting →
    awaiting.erase index = ∅ →
    best_wave.parent = none →
    Reaction _ _ _ _ (.setupMsg (.leaderWave best_wave.leader))
      (start_construction num_net_endpoints node best_wave).1
      (start_construction num_net_endpoints node best_wave).2
  | notChild {election_result awaiting children tree_leader} :
    node.phase = .construction election_result awaiting children →
    index ∈ awaiting →
    Reaction _ _ _ _ (.setupMsg (.leaderAnnounce tree_leader))
      { node with phase := .construction election_result (awaiting.erase index) children } []
  | child {election_result awaiting children} :
    node.phase = .construction election_result awaiting children →
    index ∈ awaiting →
    Reaction _ _ _ _ (.setupMsg .youAreMyParent)
      { node with phase := .construction election_result (awaiting.erase index) (children ++ [index]) }
      []
  | discards {election_result awaiting children msg} :
    node.phase = .construction election_result awaiting children →
    (∃ info, msg = .setupMsg (.myPortInfo info)) ∨ (∃ w, msg = .setupMsg (.leaderWave w)) →
    Reaction _ _ _ _ msg node []
  | returned {neighborhood msg} :
    node.phase = .returned neighborhood →
    Reaction _ _ _ _ msg node []
  | comm {msg} :
    Reaction _ _ _ _ (.commMsg msg) (node.delay index (.commMsg msg)) []

variable {connector_id : ConnectorId} {num_net_endpoints : Nat} {node node' : SetupNode}
variable {index : Nat} {msg : Msg} {out : Outbox} {fault : SetupFault} {parent : Option Nat}

theorem mem_others {i : Nat} :
    i ∈ others num_net_endpoints parent ↔ i < num_net_endpoints ∧ some i ≠ parent := by
  simp [others]

theorem ensure_bind_eq_ok {α : Type} {p : Prop} [Decidable p] {f : Unit → Except SetupFault α} {a : α} :
    (ensure fault p >>= f) = .ok a ↔ p ∧ f () = .ok a := by
  by_cases hp : p <;> simp [ensure, hp, bind, Except.bind]

theorem ensure_pos {p : Prop} [Decidable p] (hp : p) : ensure fault p = .ok () :=
  if_pos hp

theorem wave_reply_cases {best_wave awaiting} (hp : node.phase = .election best_wave awaiting)
    (h : wave_reply num_net_endpoints node best_wave awaiting index = .ok (node', out)) :
    Reaction connector_id num_net_endpoints node index (.setupMsg (.leaderWave best_wave.leader))
      node' out := by
  obtain ⟨hi, h⟩ := ensure_bind_eq_ok.mp h
  have hears := @Reaction.hears connector_id num_net_endpoints node index best_wave awaiting hp hi
  by_cases he : awaiting.erase index = ∅
  case neg =>
    rw [if_neg he] at h hears
    cases h
    exact hears
  case pos =>
    rw [if_pos he] at h hears
    cases hb : best_wave.parent
    case none =>
      rw [hb] at h
      cases h
      exact .wins hp hi he hb
    case some parent =>
      rw [hb] at h hears
      cases h
      exact hears

theorem recv_cases (h : recv connector_id num_net_endpoints node index msg = .ok (node', out)) :
    Reaction connector_id num_net_endpoints node index msg node' out := by
  unfold recv at h
  split at h
  case h_1 hp =>
    split at h
    case h_1 =>
      cases h
      exact .paired hp
    case h_2 hm =>
      cases h
      exact .early hp hm
  case h_2 best_wave awaiting hp =>
    unfold recv_election at h
    split at h
    case h_1 tree_leader =>
      obtain ⟨_, h⟩ := ensure_bind_eq_ok.mp h
      obtain ⟨_, h⟩ := ensure_bind_eq_ok.mp h
      cases h
      exact .announced hp
    case h_2 wave_leader =>
      split at h
      case isTrue =>
        cases h
        exact .ignores hp
      case isFalse hle =>
        split at h
        case isTrue hlt =>
          cases h
          exact .joins hp hlt
        case isFalse hge =>
          have he : wave_leader = best_wave.leader :=
            Nat.le_antisymm (Nat.not_lt.mp hge) (Nat.not_lt.mp hle)
          subst he
          exact wave_reply_cases hp h
    case h_3 | h_4 => cases h
    case h_5 =>
      cases h
      exact .comm
  case h_3 hp =>
    unfold recv_construction at h
    split at h
    case h_1 =>
      obtain ⟨hi, h⟩ := ensure_bind_eq_ok.mp h
      cases h
      exact .notChild hp hi
    case h_2 =>
      obtain ⟨hi, h⟩ := ensure_bind_eq_ok.mp h
      cases h
      exact .child hp hi
    case h_3 =>
      cases h
      exact .discards hp (.inl ⟨_, rfl⟩)
    case h_4 =>
      cases h
      exact .discards hp (.inr ⟨_, rfl⟩)
    case h_5 =>
      cases h
      exact .comm
  case h_4 hp =>
    cases h
    exact .returned hp

end SetupNode

-- A network in which every connector has an id of its own, and reaches all others.
structure Network (K : Type) extends Topology K where
  connector_id     : K → ConnectorId
  connector_id_inj : ∀ {k k'}, connector_id k = connector_id k' → k = k'
  connected        : ∀ k k', Relation.ReflTransGen (fun k k' => ∃ e, e.node = k ∧ (peer e).node = k') k k'

namespace Network

variable {K : Type}

abbrev State (net : Network K) :=
  net.toTopology.State SetupNode

inductive SetupAct
  | sendInfo
  | start
  | recv
  | undelayed
  | finish
  | comm

variable [DecidableEq K] {net : Network K}

namespace State

abbrev act (s : State net) (k : K) (node : SetupNode) (out : Outbox) : State net :=
  Topology.State.act s k node out

abbrev pop (s : State net) (e : net.End) : State net :=
  Topology.State.pop s e

inductive Step (s : State net) : SetupAct → State net → Prop
  | sendInfo {k : K} {unsent waiting index info} :
    (s.node k).phase = .pairing unsent waiting →
    index ∈ unsent →
    Step s .sendInfo (s.act k { s.node k with phase := .pairing (unsent.erase index) waiting }
      [(index, .setupMsg (.myPortInfo info))])
  | start {k : K} :
    (s.node k).phase = .pairing ∅ ∅ →
    Step s .start (s.act k
      ((s.node k).start (net.connector_id k) (net.num_net_endpoints k)).1
      ((s.node k).start (net.connector_id k) (net.num_net_endpoints k)).2)
  | recv {e : net.End} {msg msgs node out} :
    (s.node e.node).Reads e.index →
    (s.node e.node).undelayed_messages = [] →
    s.chan e = msg :: msgs →
    (s.node e.node).recv (net.connector_id e.node) (net.num_net_endpoints e.node) e.index msg =
      .ok (node, out) →
    Step s .recv ((s.pop e).act e.node node out)
  | undelayed {k : K} {index msg msgs node out} :
    (∀ {unsent waiting}, (s.node k).phase ≠ .pairing unsent waiting) →
    (s.node k).Reads index →
    (s.node k).undelayed_messages = (index, msg) :: msgs →
    SetupNode.recv (net.connector_id k) (net.num_net_endpoints k)
      { s.node k with undelayed_messages := msgs } index msg = .ok (node, out) →
    Step s .undelayed (s.act k node out)
  | finish {k : K} {election_result children} :
    (s.node k).phase = .construction election_result ∅ children →
    Step s .finish (s.act k ((s.node k).finish election_result children) [])
  -- a connector that has its neighborhood goes on to communicate
  | comm {k : K} {neighborhood index msg} :
    (s.node k).phase = .returned neighborhood →
    Step s .comm (s.act k (s.node k) [(index, .commMsg msg)])

end State

-- Every endpoint has yet to send its port's info and to receive that of its peer.
def setup (net : Network K) : TransitionSystem (State net) SetupAct where
  Init s :=
    (∀ k, s.node k = ⟨.pairing (Finset.range (net.num_net_endpoints k))
      (Finset.range (net.num_net_endpoints k)), [], []⟩) ∧
    ∀ e, s.chan e = []
  Step := State.Step

end Network
end Reowolf
