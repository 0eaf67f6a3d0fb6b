import Mathlib.Logic.Relation
import Reowolf.Runtime.Connector

namespace Reowolf

-- The messages that are sent, with the index of the endpoint, in the order in which they are sent.
abbrev Outbox :=
  List (Nat × Msg)

-- The messages that are sent through one endpoint.
def Outbox.through (out : Outbox) (index : Nat) : List Msg :=
  out.filterMap fun (i, msg) => if i = index then some msg else none

namespace Outbox

variable {f : Nat → Msg} {l : List Nat} {index : Nat}

theorem through_append {out out' : Outbox} :
    through (out ++ out') index = out.through index ++ out'.through index :=
  List.filterMap_append

theorem through_map (hl : l.Nodup) :
    through (l.map fun i => (i, f i)) index = if index ∈ l then [f index] else [] := by
  induction l with
  | nil => rfl
  | cons i l ih =>
    obtain ⟨hi, hl⟩ := List.nodup_cons.mp hl
    by_cases h : i = index
    case pos =>
      subst h
      have ih := ih hl
      rw [if_neg hi] at ih
      simpa [through] using ih
    case neg =>
      have ih := ih hl
      simpa [through, h, Ne.symm h] using ih

end Outbox

-- A net endpoint of a connector.
@[ext]
structure Endpoint {K : Type} (num_net_endpoints : K → Nat) where
  node  : K
  index : Nat
  valid : index < num_net_endpoints node
deriving DecidableEq

-- Connectors, and the channels between their net endpoints. There may be several channels between
-- two connectors, and channels from a connector to itself.
structure Topology (K : Type) where
  num_net_endpoints : K → Nat
  peer              : Endpoint num_net_endpoints → Endpoint num_net_endpoints
  peer_peer         : ∀ e, peer (peer e) = e
  peer_ne           : ∀ e, peer e ≠ e

namespace Topology

variable {K : Type}

abbrev End (net : Topology K) :=
  Endpoint net.num_net_endpoints

-- Every connector other than the root has a parent, through which it is a child, and the parents
-- lead to the root.
structure SpanningTree (net : Topology K) (neighborhoods : K → Neighborhood) (root : K) : Prop where
  orphan : (neighborhoods root).parent = none
  parent : ∀ k ≠ root, ∃ e : net.End, e.node = k ∧ (neighborhoods k).parent = some e.index
  agree  : ∀ e : net.End, (neighborhoods e.node).parent = some e.index ↔
             (net.peer e).index ∈ (neighborhoods (net.peer e).node).children
  valid  : ∀ k, ∀ i ∈ (neighborhoods k).children, i < net.num_net_endpoints k
  leads  : ∀ k, Relation.ReflTransGen (fun k k' => ∃ e : net.End,
             e.node = k ∧ (neighborhoods k).parent = some e.index ∧ (net.peer e).node = k') k root

-- The connectors, and the messages that are on their way to each endpoint, the oldest one first.
structure State (net : Topology K) (ν : Type) where
  node : K → ν
  chan : net.End → List Msg

variable [DecidableEq K] {net : Topology K} {ν : Type}

-- What is sent to an endpoint when a connector sends these messages.
def incoming (net : Topology K) (k : K) (out : Outbox) (e : net.End) : List Msg :=
  if (net.peer e).node = k then out.through (net.peer e).index else []

namespace State

-- A connector changes its state and sends messages.
def act (s : net.State ν) (k : K) (node : ν) (out : Outbox) : net.State ν where
  node := Function.update s.node k node
  chan := fun e => s.chan e ++ net.incoming k out e

def pop (s : net.State ν) (e : net.End) : net.State ν :=
  { s with chan := Function.update s.chan e (s.chan e).tail }

variable {s : net.State ν} {k k' : K} {node : ν} {out : Outbox}

theorem act_node : (s.act k node out).node k' = if k' = k then node else s.node k' :=
  Function.update_apply ..

@[simp]
theorem act_node_self : (s.act k node out).node k = node :=
  Function.update_self ..

theorem act_node_ne (h : k' ≠ k) : (s.act k node out).node k' = s.node k' :=
  Function.update_of_ne h ..

end State
end Topology
end Reowolf
