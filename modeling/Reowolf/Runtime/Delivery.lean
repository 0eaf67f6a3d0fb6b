import Mathlib.Data.List.Sort
import Reowolf.Runtime.Agreement
import Reowolf.Runtime.Batches
import Reowolf.Runtime.Setup
import Reowolf.Runtime.SyncCall

namespace Reowolf

variable {S : Type}

-- The messages that have come in on each net endpoint and have not been read, the oldest one first,
-- and the endpoints that are flagged to have any. The flags are popped at the greatest index, which
-- comes first here.
structure NetInbox where
  inbox            : Nat → List Msg
  polled_undrained : List Nat

namespace NetInbox

def arrive (net : NetInbox) (index : Nat) (msg : Msg) : NetInbox :=
  { net with inbox := Function.update net.inbox index (net.inbox index ++ [msg]) }

def flag (net : NetInbox) (index : Nat) : NetInbox :=
  if index ∈ net.polled_undrained then net
  else { net with polled_undrained := net.polled_undrained.orderedInsert (· ≥ ·) index }

-- Reads the oldest message of an endpoint, which stays flagged if there may be another one.
def try_recv (net : NetInbox) (index : Nat) : Option Msg × NetInbox :=
  match net.inbox index with
  | []          => (none, net)
  | msg :: msgs =>
    let net := { net with inbox := Function.update net.inbox index msgs }
    (some msg, if msgs = [] then net else net.flag index)

def try_recv_undrained_net (net : NetInbox) : Option (Nat × Msg) × NetInbox :=
  go net.inbox net.polled_undrained
where
  go (inbox : Nat → List Msg) : List Nat → Option (Nat × Msg) × NetInbox
    | []                        => (none, ⟨inbox, []⟩)
    | index :: polled_undrained =>
      match try_recv ⟨inbox, polled_undrained⟩ index with
      | (some msg, net) => (some (index, msg), net)
      | (none, _)       => go inbox polled_undrained

-- What the inboxes have lost to a reader.
structure Reads (net : NetInbox) (index : Nat) (msg : Msg) (net' : NetInbox) : Prop where
  oldest : net.inbox index = msg :: net'.inbox index
  others : ∀ i ≠ index, net'.inbox i = net.inbox i

variable {net net' : NetInbox} {index : Nat} {msg : Msg}

@[simp]
theorem flag_inbox : (net.flag index).inbox = net.inbox := by
  unfold flag
  split <;> rfl

theorem try_recv_some (h : net.try_recv index = (some msg, net')) : net.Reads index msg net' := by
  unfold try_recv at h
  split at h
  case h_1 => cases h
  case h_2 m msgs hm =>
    obtain ⟨hm', hn⟩ := Prod.mk.inj h
    cases hm'
    have hi : net'.inbox = Function.update net.inbox index msgs := by
      rw [← hn]
      split <;> simp
    constructor
    case oldest => rw [hm, hi, Function.update_self]
    case others => exact fun i hne => by rw [hi, Function.update_of_ne hne]

theorem try_recv_undrained_net_some (h : net.try_recv_undrained_net = (some (index, msg), net')) :
    net.Reads index msg net' := by
  have (.mk inbox polled_undrained) := net
  simp only [try_recv_undrained_net] at h
  induction polled_undrained with
  | nil => cases h
  | cons i polled_undrained ih =>
    unfold try_recv_undrained_net.go at h
    split at h
    case h_1 hr =>
      cases h
      have hr := try_recv_some hr
      exact ⟨hr.oldest, hr.others⟩
    case h_2 =>
      have ih := ih h
      exact ⟨ih.oldest, ih.others⟩

theorem try_recv_undrained_net_none (h : net.try_recv_undrained_net = (none, net')) :
    net'.inbox = net.inbox := by
  have (.mk inbox polled_undrained) := net
  simp only [try_recv_undrained_net] at h
  induction polled_undrained with
  | nil =>
    cases h
    rfl
  | cons i polled_undrained ih =>
    unfold try_recv_undrained_net.go at h
    split at h
    case h_1 => cases h
    case h_2 => exact ih h

end NetInbox

-- What becomes of a communication message that is taken from an endpoint or from the undelayed
-- messages: the round's logic gets it, it is kept for later, or it is lost.
inductive Fate
  | handed
  | delayed
  | discarded
deriving DecidableEq

namespace Fate

-- How the round that a message is for relates to the connector's round.
def Fits (round_index : Nat) (msg : CommMsg) : Fate → Prop
  | .handed    => msg.round_index = round_index
  | .delayed   => round_index < msg.round_index
  | .discarded => msg.round_index < round_index

-- What the handling of a message that meets a fate does to the messages that are kept.
def Effect (em em' : EndpointManager) (x : Nat × Msg) : Fate → Prop
  | .delayed => em'.delayed_messages = x :: em.delayed_messages ∧
                em'.undelayed_messages = em.undelayed_messages
  | _        => em' = em

end Fate

namespace Round

-- The fate of a message is told by what its handling does, whatever its round is.
inductive Handles (round : Round S) (comm : ConnectorCommunication) (net_index : Nat) :
    CommMsg → Progress S → Fate → Prop
  | control {round_index ctrl pr} :
    handle_ctrl comm { round with stage := .routing } net_index ctrl = .ok pr →
    Handles _ _ _ ⟨round_index, .commCtrl ctrl⟩ pr .handed
  | payload {round_index msg ee} :
    comm.endpoint_manager.net_endpoint_store[net_index]? = some ee →
    Handles _ _ _ ⟨round_index, .sendPayload msg⟩
      ⟨comm.endpoint_manager, { round with
        rctx  := round.rctx.getter_push ee.getter_for_incoming msg
        stage := .receiving true }, [], none⟩ .handed
  | delayed {msg} :
    Handles _ _ _ msg ⟨{ comm.endpoint_manager with
      delayed_messages := (net_index, .commMsg msg) :: comm.endpoint_manager.delayed_messages },
      round, [], none⟩ .delayed
  | discarded {msg} :
    Handles _ _ _ msg ⟨comm.endpoint_manager, round, [], none⟩ .discarded

variable {comm : ConnectorCommunication} {round : Round S} {net_index : Nat} {msg : CommMsg}
variable {pr : Progress S} {fate : Fate} {ctrl : CommCtrlMsg} {b : Bool}

theorem fail_round_cases :
    (fail_round comm round).endpoint_manager = comm.endpoint_manager ∧
    (fail_round comm round).round.stage = round.stage := by
  unfold fail_round
  split
  case h_1 => exact ⟨rfl, rfl⟩
  case h_2 => split <;> exact ⟨rfl, rfl⟩

theorem handle_ctrl_cases (h : handle_ctrl comm round net_index ctrl = .ok pr) :
    pr.endpoint_manager = comm.endpoint_manager ∧ pr.round.stage = round.stage := by
  unfold handle_ctrl at h
  split at h <;> split at h
  case h_1.isTrue =>
    split at h
    case h_1 =>
      obtain ⟨_, _, h⟩ := SyncResult.bind_eq_ok.mp h
      cases h
      exact ⟨rfl, rfl⟩
    case h_2 =>
      cases h
      exact fail_round_cases
  all_goals
    cases h
    exact ⟨rfl, rfl⟩

-- Every message meets the fate that fits its round.
theorem handle_msg_fate (h : handle_msg comm round net_index (.commMsg msg) = .ok pr) :
    ∃ fate, Handles round comm net_index msg pr fate ∧ fate.Fits comm.round_index msg := by
  have (.mk round_index contents) := msg
  simp only [handle_msg] at h
  split at h
  case isTrue hlt =>
    cases h
    exact ⟨.discarded, .discarded, hlt⟩
  case isFalse hle =>
    split at h
    case isTrue hgt =>
      cases h
      exact ⟨.delayed, .delayed, hgt⟩
    case isFalse hge =>
      have he : round_index = comm.round_index :=
        Nat.le_antisymm (Nat.not_lt.mp hge) (Nat.not_lt.mp hle)
      split at h
      case h_1 ctrl => exact ⟨.handed, .control h, he⟩
      case h_2 m =>
        obtain ⟨ee, hee, h⟩ := SyncResult.bind_eq_ok.mp h
        cases h
        exact ⟨.handed, .payload (SyncResult.unwrap_eq_ok.mp hee), he⟩

namespace Handles

theorem effect (h : Handles round comm net_index msg pr fate) :
    fate.Effect comm.endpoint_manager pr.endpoint_manager (net_index, .commMsg msg) := by
  cases h
  case control h => exact (handle_ctrl_cases h).left
  case payload   => rfl
  case delayed   => exact ⟨rfl, rfl⟩
  case discarded => rfl

theorem round_eq (h : Handles round comm net_index msg pr fate) (hf : fate ≠ .handed) :
    pr.round = round := by
  cases h
  case control   => exact (hf rfl).elim
  case payload   => exact (hf rfl).elim
  case delayed   => rfl
  case discarded => rfl

theorem round_ne (h : Handles round comm net_index msg pr .handed)
    (hs : round.stage = .receiving b) : pr.round ≠ round := by
  intro he
  cases h
  case control h =>
    have hr := (handle_ctrl_cases h).right
    rw [he, hs] at hr
    cases hr
  case payload =>
    have hl := congrArg (fun r => r.rctx.payload_inbox.length) he
    exact Nat.succ_ne_self _ hl

-- While the endpoints are received from, a message has no two fates.
theorem unique {fate' : Fate} (h : Handles round comm net_index msg pr fate)
    (h' : Handles round comm net_index msg pr fate') (hs : round.stage = .receiving b) :
    fate = fate' := by
  have hdelayed {em em' : EndpointManager} {x : Nat × Msg}
      (hd : em'.delayed_messages = x :: em.delayed_messages) : em' ≠ em :=
    fun he => List.cons_ne_self _ _ (he ▸ hd).symm
  cases fate <;> cases fate'
  case handed.handed       => rfl
  case delayed.delayed     => rfl
  case discarded.discarded => rfl
  case handed.delayed      => exact (hdelayed h'.effect.left h.effect).elim
  case discarded.delayed   => exact (hdelayed h'.effect.left h.effect).elim
  case delayed.handed      => exact (hdelayed h.effect.left h'.effect).elim
  case delayed.discarded   => exact (hdelayed h.effect.left h'.effect).elim
  case handed.discarded    => exact (h.round_ne hs (h'.round_eq nofun)).elim
  case discarded.handed    => exact (h'.round_ne hs (h.round_eq nofun)).elim

theorem fits (h : Handles round comm net_index msg pr fate)
    (hh : handle_msg comm round net_index (.commMsg msg) = .ok pr)
    (hs : round.stage = .receiving b) : fate.Fits comm.round_index msg := by
  obtain ⟨_, h', hf⟩ := handle_msg_fate hh
  exact h.unique h' hs ▸ hf

end Handles

variable {pd : ProtocolDescription S} {native_component_id : ComponentId}

theorem step_net {msg : Msg} (h : step pd native_component_id comm round (.net net_index msg) = .ok pr) :
    ∃ b, round.stage = .receiving b ∧ handle_msg comm round net_index msg = .ok pr := by
  cases hs : round.stage
  case receiving b =>
    simp only [step, hs, SyncResult.bind_eq_ok] at h
    obtain ⟨_, _, h⟩ := h
    exact ⟨b, rfl, h⟩
  case starting unrun => cases unrun <;> simp [step, hs, throw, throwThe, MonadExceptOf.throw] at h
  all_goals simp [step, hs, throw, throwThe, MonadExceptOf.throw] at h

theorem step_undelayed {msgs : List (Nat × Msg)} {msg : Msg}
    (h : step pd native_component_id comm round .undelayed = .ok pr)
    (hu : comm.endpoint_manager.undelayed_messages = (net_index, msg) :: msgs) :
    ∃ b, round.stage = .receiving b ∧
    handle_msg { comm with endpoint_manager := { comm.endpoint_manager with
      undelayed_messages := msgs } } round net_index msg = .ok pr := by
  cases hs : round.stage
  case receiving b =>
    simp only [step, hs, hu] at h
    exact ⟨b, rfl, h⟩
  case starting unrun => cases unrun <;> simp [step, hs, throw, throwThe, MonadExceptOf.throw] at h
  all_goals simp [step, hs, throw, throwThe, MonadExceptOf.throw] at h

end Round

-- The messages that are kept for later.
def EndpointManager.kept (em : EndpointManager) : List (Nat × Msg) :=
  em.delayed_messages ++ em.undelayed_messages

def SetupNode.kept (node : SetupNode) : List (Nat × Msg) :=
  node.delayed_messages ++ node.undelayed_messages

theorem EndpointManager.kept_udp_endpoints_round_end {em : EndpointManager} {d : Decision} :
    (em.udp_endpoints_round_end d).kept = em.kept := by
  cases d <;> rfl

theorem Fate.Effect.count {em em' : EndpointManager} {x y : Nat × Msg} {fate : Fate}
    (h : fate.Effect em em' x) :
    em'.kept.count y + (if x = y ∧ fate ≠ .delayed then 1 else 0) =
      em.kept.count y + if x = y then 1 else 0 := by
  cases fate
  case delayed =>
    obtain ⟨hd, hu⟩ := h
    simp [EndpointManager.kept, hd, hu, List.count_cons]
  all_goals
    have h : em' = em := h
    simp [h]

-- A step that takes no message from an endpoint or the undelayed ones keeps all that are kept.
theorem Round.Stepped.kept {pd : ProtocolDescription S} {native_component_id : ComponentId}
    {comm : ConnectorCommunication} {round : Round S} {a : Round.Act} {pr : Progress S}
    (h : Round.Stepped pd native_component_id comm round a pr) (hu : a ≠ .undelayed)
    (hn : ∀ net_index msg, a ≠ .net net_index msg) :
    pr.endpoint_manager.kept = comm.endpoint_manager.kept := by
  cases h
  case checkNative h => rw [h.storage.right.right]
  case start h =>
    cases h
    case mk h => rw [h.storage.right.right]
  case feed h =>
    cases h
    case mk h => rw [h.storage.right.right]
  case route h =>
    cases h
    case component h =>
      cases h
      case mk h => rw [h.storage.right.right]
    all_goals rfl
  case timeout h => rw [h, Round.fail_round_cases.left]
  case undelayed => exact (hu rfl).elim
  case net       => exact (hn _ _ rfl).elim
  all_goals rfl

-- What a connector in `connect` does with a message that it receives, it keeps those of rounds.
theorem SetupNode.Reaction.count {connector_id : ConnectorId} {num_net_endpoints index i : Nat}
    {node node' : SetupNode} {msg : Msg} {out : Outbox} {m : CommMsg}
    (h : SetupNode.Reaction connector_id num_net_endpoints node index msg node' out)
    (hr : ∀ neighborhood, node.phase ≠ .returned neighborhood) :
    node'.kept.count (i, .commMsg m) =
      node.kept.count (i, .commMsg m) + if (index, msg) = (i, .commMsg m) then 1 else 0 := by
  cases h
  case returned hp => exact (hr _ hp).elim
  case early       => simp [SetupNode.kept, SetupNode.delay, List.count_cons, Nat.add_right_comm]
  case comm        => simp [SetupNode.kept, SetupNode.delay, List.count_cons, Nat.add_right_comm]
  case announced   => simp [SetupNode.kept, SetupNode.start_construction, SetupNode.undelay_all]
  case wins        => simp [SetupNode.kept, SetupNode.start_construction, SetupNode.undelay_all]
  case discards hm =>
    cases hm
    case inl hm =>
      obtain ⟨_, hm⟩ := hm
      simp [hm]
    case inr hm =>
      obtain ⟨_, hm⟩ := hm
      simp [hm]
  all_goals simp [SetupNode.kept]

-- A connector that builds its endpoints in `connect`, and then takes part in a session.
inductive ReceiverStage (S : Type)
  | connecting (connector : Connector S) (node : SetupNode)
  | session (node : SessionNode S)

structure Receiver (S : Type) where
  stage : ReceiverStage S
  net   : NetInbox

namespace ReceiverStage

-- The round index is zero until the first round ends.
def round_index : ReceiverStage S → Nat
  | connecting ..  => 0
  | session node   => node.comm.round_index

def kept : ReceiverStage S → List (Nat × Msg)
  | connecting _ node => node.kept
  | session node      => node.comm.endpoint_manager.kept

end ReceiverStage

namespace Receiver

-- The messages of rounds are followed from their arrival on.
inductive Act
  | silent
  | arrives (net_index : Nat) (msg : Msg)
  | handles (net_index : Nat) (msg : CommMsg) (fate : Fate) (round_index : Nat)
deriving DecidableEq

-- What happens in a session without a message being taken. That messages arrive while the connector
-- is in `connect` is what its setup is about.
def Quiet : SessionNode.Act S → Prop
  | .delays ..           => False
  | .steps .undelayed _  => False
  | .steps (.net ..) _   => False
  | _                    => True

inductive Connecting (connector_id : ConnectorId) (num_net_endpoints : Nat) (node : SetupNode)
    (net : NetInbox) : SetupNode → NetInbox → Prop
  | sendInfo {unsent waiting index} :
    node.phase = .pairing unsent waiting →
    index ∈ unsent →
    Connecting _ _ _ _ { node with phase := .pairing (unsent.erase index) waiting } net
  | start :
    node.phase = .pairing ∅ ∅ →
    Connecting _ _ _ _ (node.start connector_id num_net_endpoints).1 net
  -- the endpoint is read that has something for the connector
  | pairs {unsent waiting index msg net' node' out} :
    node.phase = .pairing unsent waiting →
    node.Reads index →
    net.try_recv index = (some msg, net') →
    node.recv connector_id num_net_endpoints index msg = .ok (node', out) →
    Connecting _ _ _ _ node' net'
  | recv {index msg net' node' out} :
    (∀ neighborhood, node.phase ≠ .returned neighborhood) →
    node.Reads index →
    node.undelayed_messages = [] →
    net.try_recv_undrained_net = (some (index, msg), net') →
    node.recv connector_id num_net_endpoints index msg = .ok (node', out) →
    Connecting _ _ _ _ node' net'
  | undelayed {index msg msgs node' out} :
    (∀ neighborhood, node.phase ≠ .returned neighborhood) →
    node.Reads index →
    node.undelayed_messages = (index, msg) :: msgs →
    SetupNode.recv connector_id num_net_endpoints { node with undelayed_messages := msgs } index msg =
      .ok (node', out) →
    Connecting _ _ _ _ node' net
  | finish {election_result children} :
    node.phase = .construction election_result ∅ children →
    Connecting _ _ _ _ (node.finish election_result children) net

inductive Step (pd : ProtocolDescription S) : Receiver S → Act → Receiver S → Prop
  | arrives {stage net index msg} :
    Step pd ⟨stage, net⟩ (.arrives index msg) ⟨stage, net.arrive index msg⟩
  | polls {stage net index} :
    Step pd ⟨stage, net⟩ .silent ⟨stage, net.flag index⟩
  | drained {stage net net'} :
    net.try_recv_undrained_net = (none, net') →
    Step pd ⟨stage, net⟩ .silent ⟨stage, net'⟩
  | connecting {c setup node net node' net'} :
    c.phased = .setup setup →
    Connecting c.unphased.ips.id_manager.connector_id setup.net_endpoint_setups.length node net
      node' net' →
    Step pd ⟨.connecting c node, net⟩ .silent ⟨.connecting c node', net'⟩
  | connects {c node net received neighborhood cu comm} :
    node.phase = .returned neighborhood →
    c.connect received neighborhood node.delayed_messages node.undelayed_messages =
      .ok ⟨cu, .communication comm⟩ →
    Step pd ⟨.connecting c node, net⟩ .silent ⟨.session ⟨cu, comm, .idle⟩, net⟩
  | session {node net a node'} :
    SessionNode.Step pd node a node' →
    Quiet a →
    Step pd ⟨.session node, net⟩ .silent ⟨.session node', net⟩
  | setupMsg {node net net' index msg pr node'} :
    net.try_recv_undrained_net = (some (index, .setupMsg msg), net') →
    SessionNode.Step pd node (.steps (.net index (.setupMsg msg)) pr) node' →
    Step pd ⟨.session node, net⟩ .silent ⟨.session node', net'⟩
  | commMsg {node net net' index msg pr node' round fate} :
    net.try_recv_undrained_net = (some (index, .commMsg msg), net') →
    SessionNode.Step pd node (.steps (.net index (.commMsg msg)) pr) node' →
    node.sync = .undecided round →
    round.Handles node.comm index msg pr fate →
    Step pd ⟨.session node, net⟩ (.handles index msg fate node.comm.round_index)
      ⟨.session node', net'⟩
  | undelayedSetupMsg {node net index msg msgs pr node'} :
    node.comm.endpoint_manager.undelayed_messages = (index, .setupMsg msg) :: msgs →
    SessionNode.Step pd node (.steps .undelayed pr) node' →
    Step pd ⟨.session node, net⟩ .silent ⟨.session node', net⟩
  | undelayedCommMsg {node net index msg msgs pr node' round fate} :
    node.comm.endpoint_manager.undelayed_messages = (index, .commMsg msg) :: msgs →
    SessionNode.Step pd node (.steps .undelayed pr) node' →
    node.sync = .undecided round →
    round.Handles { node.comm with endpoint_manager := { node.comm.endpoint_manager with
      undelayed_messages := msgs } } index msg pr fate →
    Step pd ⟨.session node, net⟩ (.handles index msg fate node.comm.round_index)
      ⟨.session node', net⟩

end Receiver

-- The endpoints are those of the attempt to `connect` that succeeds. A failed one throws its own
-- endpoints away.
def receiver (pd : ProtocolDescription S) : TransitionSystem (Receiver S) Receiver.Act where
  Init r := ∃ connector setup polled_undrained,
    connector.phased = .setup setup ∧
    r.stage = .connecting connector ⟨.pairing (Finset.range setup.net_endpoint_setups.length)
      (Finset.range setup.net_endpoint_setups.length), [], []⟩ ∧
    r.net = ⟨fun _ => [], polled_undrained⟩
  Step := Receiver.Step pd

namespace NetInbox

theorem Reads.count {net net' : NetInbox} {index i : Nat} {msg y : Msg}
    (h : net.Reads index msg net') :
    (net.inbox i).count y = (net'.inbox i).count y + if (index, msg) = (i, y) then 1 else 0 := by
  by_cases hi : i = index
  case pos =>
    subst hi
    simp [h.oldest, List.count_cons]
  case neg => simp [h.others i hi, Ne.symm hi]

theorem count_arrive {net : NetInbox} {index i : Nat} {msg y : Msg} :
    ((net.arrive index msg).inbox i).count y =
      (net.inbox i).count y + if (index, msg) = (i, y) then 1 else 0 := by
  by_cases hi : i = index
  case pos =>
    subst hi
    simp [arrive, List.count_append, List.count_cons]
  case neg => simp [arrive, Function.update_of_ne hi, Ne.symm hi]

end NetInbox

theorem Connector.connect_kept {c : Connector S} {received : ReceivedInfos}
    {neighborhood : Neighborhood} {delayed undelayed : List (Nat × Msg)} {cu : ConnectorUnphased S}
    {comm : ConnectorCommunication}
    (h : c.connect received neighborhood delayed undelayed = .ok ⟨cu, .communication comm⟩) :
    comm.endpoint_manager.kept = delayed ++ undelayed ∧ comm.round_index = 0 := by
  cases hc : c.phased
  case communication => simp [Connector.connect, hc, throw, throwThe, MonadExceptOf.throw] at h
  case setup =>
    obtain ⟨_, _, h⟩ := Connector.connect_cases hc h
    cases h
    exact ⟨rfl, rfl⟩

namespace SessionNode

variable {pd : ProtocolDescription S} {node node' : SessionNode S} {a : Act S} {pr : Progress S}

theorem progress_kept :
    (node.progress pr).comm.endpoint_manager.kept = pr.endpoint_manager.kept ∧
    (node.progress pr).comm.round_index = node.comm.round_index := by
  unfold progress
  split
  case h_1 => exact ⟨rfl, rfl⟩
  case h_2 => exact ⟨EndpointManager.kept_udp_endpoints_round_end, rfl⟩

theorem Step.kept_of_quiet (h : Step pd node a node') (hq : Receiver.Quiet a) :
    node'.comm.endpoint_manager.kept = node.comm.endpoint_manager.kept := by
  cases h
  case application ha    => rw [(Topology.Session.application_cases ha).right]
  case delays            => cases hq
  case begins            => rfl
  case inconsistent      => rfl
  case announces         => rfl
  case breaks            => rfl
  case ends hc           => rw [(commit_cases hc).right.right.right.left]
  case steps b pr _ hr   =>
    rw [progress_kept.left]
    refine (Round.step_cases hr).kept (fun he => ?_) fun _ _ he => ?_
    · cases he
      cases hq
    · cases he
      cases hq

theorem Step.round_index_le (h : Step pd node a node') :
    node.comm.round_index ≤ node'.comm.round_index := by
  cases h
  case application ha => rw [(Topology.Session.application_cases ha).right]
  case steps          => rw [progress_kept.right]
  case ends hc        =>
    rw [(commit_cases hc).left]
    exact Nat.le_succ _
  case inconsistent   => exact Nat.le_succ _
  case breaks         => exact Nat.le_succ _
  all_goals exact Nat.le_refl _

-- Handling a message moves it to where its fate says.
theorem Step.count_handled {round : Round S} {comm : ConnectorCommunication} {b : Round.Act}
    {index : Nat} {msg : CommMsg} {fate : Fate} {y : Nat × Msg} (h : Step pd node (.steps b pr) node')
    (hf : round.Handles comm index msg pr fate) :
    node'.comm.endpoint_manager.kept.count y +
        (if (index, .commMsg msg) = y ∧ fate ≠ .delayed then 1 else 0) =
      comm.endpoint_manager.kept.count y + if (index, .commMsg msg) = y then 1 else 0 := by
  cases h
  case steps =>
    rw [progress_kept.left]
    exact hf.effect.count

theorem Step.kept_of_setupMsg {index : Nat} {msg : SetupMsg}
    (h : Step pd node (.steps (.net index (.setupMsg msg)) pr) node') :
    node'.comm.endpoint_manager.kept = node.comm.endpoint_manager.kept := by
  cases h
  case steps hr =>
    rw [progress_kept.left]
    cases Round.step_cases hr
    case net hm =>
      cases hm
      case discarded => rfl

theorem Step.kept_of_undelayedSetupMsg {index : Nat} {msg : SetupMsg} {msgs : List (Nat × Msg)}
    (h : Step pd node (.steps .undelayed pr) node')
    (hu : node.comm.endpoint_manager.undelayed_messages = (index, .setupMsg msg) :: msgs) :
    node'.comm.endpoint_manager.kept = node.comm.endpoint_manager.delayed_messages ++ msgs := by
  cases h
  case steps hr =>
    rw [progress_kept.left]
    cases Round.step_cases hr
    case undelayed hu' hm =>
      cases hu.symm.trans hu'
      cases hm
      case discarded => rfl

end SessionNode

namespace Receiver

variable {pd : ProtocolDescription S} {r r' : Receiver S} {a : Act} {as : List Act}
variable {i : Nat} {m : CommMsg}

-- How often a message is in the connector's hands without having met its end.
def pending (r : Receiver S) (net_index : Nat) (msg : CommMsg) : Nat :=
  (r.net.inbox net_index).count (.commMsg msg) + r.stage.kept.count (net_index, .commMsg msg)

def arrivals (as : List Act) (net_index : Nat) (msg : CommMsg) : Nat :=
  as.count (.arrives net_index (.commMsg msg))

def Act.meets (fate : Fate) (net_index : Nat) (msg : CommMsg) : Act → Bool
  | .handles i m f _ => i = net_index ∧ m = msg ∧ f = fate
  | _                => false

-- How often a message meets a fate.
def meetings (as : List Act) (fate : Fate) (net_index : Nat) (msg : CommMsg) : Nat :=
  as.countP (Act.meets fate net_index msg)

theorem arrivals_append {as' : List Act} :
    arrivals (as ++ as') i m = arrivals as i m + arrivals as' i m :=
  List.count_append

theorem meetings_append {as' : List Act} {fate : Fate} :
    meetings (as ++ as') fate i m = meetings as fate i m + meetings as' fate i m :=
  List.countP_append

theorem silent_counts : arrivals [.silent] i m = 0 ∧ ∀ fate, meetings [.silent] fate i m = 0 :=
  ⟨rfl, fun _ => rfl⟩

theorem arrives_counts {index : Nat} {msg : Msg} :
    arrivals [.arrives index msg] i m = (if (index, msg) = (i, .commMsg m) then 1 else 0) ∧
    ∀ fate, meetings [.arrives index msg] fate i m = 0 := by
  refine ⟨?_, fun _ => rfl⟩
  by_cases hi : index = i <;> by_cases hm : msg = .commMsg m <;> simp [arrivals, hi, hm]

theorem handles_counts {index k : Nat} {msg : CommMsg} {fate : Fate} :
    arrivals [.handles index msg fate k] i m = 0 ∧
    meetings [.handles index msg fate k] .handed i m + meetings [.handles index msg fate k] .discarded i m =
      if (index, Msg.commMsg msg) = (i, .commMsg m) ∧ fate ≠ .delayed then 1 else 0 := by
  refine ⟨rfl, ?_⟩
  cases fate <;> by_cases hi : index = i <;> by_cases hm : msg = m <;>
    simp [meetings, Act.meets, hi, hm]

theorem Connecting.pending {connector_id : ConnectorId} {n : Nat} {c : Connector S}
    {node node' : SetupNode} {net net' : NetInbox}
    (h : Connecting connector_id n node net node' net') :
    pending ⟨.connecting c node', net'⟩ i m = pending ⟨.connecting c node, net⟩ i m := by
  cases h
  case sendInfo => rfl
  case start =>
    unfold SetupNode.start
    split <;> rfl
  case pairs hp _ hr hn =>
    have hn := (NetInbox.try_recv_some hn).count (i := i) (y := .commMsg m)
    have hr := (SetupNode.recv_cases hr).count (i := i) (m := m) (hp ▸ nofun)
    simp only [Receiver.pending, ReceiverStage.kept, hn, hr]
    omega
  case recv hp _ _ hr hn =>
    have hn := (NetInbox.try_recv_undrained_net_some hn).count (i := i) (y := .commMsg m)
    have hr := (SetupNode.recv_cases hr).count (i := i) (m := m) hp
    simp only [Receiver.pending, ReceiverStage.kept, hn, hr]
    omega
  case undelayed index msg msgs _ hp _ hu hr =>
    have hr := (SetupNode.recv_cases hr).count (i := i) (m := m) hp
    simp only [Receiver.pending, ReceiverStage.kept, hr]
    simp [SetupNode.kept, hu, List.count_cons, Nat.add_assoc]
  case finish => rfl

-- What arrives is kept until it meets its end.
theorem Step.pending (h : Step pd r a r') :
    r'.pending i m + (meetings [a] .handed i m + meetings [a] .discarded i m) =
      r.pending i m + arrivals [a] i m := by
  cases h
  case arrives index msg =>
    simp only [Receiver.pending, NetInbox.count_arrive, arrives_counts]
    omega
  case polls => simp [Receiver.pending, silent_counts]
  case drained hn => simp [Receiver.pending, silent_counts, NetInbox.try_recv_undrained_net_none hn]
  case connecting h => simp [h.pending, silent_counts]
  case connects h =>
    simp [Receiver.pending, silent_counts, ReceiverStage.kept, (Connector.connect_kept h).left,
      SetupNode.kept]
  case session h hq =>
    simp [Receiver.pending, silent_counts, ReceiverStage.kept, h.kept_of_quiet hq]
  case setupMsg hn h =>
    have hn := (NetInbox.try_recv_undrained_net_some hn).count (i := i) (y := .commMsg m)
    simp [Receiver.pending, silent_counts, ReceiverStage.kept, h.kept_of_setupMsg, hn]
  case commMsg hn h _ hf =>
    have hn := (NetInbox.try_recv_undrained_net_some hn).count (i := i) (y := .commMsg m)
    have hf := h.count_handled (y := (i, .commMsg m)) hf
    simp only [Receiver.pending, handles_counts, ReceiverStage.kept, hn]
    omega
  case undelayedSetupMsg hu h =>
    simp only [Receiver.pending, silent_counts, ReceiverStage.kept, h.kept_of_undelayedSetupMsg hu]
    simp [EndpointManager.kept, hu]
  case undelayedCommMsg hu h _ hf =>
    have hf := h.count_handled (y := (i, .commMsg m)) hf
    simp only [Receiver.pending, handles_counts, ReceiverStage.kept]
    simp only [EndpointManager.kept, hu, List.count_append, List.count_cons, beq_iff_eq] at hf ⊢
    omega

theorem Step.fits {k : Nat} {fate : Fate} (h : Step pd r (.handles i m fate k) r') :
    k = r.stage.round_index ∧ fate.Fits k m := by
  generalize ha : Act.handles i m fate k = a at h
  cases h
  case commMsg h hs hf =>
    cases ha
    cases h
    case steps hs' hr =>
      cases hs.symm.trans hs'
      obtain ⟨_, hb, hm⟩ := Round.step_net hr
      exact ⟨rfl, hf.fits hm hb⟩
  case undelayedCommMsg hu h hs hf =>
    cases ha
    cases h
    case steps hs' hr =>
      cases hs.symm.trans hs'
      obtain ⟨_, hb, hm⟩ := Round.step_undelayed hr hu
      exact ⟨rfl, hf.fits hm hb⟩
  all_goals cases ha

theorem Step.round_index_le (h : Step pd r a r') : r.stage.round_index ≤ r'.stage.round_index := by
  cases h
  case session h _             => exact h.round_index_le
  case setupMsg h              => exact h.round_index_le
  case commMsg h _ _           => exact h.round_index_le
  case undelayedSetupMsg h     => exact h.round_index_le
  case undelayedCommMsg h _ _  => exact h.round_index_le
  case connects                => exact Nat.zero_le _
  all_goals exact Nat.le_refl _

-- What has arrived has met its end, or it is still kept.
theorem conserved (h : (receiver pd).Run as r) :
    arrivals as i m =
      meetings as .handed i m + meetings as .discarded i m + r.pending i m := by
  induction h with
  | init hi =>
    obtain ⟨_, _, _, _, hs, hn⟩ := hi
    simp [arrivals, meetings, Receiver.pending, hs, hn, ReceiverStage.kept, SetupNode.kept]
  | step _ hs ih =>
    have hs : Step pd _ _ _ := hs
    have hs := hs.pending (i := i) (m := m)
    rw [arrivals_append, meetings_append, meetings_append]
    omega

theorem handled {fate : Fate} {k : Nat} (h : (receiver pd).Run as r)
    (ha : .handles i m fate k ∈ as) : k ≤ r.stage.round_index ∧ fate.Fits k m := by
  induction h with
  | init => cases ha
  | step _ hs ih =>
    have hs : Step pd _ _ _ := hs
    cases List.mem_append.mp ha
    case inl ha =>
      obtain ⟨hk, hf⟩ := ih ha
      exact ⟨hk.trans hs.round_index_le, hf⟩
    case inr ha =>
      cases List.mem_singleton.mp ha
      obtain ⟨hk, hf⟩ := hs.fits
      exact ⟨hk.trans_le hs.round_index_le, hf⟩

theorem meetings_eq_zero {fate : Fate} (h : (receiver pd).Run as r)
    (hf : ∀ k ≤ r.stage.round_index, ¬fate.Fits k m) : meetings as fate i m = 0 := by
  refine List.countP_eq_zero.mpr fun a ha hm => ?_
  cases a
  case handles index msg fate' k =>
    obtain ⟨hi, hm', hf'⟩ := of_decide_eq_true hm
    obtain ⟨hk, hfits⟩ := handled h ha
    exact hf k hk (hf' ▸ hm' ▸ hfits)
  all_goals cases hm

-- A message is handed to the round's logic in its own round only, and lost after it only. Each time
-- that it has arrived, it has met one of these ends, or it is kept. Those of later rounds are kept.
theorem round_discipline (h : (receiver pd).Run as r) (net_index : Nat) (msg : CommMsg) :
    arrivals as net_index msg =
      meetings as .handed net_index msg + meetings as .discarded net_index msg +
        r.pending net_index msg ∧
    (∀ k, .handles net_index msg .handed k ∈ as → k = msg.round_index) ∧
    (∀ k, .handles net_index msg .discarded k ∈ as → msg.round_index < k) ∧
    (r.stage.round_index < msg.round_index →
      r.pending net_index msg = arrivals as net_index msg) := by
  refine ⟨conserved h, fun k ha => ?_, fun k ha => ?_, fun hr => ?_⟩
  · exact (handled h ha).right.symm
  · exact (handled h ha).right
  · have hh := @meetings_eq_zero _ _ _ _ net_index msg .handed h fun k hk he =>
      Nat.not_lt.mpr hk (he ▸ hr)
    have hd := @meetings_eq_zero _ _ _ _ net_index msg .discarded h fun k hk hlt =>
      Nat.lt_irrefl k ((hk.trans_lt hr).trans hlt)
    have hc := conserved (i := net_index) (m := msg) h
    omega

theorem round_discipline_announcement : ∃ (as : List Act) (r : Receiver Unit) (msg : CommMsg),
    (receiver emptyProtocol).Run as r ∧ arrivals as 0 msg = 1 ∧ .handles 0 msg .handed 0 ∈ as ∧
    msg.round_index = 0 := by
  let info : PortInfo :=
    { owner := ⟨0, 0⟩, peer := none, polarity := .getter, route := .localComponent }
  let info' : MyPortInfo := ⟨.putter, ⟨1, 0⟩, ⟨1, 0⟩⟩
  let ids : IdManager := ⟨0, ⟨1⟩, ⟨1⟩⟩
  let c : Connector Unit :=
    { unphased := ⟨∅, ⟨⟨HashMap.insert ∅ ⟨0, 0⟩ info, HashMap.insert ∅ ⟨0, 0⟩ {⟨0, 0⟩}⟩, ids⟩, ⟨0, 0⟩⟩
      phased   := .setup ⟨[⟨⟨0, 0⟩⟩], []⟩ }
  let msg : CommMsg := ⟨0, .commCtrl (.announce .failure)⟩
  let solution := ((∅ : Predicate).inserted ⟨0, 0⟩ .SILENT).inserted ⟨0, 101⟩ (.iter_domain 0)
  have hinit : (receiver emptyProtocol).Init ⟨_, _⟩ := ⟨c, _, [], rfl, rfl, rfl⟩
  have hinfo := ((TransitionSystem.Run.init hinit).step <|
    show Step _ _ _ _ from .connecting rfl (.sendInfo rfl (.head _))).step <|
    show Step _ _ (.arrives 0 (.setupMsg (.myPortInfo info'))) _ from .arrives
  have hpairs := hinfo.step <|
    show Step _ _ _ _ from .connecting rfl (.pairs rfl (.head _) rfl rfl)
  have hstart := hpairs.step <| show Step _ _ _ _ from .connecting rfl (.start rfl)
  have hleader := (hstart.step <|
    show Step _ _ (.arrives 0 (.setupMsg (.leaderAnnounce 1))) _ from .arrives).step <|
    show Step _ _ _ _ from @Step.polls _ _ _ _ 0
  have hrecv := hleader.step <|
    show Step _ _ _ _ from .connecting rfl (.recv nofun trivial rfl rfl rfl)
  have hfinish := hrecv.step <| show Step _ _ _ _ from .connecting rfl (.finish rfl)
  have hsort : SetupPhase.returned ⟨some 0, (∅ : Finset Nat).sort⟩ = .returned ⟨some 0, []⟩ := by simp
  have hconnects := hfinish.step <| show Step _ _ _ _ from
    .connects hsort (rfl : Connector.connect _ [(0, info')] _ _ _ = .ok _)
  have harrives := (hconnects.step <|
    show Step _ _ (.arrives 0 (.commMsg msg)) _ from .arrives).step <|
    show Step _ _ _ _ from @Step.polls _ _ _ _ 0
  have h₀ := harrives.step <| show Step _ _ _ _ from .session (.begins rfl nofun
    (rfl : begin_round emptyProtocol _ _ true ⟨0, [], [], [⟨[], [⟨0, 0⟩], []⟩]⟩ = .ok (.ok _))) trivial
  have h₁ := h₀.step <| show Step _ _ _ _ from .session
    (.steps rfl (rfl : Round.step _ _ _ _ (.checkNative []) = .ok _)) trivial
  have h₂ := h₁.step <| show Step _ _ _ _ from .session
    (.steps rfl (rfl : Round.step _ _ _ _ .enterLoop = .ok _)) trivial
  have h₃ := h₂.step <| show Step _ _ _ _ from .session
    (.steps rfl (rfl : Round.step _ _ _ _ .routed = .ok _)) trivial
  have h₄ := h₃.step <| show Step _ _ _ _ from .session
    (.steps rfl (rfl : Round.step _ _ _ _ (.forward solution) = .ok _)) trivial
  have h₅ := h₄.step <| show Step _ _ _ _ from .session
    (.steps rfl (rfl : Round.step _ _ _ _ .forwarded = .ok _)) trivial
  have h₆ := h₅.step <| show Step _ _ (.handles 0 msg .handed 0) _ from
    .commMsg rfl (.steps rfl (rfl : Round.step _ _ _ _ (.net 0 (.commMsg msg)) = .ok _)) rfl
      (.control rfl)
  have h := round_discipline h₆ 0 msg
  exact ⟨_, _, msg, h₆, by decide, List.mem_append_right _ (.head _),
    (h.right.left 0 (List.mem_append_right _ (.head _))).symm⟩

-- Every step of a session that finds its message is one of the receiver.
theorem exists_step {node node' : SessionNode S} {a : SessionNode.Act S} {net : NetInbox}
    (h : SessionNode.Step pd node a node') (hd : ∀ index msg, a ≠ .delays index msg)
    (hn : ∀ index msg pr, a = .steps (.net index msg) pr →
      ∃ net', net.try_recv_undrained_net = (some (index, msg), net')) :
    ∃ act net', Step pd ⟨.session node, net⟩ act ⟨.session node', net'⟩ := by
  by_cases hq : Quiet a
  case pos => exact ⟨.silent, net, .session h hq⟩
  case neg =>
    cases a
    case delays => exact (hd _ _ rfl).elim
    case steps b pr =>
      obtain ⟨round, hs, hr⟩ : ∃ round, node.sync = .undecided round ∧
          round.step pd node.unphased.native_component_id node.comm b = .ok pr := by
        cases h
        case steps hs hr => exact ⟨_, hs, hr⟩
      cases b
      case net index msg =>
        obtain ⟨net', hn⟩ := hn index msg pr rfl
        cases msg
        case setupMsg msg => exact ⟨.silent, net', .setupMsg hn h⟩
        case commMsg msg =>
          obtain ⟨_, _, hm⟩ := Round.step_net hr
          obtain ⟨_, hf, _⟩ := Round.handle_msg_fate hm
          exact ⟨_, net', .commMsg hn h hs hf⟩
      case undelayed =>
        cases Round.step_cases hr
        case undelayed index msg msgs hb hu hm =>
          cases msg
          case setupMsg msg => exact ⟨.silent, net, .undelayedSetupMsg hu h⟩
          case commMsg msg =>
            obtain ⟨_, _, hm⟩ := Round.step_undelayed hr hu
            obtain ⟨_, hf, _⟩ := Round.handle_msg_fate hm
            exact ⟨_, net, .undelayedCommMsg hu h hs hf⟩
      all_goals exact (hq trivial).elim
    all_goals exact (hq trivial).elim

end Receiver
end Reowolf
