import Reowolf.Runtime.Agreement
import Reowolf.Runtime.Batches
import Reowolf.Runtime.SyncCall

namespace Reowolf

variable {S : Type}

theorem BranchingProtoComponent.step_ips {pd : ProtocolDescription S} {cid : ComponentId}
    {c c' : BranchingProtoComponent S} {rctx rctx' : RoundCtx} {a : BranchingProtoComponent.Act}
    (h : c.step pd cid rctx a = .ok (rctx', c')) : rctx'.ips = rctx.ips := by
  cases BranchingProtoComponent.step_cases h
  case run hh =>
    cases hh
    case ends hs => exact hs.ips
    all_goals rfl
  all_goals rfl

namespace Round

-- A step of a round leaves the ports as they are, and the components that take part.
structure Keeps (round : Round S) (pr : Progress S) : Prop where
  ips        : pr.round.rctx.ips = round.rctx.ips
  components : ∀ cid, pr.round.HasComponent cid ↔ round.HasComponent cid

variable {pd : ProtocolDescription S} {comm : ConnectorCommunication} {round round' : Round S}
variable {pr : Progress S} {native_component_id cid : ComponentId} {next : SyncStage}

theorem Continues.keeps (h : Continues comm round' pr) (hi : round'.rctx.ips = round.rctx.ips)
    (hc : ∀ cid, round'.HasComponent cid ↔ round.HasComponent cid) : Keeps round pr where
  ips := by
    cases h
    case on => exact hi
    case fails =>
      unfold fail_round
      split
      case h_1 => exact hi
      case h_2 => split <;> exact hi
  components cid := by
    rw [HasComponent, h.storage.right.left]
    exact hc cid

theorem ComponentStepped.keeps {b : BranchingProtoComponent.Act}
    (h : ComponentStepped pd comm round cid next b pr) : Keeps round pr := by
  cases h
  case mk component rctx' component' stage hc hstep _ hcont =>
    apply hcont.keeps (BranchingProtoComponent.step_ips hstep)
    intro cid'
    simp only [HasComponent, HashMap.get?_insert]
    split
    case isTrue he => simp [he, hc]
    case isFalse   => rfl

theorem Received.keeps {net_index : Nat} {msg : Msg} (h : Received comm round net_index msg pr) :
    Keeps round pr := by
  cases h
  case discarded => exact ⟨rfl, fun _ => Iff.rfl⟩
  case delayed   => exact ⟨rfl, fun _ => Iff.rfl⟩
  case payload   => exact ⟨rfl, fun _ => Iff.rfl⟩
  case announced => exact ⟨rfl, fun _ => Iff.rfl⟩
  case failed    => exact Continues.fails.keeps rfl fun _ => Iff.rfl
  case suggested hs => exact ⟨(RoundCtx.submitted_of_submit hs).ips, fun _ => Iff.rfl⟩

theorem Stepped.keeps {a : Act} (h : Stepped pd native_component_id comm round a pr) :
    Keeps round pr := by
  cases h
  case checkNative h => exact h.keeps rfl fun _ => Iff.rfl
  case start h       => exact h.keeps
  case feed h        => exact h.keeps
  case undelayed h   =>
    have h := h.keeps
    exact ⟨h.ips, h.components⟩
  case net h         => exact h.keeps
  case timeout pr _ _ h =>
    have hk : Keeps round pr := by
      subst h
      exact Continues.fails.keeps rfl fun _ => Iff.rfl
    exact ⟨hk.ips, hk.components⟩
  case route h =>
    cases h
    case native hf =>
      obtain ⟨_, _, _, _, hs⟩ := @BranchingNative.feed_msg_cases (_, _) _ _ _ _ _ _ hf
      exact ⟨hs.ips, fun _ => Iff.rfl⟩
    case component h =>
      have h := h.keeps
      exact ⟨h.ips, h.components⟩
    all_goals exact ⟨rfl, fun _ => Iff.rfl⟩
  all_goals exact ⟨rfl, fun _ => Iff.rfl⟩

end Round

-- The round of a call of `sync` that has not returned yet.
def SyncState.round : SyncState S → Option (Round S)
  | .idle             => none
  | .undecided round  => some round
  | .decided round .. => some round

namespace SessionNode

-- The invariants of the port state, of the batches, and of the ports that a round works on.
structure Kept (node : SessionNode S) : Prop where
  allotted : node.connector.Allotted
  known    : node.connector.Known
  batches  : Connector.Batches node.unphased node.comm.native_batches
  calling  : node.sync ≠ .idle → node.comm.native_batches = [∅]
  round    : ∀ {round}, node.sync.round = some round →
             round.rctx.ips.Allotted node.unphased.native_component_id round.HasComponent ∧
             round.rctx.ips.Known none

variable {pd : ProtocolDescription S} {node node' : SessionNode S} {a : Act S} {round : Round S}
variable {s : NonsyncPhase S} {unrun : List (ComponentId × S)}

-- The components are those of the connector.
def Unrun (node : SessionNode S) (unrun : List (ComponentId × S)) : Prop :=
  ∀ cid state, (cid, state) ∈ unrun → node.unphased.proto_components.get? cid = some state

theorem Kept.nonsync (hk : node.Kept) (hu : node.Unrun unrun)
    (hs : NonsyncPhase.Steps pd ⟨node.unphased.ips, unrun, ∅⟩ s) :
    s.Kept node.unphased.native_component_id := by
  refine hs.kept ⟨hk.allotted.mono fun cid hc => ?_, hk.known⟩
  cases hc
  case inl hc => exact hc.imp fun state => hu cid state
  case inr hc => simp at hc

theorem Kept.begins {timeout : Bool} {orders : RoundOrders} (hk : node.Kept)
    (h : begin_round pd node.unphased node.comm timeout orders = .ok (.ok round)) :
    round.rctx.ips.Allotted node.unphased.native_component_id round.HasComponent ∧
    round.rctx.ips.Known none := by
  obtain ⟨unrun, _, _, hu, hs, _⟩ := begin_round_cases h
  have hk := hk.nonsync hu hs
  refine ⟨hk.allotted.mono fun cid hc => .inr hc, hk.known⟩

-- A step that leaves the committed state as it is.
theorem Kept.same (hk : node.Kept) (hu : node'.unphased = node.unphased)
    (hb : node'.comm.native_batches = node.comm.native_batches)
    (hc : node'.sync ≠ .idle → node'.comm.native_batches = [∅])
    (hr : ∀ round, node'.sync.round = some round →
      round.rctx.ips.Allotted node.unphased.native_component_id round.HasComponent ∧
      round.rctx.ips.Known none) : node'.Kept := by
  have (.mk unphased comm sync)   := node
  have (.mk unphased' comm' sync') := node'
  cases hu
  exact ⟨hk.allotted, hk.known, hb ▸ hk.batches, hc, hr _⟩

theorem Kept.progress {b : Round.Act} {pr : Progress S} (hk : node.Kept)
    (hs : node.sync = .undecided round)
    (h : Round.step pd node.unphased.native_component_id node.comm round b = .ok pr) :
    (node.progress pr).Kept := by
  obtain ⟨hu, hb, _, hi⟩ := @progress_cases _ node pr
  have hcalling : node.comm.native_batches = [∅] := hk.calling (hs ▸ nofun)
  refine hk.same hu hb (fun _ => hb.trans hcalling) fun round' hr => ?_
  have hr' : round' = pr.round := by
    unfold SessionNode.progress at hr
    split at hr <;> exact (Option.some.inj hr).symm
  have hkeeps := (Round.step_cases h).keeps
  obtain ⟨ha, hn⟩ := hk.round (hs ▸ rfl : node.sync.round = some round)
  subst hr'
  rw [hkeeps.ips]
  exact ⟨ha.mono fun cid => (hkeeps.components cid).mp, hn⟩

theorem Kept.commit {orders : CommitOrders} {d : Decision} (hk : node.Kept)
    (hs : node.sync.round = some round) (hi : node.sync ≠ .idle)
    (h : node.commit round orders d = .ok node') : node'.Kept := by
  obtain ⟨_, hidle, _, _, hb, hnative⟩ := commit_cases h
  have hcalling := hb.trans (hk.calling hi)
  cases d
  case failure =>
    cases h
    exact hk.same rfl rfl (fun h => (h rfl).elim) nofun
  case success predicate =>
    obtain ⟨_, hips, hc⟩ := commit_success h
    obtain ⟨ha, hn⟩ := hk.round hs
    have (.mk unphased' comm' sync') := node'
    subst hidle
    constructor
    case allotted =>
      have ha' : unphased'.ips.Allotted unphased'.native_component_id round.HasComponent :=
        hips ▸ hnative ▸ ha
      exact ha'.mono fun cid => hc.components.mp
    case known   => exact (hips ▸ hn : unphased'.ips.Known none)
    case batches => exact hcalling.symm ▸ .empty
    case calling => exact fun h => (h rfl).elim
    case round   => exact nofun

theorem Step.kept (h : Step pd node a node') (hk : node.Kept) : node'.Kept := by
  cases h
  case application unphased comm hs ha =>
    obtain ⟨hal, hn⟩ := ha.kept hk.allotted hk.known
    exact ⟨hal, hn, ha.batches hk.allotted rfl rfl hk.batches, fun h => (h rfl).elim, nofun⟩
  case delays hs _ => exact hk.same rfl rfl hk.calling fun _ => hk.round
  case begins timeout orders round hs _ h =>
    refine ⟨hk.allotted, hk.known, .empty, fun _ => rfl, fun {round} hr => ?_⟩
    cases hr
    exact hk.begins h
  case inconsistent => exact hk.same rfl rfl (fun h => (h rfl).elim) nofun
  case steps hs h   => exact hk.progress hs h
  case announces round decision child unannounced hs =>
    refine hk.same rfl rfl (fun _ => hk.calling (hs ▸ nofun)) fun round hr => ?_
    cases hr
    exact hk.round (hs ▸ rfl)
  case ends round decision orders hs h => exact hk.commit (hs ▸ rfl) (hs ▸ nofun) h
  case breaks => exact hk.same rfl rfl (fun h => (h rfl).elim) nofun

end SessionNode

-- The life of a connector: it is set up, and then takes part in a session.
inductive Life (S : Type)
  | setup (unphased : ConnectorUnphased S) (setup : ConnectorSetup)
  | session (node : SessionNode S)

namespace Life

def connector : Life S → Connector S
  | .setup unphased s => ⟨unphased, .setup s⟩
  | .session node     => node.connector

-- No call of `sync` is in progress.
def Idle : Life S → Prop
  | setup ..     => True
  | session node => node.sync = .idle

-- A call of the application that returns an error.
inductive Refuses (pd : ProtocolDescription S) (c : Connector S) : Prop
  | newUdpMediatorComponent {err} :
    c.new_udp_mediator_component = .error (.err err) →
    Refuses pd c
  | newNetPort {polarity err} :
    c.new_net_port polarity = .error (.err err) →
    Refuses pd c
  | connect {received neighborhood delayed undelayed err} :
    c.connect received neighborhood delayed undelayed = .error (.err err) →
    Refuses pd c
  | addComponent {module_name identifier ports err} :
    c.add_component pd module_name identifier ports = .error (.err err) →
    Refuses pd c
  | nextBatch {err} :
    c.next_batch = .error (.err err) →
    Refuses pd c
  | put {port payload err} :
    c.put port payload = .error (.err err) →
    Refuses pd c
  | get {port err} :
    c.get port = .error (.err err) →
    Refuses pd c

inductive Act (S : Type)
  | refuses
  | application
  | newUdpMediatorComponent
  | newNetPort (polarity : Polarity)
  | connect (received : ReceivedInfos)
  | session (a : SessionNode.Act S)

inductive Step (pd : ProtocolDescription S) : Life S → Act S → Life S → Prop
  | refuses {l} :
    l.Idle →
    Refuses pd l.connector →
    Step pd l .refuses l
  | application {cu setup cu' setup'} :
    Connector.Application pd ⟨cu, .setup setup⟩ ⟨cu', .setup setup'⟩ →
    Step pd (.setup cu setup) .application (.setup cu' setup')
  | newUdpMediatorComponent {cu setup cu' setup' o i} :
    Connector.new_udp_mediator_component ⟨cu, .setup setup⟩ = .ok (⟨cu', .setup setup'⟩, o, i) →
    Step pd (.setup cu setup) .newUdpMediatorComponent (.setup cu' setup')
  | newNetPort {cu setup polarity cu' setup' port} :
    Connector.new_net_port ⟨cu, .setup setup⟩ polarity = .ok (⟨cu', .setup setup'⟩, port) →
    Step pd (.setup cu setup) (.newNetPort polarity) (.setup cu' setup')
  | connect {cu setup received neighborhood delayed undelayed cu' comm} :
    HonestInfos cu.ips setup.net_endpoint_setups received →
    HonestOwners cu.ips received →
    Connector.connect ⟨cu, .setup setup⟩ received neighborhood delayed undelayed =
      .ok ⟨cu', .communication comm⟩ →
    Step pd (.setup cu setup) (.connect received) (.session ⟨cu', comm, .idle⟩)
  | session {node a node'} :
    SessionNode.Step pd node a node' →
    Step pd (.session node) (.session a) (.session node')

end Life

def life (pd : ProtocolDescription S) : TransitionSystem (Life S) (Life.Act S) where
  Init l := ∃ connector_id, Connector.new connector_id = some l.connector
  Step   := Life.Step pd

namespace Life

-- The port maps that a connector works with: its own, that of a round in progress, and those that
-- the components change as a round begins.
inductive PortMap (pd : ProtocolDescription S) (l : Life S) : PortInfoMap → Prop
  | own : PortMap pd l l.connector.unphased.ips.port_info
  | round {node round} :
    l = .session node →
    node.sync.round = some round →
    PortMap pd l round.rctx.ips.port_info
  | nonsync {node unrun s} :
    l = .session node →
    node.sync = .idle →
    node.Unrun unrun →
    NonsyncPhase.Steps pd ⟨node.unphased.ips, unrun, ∅⟩ s →
    PortMap pd l s.ips.port_info

def Kept : Life S → Prop
  | .setup cu s   => Connector.Allotted ⟨cu, .setup s⟩ ∧ Connector.Known ⟨cu, .setup s⟩
  | .session node => node.Kept

variable {pd : ProtocolDescription S} {l l' : Life S} {a : Act S} {m : PortInfoMap}

theorem init_kept (h : (life pd).Init l) : l.Kept := by
  obtain ⟨_, hc⟩ := h
  have hk := Connector.new_kept pd hc
  simp only [Connector.new, Option.bind_eq_bind, Option.bind_eq_some_iff] at hc
  obtain ⟨_, _, hc⟩ := hc
  cases l
  case setup   => exact hk
  case session => cases congrArg Connector.phased (Option.some.inj hc)

theorem Step.kept (h : Step pd l a l') (hk : l.Kept) : l'.Kept := by
  cases h
  case refuses => exact hk
  case application h =>
    obtain ⟨ha, hn⟩ := hk
    exact h.kept ha hn
  case newUdpMediatorComponent h =>
    obtain ⟨ha, hn⟩ := hk
    exact ⟨ha.new_udp_mediator_component h, hn.new_udp_mediator_component pd h⟩
  case newNetPort h =>
    obtain ⟨ha, hn⟩ := hk
    exact ⟨ha.new_net_port h, @Connector.Known.step _ pd _ _ _ _ hn (.newNetPort h)⟩
  case connect hi ho h =>
    obtain ⟨ha, hn⟩ := hk
    have ha' := ha.connect hn rfl hi ho h
    have hn' := @Connector.Known.step _ pd _ _ _ _ hn (.connect rfl hi h)
    obtain ⟨_, _, hc⟩ := Connector.connect_cases rfl h
    cases hc
    exact ⟨ha', hn', .empty, fun h => (h rfl).elim, nofun⟩
  case session h =>
    have hk : SessionNode.Kept _ := hk
    exact h.kept hk

theorem kept (h : (life pd).Reachable l) : l.Kept :=
  h.invariant init_kept fun _ hk hs => Step.kept hs hk

-- In every state of every life the owners of the ports and the owned sets describe one relation, and
-- in the communication phase the batches are those of the native.
theorem port_ownership (h : (life pd).Reachable l) :
    (∀ {m}, l.PortMap pd m → m.invariant_preserved) ∧
    ∀ {comm}, l.connector.phased = .communication comm →
      Connector.Batches l.connector.unphased comm.native_batches := by
  have hk := kept h
  constructor
  case left =>
    intro m hm
    apply PortInfoMap.invariant_preserved_iff.mpr
    cases hm
    case own =>
      cases l
      case setup   => exact hk.left.consistent
      case session => exact SessionNode.Kept.allotted hk |>.consistent
    case round hl hr =>
      subst hl
      exact (SessionNode.Kept.round hk hr).left.consistent
    case nonsync hl _ hu hs =>
      subst hl
      exact (SessionNode.Kept.nonsync hk hu hs).allotted.consistent
  case right =>
    intro comm hc
    cases l
    case setup   => cases hc
    case session =>
      cases hc
      exact SessionNode.Kept.batches hk

theorem port_ownership_mediator : ∃ l : Life Unit, (life emptyProtocol).Reachable l ∧
    (∀ {m}, l.PortMap emptyProtocol m → m.invariant_preserved) ∧
    ∀ {comm}, l.connector.phased = .communication comm →
      Connector.Batches l.connector.unphased comm.native_batches := by
  have hinit : (life emptyProtocol).Init (.setup _ _) := ⟨0, rfl⟩
  have hudp := TransitionSystem.Reachable.step (.init hinit) (Step.newUdpMediatorComponent rfl)
  have hconnect := hudp.step <| Step.connect .nil .nil
    (rfl : Connector.connect _ [] ⟨none, []⟩ [] [] = .ok _)
  have hput := hconnect.step <| .session <| .application rfl <| .put
    (rfl : Connector.put _ ⟨0, 1⟩ [7] = .ok _)
  exact ⟨_, hput, port_ownership hput⟩

-- The variable that is drawn for the native as a round begins is not that of any port of the round.
theorem native_spec_var_fresh {node : SessionNode S} {timeout : Bool} {orders : RoundOrders}
    {round : Round S} (h : (life pd).Reachable (.session node))
    (hb : begin_round pd node.unphased node.comm timeout orders = .ok (.ok round)) :
    ∃ native_spec_var stream rctx,
    node.unphased.ips.id_manager.new_spec_var_stream.next = some (native_spec_var, stream) ∧
    BranchingNative.start_batches node.unphased.ips.port_info node.unphased.native_component_id
      native_spec_var 0 (node.comm.native_batches.zip orders.batches) (rctx, ⟨∅⟩) =
      .ok (round.rctx, round.branching_native) ∧
    ∀ port, round.rctx.ips.port_info.spec_var_for port ≠ some native_spec_var := by
  have hk : SessionNode.Kept node := kept h
  have hknown : node.unphased.ips.Known none := hk.known
  obtain ⟨unrun, native_spec_var, stream, hu, hs, hv, rctx, _, hbatches⟩ := begin_round_cases hb
  refine ⟨native_spec_var, stream, rctx, hv, hbatches, fun port hp => ?_⟩
  have heq := IdManager.native_spec_var_eq hv
  subst heq
  -- the second port of a channel is an odd distance away from where the ports are drawn
  have hodd := (hs.drawn hknown.drawn).vars hp rfl
  simp only [IdManager.SKIP_N] at hodd
  omega

theorem native_spec_var_fresh_alone : ∃ (node : SessionNode Unit) (round : Round Unit),
    (life emptyProtocol).Reachable (.session node) ∧
    ∃ native_spec_var stream rctx,
    node.unphased.ips.id_manager.new_spec_var_stream.next = some (native_spec_var, stream) ∧
    BranchingNative.start_batches node.unphased.ips.port_info node.unphased.native_component_id
      native_spec_var 0 (node.comm.native_batches.zip [⟨[], [⟨0, 0⟩, ⟨0, 1⟩], []⟩]) (rctx, ⟨∅⟩) =
      .ok (round.rctx, round.branching_native) ∧
    ∀ port, round.rctx.ips.port_info.spec_var_for port ≠ some native_spec_var := by
  have hinit : (life emptyProtocol).Init (.setup _ _) := ⟨0, rfl⟩
  have hpair := TransitionSystem.Reachable.step (.init hinit) (.application (.newPortPair rfl))
  have hconnect := hpair.step <| Step.connect .nil .nil
    (rfl : Connector.connect _ [] ⟨none, []⟩ [] [] = .ok _)
  exact ⟨_, _, hconnect, native_spec_var_fresh hconnect
    (rfl : begin_round emptyProtocol _ _ false ⟨0, [], [], [⟨[], [⟨0, 0⟩, ⟨0, 1⟩], []⟩]⟩ = .ok (.ok _))⟩

end Life
end Reowolf
