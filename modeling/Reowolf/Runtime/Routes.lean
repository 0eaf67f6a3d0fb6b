import Reowolf.Runtime.Life

namespace Reowolf

variable {S : Type}

namespace PortInfoMap

def route (m : PortInfoMap) (port : PortId) : Option Route :=
  (m.map.get? port).map (·.route)

-- The port is known, and its messages are not sent out by a UDP endpoint.
def Inward (m : PortInfoMap) (port : PortId) : Prop :=
  ∃ r, m.route port = some r ∧ ∀ index, r ≠ .udpEndpoint index

-- Routes are only added.
def KeepsRoutes (m m' : PortInfoMap) : Prop :=
  ∀ port r, m.route port = some r → m'.route port = some r

variable {m m' m'' : PortInfoMap} {p q : PortId} {info : PortInfo}
variable {map : HashMap PortId PortInfo}

theorem Inward.mono (h : m.Inward p) (hk : m.KeepsRoutes m') : m'.Inward p := by
  obtain ⟨r, hr, hi⟩ := h
  exact ⟨r, hk p r hr, hi⟩

namespace KeepsRoutes

theorem refl : m.KeepsRoutes m :=
  fun _ _ h => h

theorem trans (h : m.KeepsRoutes m') (h' : m'.KeepsRoutes m'') : m.KeepsRoutes m'' :=
  fun p r hr => h' p r (h p r hr)

-- A port that has no entry yet gets one, or the entry keeps its route.
theorem insert (hr : ∀ r, m.route p = some r → info.route = r) :
    m.KeepsRoutes { m with map := m.map.insert p info } := by
  intro q r hq
  simp only [route, HashMap.get?_insert]
  split
  case isTrue he => exact congrArg some (hr r (he ▸ hq))
  case isFalse   => exact hq

-- The entries of known ports stay as they are.
theorem of_known (h : ∀ q, m.route q ≠ none → m'.map.get? q = m.map.get? q) : m.KeepsRoutes m' := by
  intro q r hq
  rw [route, h q (by simp [hq])]
  exact hq

theorem move_ports {ports : List PortId} {old new : ComponentId} :
    m.KeepsRoutes (m.move_ports ports old new) := by
  intro q r hq
  simp only [route, PortInfoMap.move_ports, get?_change_owner, Option.map_map] at hq ⊢
  obtain ⟨info, hi, hr⟩ := Option.map_eq_some_iff.mp hq
  rw [hi, Option.map_some]
  simp only [Function.comp]
  split <;> exact congrArg some hr

theorem or_insert : m.KeepsRoutes (m.or_insert p info) := by
  unfold PortInfoMap.or_insert
  split
  case h_1 => exact .refl
  case h_2 hn => exact .insert fun r hr => by simp [route, hn] at hr

theorem pair_port {setups : List NetEndpointSetup} {x : Nat × MyPortInfo}
    (h : Reowolf.pair_port setups m x = .ok m') : m.KeepsRoutes m' := by
  have (index, info) := x
  simp only [Reowolf.pair_port, Result.bind_eq_ok, Result.unwrap_eq_ok] at h
  obtain ⟨s, _, local_info, hl, h⟩ := h
  split at h
  case isTrue  => cases h
  case isFalse =>
    cases h
    let local_info' := { local_info with peer := some info.port }
    have hlocal : m.KeepsRoutes { m with map := m.map.insert s.getter_for_incoming local_info' } :=
      .insert fun r hr => by simpa [route, hl] using hr
    exact fun q r hq => or_insert q r (hlocal q r hq)

theorem pair_ports {setups : List NetEndpointSetup} {received : ReceivedInfos}
    (h : setup_endpoints_and_pair_ports setups received m = .ok m') : m.KeepsRoutes m' := by
  unfold setup_endpoints_and_pair_ports at h
  induction received generalizing m with
  | nil =>
    cases h
    exact .refl
  | cons x received ih =>
    rw [List.foldlM_cons] at h
    obtain ⟨_, h₁, h⟩ := Result.bind_eq_ok.mp h
    exact (pair_port h₁).trans (ih h)

end KeepsRoutes
end PortInfoMap

namespace IdAndPortState.Allotted

variable {ips ips' : IdAndPortState} {native_component_id owner : ComponentId}
variable {live : ComponentId → Prop} {o i p : PortId} {n : Nat} {r : Route}

-- A port that is created next has no route yet.
theorem route_fresh (h : ips.Allotted native_component_id live) :
    ips.port_info.route ⟨ips.id_manager.connector_id,
      ips.id_manager.port_suffix_stream.next_suffix + n⟩ = none := by
  have hn := h.port_fresh (n := n)
  simpa [PortInfoMap.owner, PortInfoMap.route] using hn

theorem new_port_pair_routes (h : ips.Allotted native_component_id live)
    (hp : ips.new_port_pair owner = some (ips', o, i)) :
    ips.port_info.KeepsRoutes ips'.port_info := by
  obtain ⟨ho, hi, _⟩ := IdAndPortState.new_port_pair_eq_some hp
  have hno : ips.port_info.route o = none := ho ▸ h.route_fresh (n := 0)
  have hni : ips.port_info.route i = none := hi ▸ h.route_fresh (n := 1)
  simp only [IdAndPortState.new_port_pair, Option.bind_eq_bind, Option.bind_eq_some_iff,
    Option.pure_def, Option.some.injEq, Prod.mk.injEq] at hp
  obtain ⟨_, _, _, _, hips, ho, hi⟩ := hp
  subst hips ho hi
  refine .of_known fun q hq => ?_
  have hqo : q ≠ _ := fun he => hq (he ▸ hno)
  have hqi : q ≠ _ := fun he => hq (he ▸ hni)
  simp only [PortInfoMap.extend_owned_map, HashMap.get?_insert, if_neg hqo, if_neg hqi]

end IdAndPortState.Allotted

namespace NonsyncPhase

variable {pd : ProtocolDescription S} {s s' : NonsyncPhase S} {native_component_id : ComponentId}

theorem Step.routes (h : Step pd s s') (hk : s.Kept native_component_id) :
    s.ips.port_info.KeepsRoutes s'.ips.port_info := by
  cases h
  case newChannel hp => exact hk.allotted.new_port_pair_routes hp
  case newComponent hc =>
    obtain ⟨_, _, _, hips⟩ := new_component_cases hc
    exact hips ▸ .move_ports
  all_goals exact .refl

theorem Steps.routes (h : Steps pd s s') (hk : s.Kept native_component_id) :
    s.ips.port_info.KeepsRoutes s'.ips.port_info := by
  induction h with
  | refl        => exact .refl
  | tail h₁ h ih => exact ih.trans (h.routes (Steps.kept h₁ hk))

end NonsyncPhase

-- The ports through which messages from the endpoints come in.
def EndpointManager.getters (em : EndpointManager) : List PortId :=
  em.net_endpoint_store.map (·.getter_for_incoming) ++
    em.udp_endpoint_store.map (·.getter_for_incoming)

namespace EndpointManager

variable {em : EndpointManager} {index : Nat} {ee ee' : UdpEndpointExt}

theorem getters_set (h : em.udp_endpoint_store[index]? = some ee)
    (he : ee'.getter_for_incoming = ee.getter_for_incoming) :
    getters { em with udp_endpoint_store := em.udp_endpoint_store.set index ee' } = em.getters := by
  simp only [getters, List.map_set, he]
  congr 1
  apply List.ext_getElem?
  intro i
  rw [List.getElem?_set]
  split
  case isFalse => rfl
  case isTrue hi =>
    subst hi
    obtain ⟨hlt, hee⟩ := List.getElem?_eq_some_iff.mp h
    simp [hlt, hee]

theorem getters_udp_endpoints_round_end {d : Decision} :
    (em.udp_endpoints_round_end d).getters = em.getters := by
  cases d
  case failure => rfl
  case success => simp [getters, udp_endpoints_round_end, Function.comp_def]

end EndpointManager

namespace Round

variable {pd : ProtocolDescription S} {native_component_id : ComponentId} {a : Act}
variable {comm : ConnectorCommunication} {round : Round S} {pr : Progress S}

theorem Received.getters {net_index : Nat} {msg : Msg} (h : Received comm round net_index msg pr) :
    pr.endpoint_manager.getters = comm.endpoint_manager.getters := by
  cases h
  case failed => rw [Continues.fails.storage.right.right]
  all_goals rfl

theorem Stepped.getters (h : Stepped pd native_component_id comm round a pr) :
    pr.endpoint_manager.getters = comm.endpoint_manager.getters := by
  cases h
  case checkNative h => rw [h.storage.right.right]
  case start h =>
    cases h
    case mk h => rw [h.storage.right.right]
  case feed h =>
    cases h
    case mk h => rw [h.storage.right.right]
  case route h =>
    cases h
    case udpEndpoint he => exact EndpointManager.getters_set he rfl
    case component h =>
      cases h
      case mk h => rw [h.storage.right.right]
    all_goals rfl
  case undelayed h   => exact h.getters
  case net h         => exact h.getters
  case udp he _ _    => exact EndpointManager.getters_set he rfl
  case timeout h     =>
    subst h
    exact congrArg _ Continues.fails.storage.right.right
  all_goals rfl

end Round

-- The ports through which messages come in from other connectors are not sent out again.
namespace Connector

def getters (c : Connector S) : List PortId :=
  match c.phased with
  | .setup s            => s.net_endpoint_setups.map (·.getter_for_incoming) ++
      s.udp_endpoint_setups.map (·.getter_for_incoming)
  | .communication comm => comm.endpoint_manager.getters

def Inward (c : Connector S) : Prop :=
  ∀ g ∈ c.getters, c.unphased.ips.port_info.Inward g

variable {pd : ProtocolDescription S} {c c' : Connector S} {o i p : PortId} {pol : Polarity}

theorem Inward.mono (h : c.Inward) (hg : c'.getters = c.getters)
    (hk : c.unphased.ips.port_info.KeepsRoutes c'.unphased.ips.port_info) : c'.Inward :=
  fun g hm => (h g (hg ▸ hm)).mono hk

theorem Application.inward (h : Application pd c c') (ha : c.Allotted) (hi : c.Inward) :
    c'.Inward := by
  cases h
  case newPortPair h =>
    obtain ⟨_, hp, hc⟩ := new_port_pair_cases h
    subst hc
    exact hi.mono rfl (IdAndPortState.Allotted.new_port_pair_routes ha hp)
  case addComponent h =>
    obtain ⟨_, _, _, _, hc⟩ := add_component_cases h
    have (.mk unphased phased) := c
    subst hc
    refine hi.mono ?_ .move_ports
    cases phased <;> rfl
  case nextBatch h =>
    have (.mk unphased phased) := c
    cases phased <;> cases h
    exact hi
  case put h =>
    obtain ⟨_, _, hc, _, _, he⟩ := put_cases h
    have (.mk unphased phased) := c
    cases hc
    subst he
    exact hi
  case get h =>
    obtain ⟨_, _, hc, _, _, he⟩ := get_cases h
    have (.mk unphased phased) := c
    cases hc
    subst he
    exact hi

theorem Inward.new_udp_mediator_component (hi : c.Inward) (ha : c.Allotted)
    (h : c.new_udp_mediator_component = .ok (c', o, i)) : c'.Inward := by
  unfold Connector.new_udp_mediator_component at h
  obtain ⟨cu, phased⟩ := c
  cases phased
  case communication => simp at h
  case setup setup =>
    simp only [Result.bind_eq_ok, Result.unwrap_eq_ok, Result.pure_eq_ok, Prod.mk.injEq] at h
    obtain ⟨⟨udp_cid, ids⟩, hid, ⟨⟨nin, nout, uin, uout⟩, ids'⟩, hports, hc', _⟩ := h
    obtain ⟨hnew, _⟩ := IdManager.new_udp_mediator_ports_eq_some hports
    obtain ⟨hcid, hnext⟩ := IdManager.new_component_id_eq_some hid
    simp only [UdpMediatorPorts.mk.injEq, hcid, hnext] at hnew
    obtain ⟨hnin, hnout, huin, huout⟩ := hnew
    have hne {q n} (hq : cu.ips.port_info.route q ≠ none) : q ≠ ⟨cu.ips.id_manager.connector_id,
        cu.ips.id_manager.port_suffix_stream.next_suffix + n⟩ :=
      fun he => hq (he ▸ IdAndPortState.Allotted.route_fresh ha)
    subst hc'
    intro g hg
    simp only [getters, List.map_append, List.mem_append, List.map_cons, List.map_nil,
      List.mem_singleton] at hg
    have hg : g ∈ getters ⟨cu, .setup setup⟩ ∨ g = nin := by
      simp only [getters, List.mem_append]
      tauto
    cases hg
    case inr hg =>
      exact ⟨.localComponent, by simp [PortInfoMap.route, PortInfoMap.extend_owned_map, hg],
        fun _ h => by cases h⟩
    case inl hg =>
      refine (hi g hg).mono (.of_known fun q hq => ?_)
      have h₀ : q ≠ nin  := hnin ▸ hne hq (n := 0)
      have h₁ : q ≠ nout := hnout ▸ hne hq
      have h₂ : q ≠ uin  := huin ▸ hne hq
      have h₃ : q ≠ uout := huout ▸ hne hq
      simp [PortInfoMap.extend_owned_map, HashMap.get?_insert, h₀, h₁, h₂, h₃]

theorem Inward.new_net_port (hi : c.Inward) (ha : c.Allotted)
    (h : c.new_net_port pol = .ok (c', p)) : c'.Inward := by
  unfold Connector.new_net_port at h
  obtain ⟨cu, phased⟩ := c
  cases phased
  case communication => simp at h
  case setup setup =>
    simp only [Result.bind_eq_ok, Result.unwrap_eq_ok, Result.pure_eq_ok, Prod.mk.injEq] at h
    obtain ⟨⟨new_pid, ids⟩, hid, hc', _⟩ := h
    obtain ⟨hpid, _⟩ := IdManager.new_port_id_eq_some hid
    have hn : cu.ips.port_info.route new_pid = none :=
      hpid ▸ IdAndPortState.Allotted.route_fresh (n := 0) ha
    subst hc'
    intro g hg
    simp only [getters, List.map_append, List.mem_append, List.map_cons, List.map_nil,
      List.mem_singleton] at hg
    have hg : g ∈ getters ⟨cu, .setup setup⟩ ∨ g = new_pid := by
      simp only [getters, List.mem_append]
      tauto
    cases hg
    case inr hg =>
      exact ⟨.localComponent, by simp [PortInfoMap.route, PortInfoMap.extend_owned_map, hg],
        fun _ h => by cases h⟩
    case inl hg =>
      refine (hi g hg).mono (.of_known fun q hq => ?_)
      have hne : q ≠ new_pid := fun he => hq (he ▸ hn)
      simp [PortInfoMap.extend_owned_map, HashMap.get?_insert, hne]

theorem Inward.connect {setup : ConnectorSetup} {received : ReceivedInfos}
    {neighborhood : Neighborhood} {delayed undelayed : List (Nat × Msg)} (hi : c.Inward)
    (hc : c.phased = .setup setup)
    (h : c.connect received neighborhood delayed undelayed = .ok c') : c'.Inward := by
  obtain ⟨port_info, hpair, hc'⟩ := connect_cases hc h
  subst hc'
  refine hi.mono ?_ (.pair_ports hpair)
  simp [getters, hc, connected, EndpointManager.getters, Function.comp_def]

end Connector

namespace SessionNode

-- The ports of a round have the routes that they have outside of it.
structure Inward (node : SessionNode S) : Prop where
  own   : node.connector.Inward
  round : ∀ {round}, node.sync.round = some round →
          node.unphased.ips.port_info.KeepsRoutes round.rctx.ips.port_info

variable {pd : ProtocolDescription S} {node node' : SessionNode S} {a : Act S} {round : Round S}

theorem Inward.same (hi : node.Inward) (hu : node'.unphased = node.unphased)
    (hg : node'.comm.endpoint_manager.getters = node.comm.endpoint_manager.getters)
    (hr : ∀ {round}, node'.sync.round = some round →
      node.unphased.ips.port_info.KeepsRoutes round.rctx.ips.port_info) : node'.Inward := by
  have (.mk unphased comm sync) := node'
  cases hu
  exact ⟨hi.own.mono hg .refl, hr⟩

theorem Inward.progress {b : Round.Act} {pr : Progress S} (hi : node.Inward)
    (hs : node.sync = .undecided round)
    (h : Round.step pd node.unphased.native_component_id node.comm round b = .ok pr) :
    (node.progress pr).Inward := by
  have hst := Round.step_cases h
  have hk := hi.round (hs ▸ rfl : node.sync.round = some round)
  rw [← hst.keeps.ips] at hk
  unfold SessionNode.progress
  split
  case h_1 =>
    refine hi.same rfl hst.getters fun hr => ?_
    cases hr
    exact hk
  case h_2 =>
    refine hi.same rfl (EndpointManager.getters_udp_endpoints_round_end.trans hst.getters) fun hr => ?_
    cases hr
    exact hk

theorem Step.inward (h : Step pd node a node') (hk : node.Kept) (hi : node.Inward) : node'.Inward := by
  cases h
  case application ha => exact ⟨ha.inward hk.allotted hi.own, nofun⟩
  case delays         => exact hi.same rfl rfl hi.round
  case begins h =>
    refine hi.same rfl rfl fun hr => ?_
    cases hr
    obtain ⟨_, _, _, hu, hs, _⟩ := begin_round_cases h
    exact hs.routes (@Kept.nonsync _ pd _ _ _ hk hu .refl)
  case inconsistent => exact hi.same rfl rfl nofun
  case steps hs h   => exact hi.progress hs h
  case announces hs =>
    refine hi.same rfl rfl fun hr => ?_
    cases hr
    exact hi.round (hs ▸ rfl)
  case ends round d _ hs h =>
    obtain ⟨_, hidle, _, hem, _⟩ := commit_cases h
    cases d
    case failure =>
      cases h
      exact hi.same rfl rfl nofun
    case success =>
      obtain ⟨_, hips, _⟩ := commit_success h
      refine ⟨hi.own.mono (congrArg EndpointManager.getters hem) ?_, hidle ▸ nofun⟩
      have hr := hi.round (hs ▸ rfl : node.sync.round = some round)
      rw [← hips] at hr
      exact hr
  case breaks => exact hi.same rfl rfl nofun

end SessionNode

namespace Life

variable {pd : ProtocolDescription S} {l l' : Life S} {a : Act S}

def Inward : Life S → Prop
  | .setup cu s   => Connector.Inward ⟨cu, .setup s⟩
  | .session node => node.Inward

theorem Step.inward (h : Step pd l a l') (hk : l.Kept) (hi : l.Inward) : l'.Inward := by
  cases h
  case refuses => exact hi
  case application h =>
    obtain ⟨ha, _⟩ := hk
    exact h.inward ha hi
  case newUdpMediatorComponent h =>
    obtain ⟨ha, _⟩ := hk
    exact Connector.Inward.new_udp_mediator_component hi ha h
  case newNetPort h =>
    obtain ⟨ha, _⟩ := hk
    exact Connector.Inward.new_net_port hi ha h
  case connect h => exact ⟨Connector.Inward.connect hi rfl h, nofun⟩
  case session h =>
    have hk : SessionNode.Kept _ := hk
    have hi : SessionNode.Inward _ := hi
    exact h.inward hk hi

theorem init_inward (h : (life pd).Init l) : l.Inward := by
  obtain ⟨_, hc⟩ := h
  simp only [Connector.new, Option.bind_eq_bind, Option.bind_eq_some_iff] at hc
  obtain ⟨_, _, hc⟩ := hc
  cases l
  case session => cases congrArg Connector.phased (Option.some.inj hc)
  case setup   =>
    cases hc
    exact fun _ h => by cases h

theorem inward (h : (life pd).Reachable l) : l.Inward :=
  h.invariant init_inward fun hr hi hs => Step.inward hs (kept hr) hi

end Life
end Reowolf
