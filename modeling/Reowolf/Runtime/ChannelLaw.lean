import Reowolf.Library.Transition
import Reowolf.Runtime.Channel
import Reowolf.Runtime.Connector

namespace Reowolf

-- The calls that change the port state of a connector. The infos that arrive during `connect` are
-- those that the other ends of the channels send.
inductive PortAction
  | newPortPair
  | newUdpMediatorComponent
  | newNetPort (polarity : Polarity)
  | connect (received : ReceivedInfos) (neighborhood : Neighborhood)
    (delayed undelayed : List (Nat × Msg))
  | addComponent (module_name identifier : List UInt8) (ports : List PortId)
  | nonsyncNewComponent (proto_component_id : ComponentId) (moved_ports : List PortId)
  | nonsyncNewPortPair (proto_component_id : ComponentId)

-- A connector, and the putter and the getter of each logical channel that was formed so far. The
-- latter are recorded, and never read.
structure ChannelState (S : Type) where
  connector : Connector S
  channels  : List (PortId × PortId)

-- The local port of each endpoint, with the info it receives.
def met (setups : List NetEndpointSetup) (received : ReceivedInfos) : List (PortId × MyPortInfo) :=
  received.filterMap fun (index, info) => setups[index]?.map fun s => (s.getter_for_incoming, info)

-- Every endpoint receives one info, which describes the port at the other end of its channel. That
-- is a port of another connector, or a port of one of this connector's own endpoints, which then
-- receives the info of this end in turn.
structure HonestInfos (cu : IdAndPortState) (setups : List NetEndpointSetup)
    (received : ReceivedInfos) : Prop where
  complete : (received.map (·.1)).Perm (List.range setups.length)
  distinct : (received.map (·.2.port)).Nodup
  own      : ∀ {index info}, (index, info) ∈ received →
             info.port.connector_id = cu.id_manager.connector_id →
             (cu.port_info.map.get? info.port).map (·.polarity) = some info.polarity ∧
             ∃ index' info', (index', info') ∈ received ∧
             setups[index']?.map (·.getter_for_incoming) = some info.port ∧
             setups[index]?.map (·.getter_for_incoming) = some info'.port

def channel_of : PortId × MyPortInfo → PortId × PortId
  | (port, info) =>
    match info.polarity with
    | .putter => (info.port, port)
    | .getter => (port, info.port)

variable {S : Type}

inductive PortStep (pd : ProtocolDescription S) : ChannelState S → PortAction → ChannelState S → Prop
  | newPortPair {c c' cs o i} :
    c.new_port_pair = some (c', o, i) →
    PortStep pd ⟨c, cs⟩ .newPortPair ⟨c', (o, i) :: cs⟩
  | newUdpMediatorComponent {c c' cs nin nout uin uout ids} :
    c.unphased.ips.id_manager.new_udp_mediator_ports = some (⟨nin, nout, uin, uout⟩, ids) →
    c.new_udp_mediator_component = .ok (c', nout, nin) →
    PortStep pd ⟨c, cs⟩ .newUdpMediatorComponent ⟨c', (nout, uin) :: (uout, nin) :: cs⟩
  | newNetPort {c c' cs polarity p} :
    c.new_net_port polarity = .ok (c', p) →
    PortStep pd ⟨c, cs⟩ (.newNetPort polarity) ⟨c', cs⟩
  | connect {c c' cs received neighborhood delayed undelayed setup} :
    c.phased = .setup setup →
    HonestInfos c.unphased.ips setup.net_endpoint_setups received →
    c.connect received neighborhood delayed undelayed = .ok c' →
    PortStep pd ⟨c, cs⟩ (.connect received neighborhood delayed undelayed)
      ⟨c', (met setup.net_endpoint_setups received).map channel_of ++ cs⟩
  | addComponent {c c' cs module_name identifier ports} :
    c.add_component pd module_name identifier ports = .ok c' →
    PortStep pd ⟨c, cs⟩ (.addComponent module_name identifier ports) ⟨c', cs⟩
  | nonsyncNewComponent {c cs ips cid new_cid moved_ports} :
    NonsyncProtoContext.new_component c.unphased.ips cid moved_ports = some (ips, new_cid) →
    PortStep pd ⟨c, cs⟩ (.nonsyncNewComponent cid moved_ports)
      ⟨{ c with unphased := { c.unphased with ips := ips } }, cs⟩
  | nonsyncNewPortPair {c cs ips cid o i} :
    NonsyncProtoContext.new_port_pair c.unphased.ips cid = some (ips, o, i) →
    PortStep pd ⟨c, cs⟩ (.nonsyncNewPortPair cid)
      ⟨{ c with unphased := { c.unphased with ips := ips } }, (o, i) :: cs⟩

def portSystem (pd : ProtocolDescription S) : TransitionSystem (ChannelState S) PortAction where
  Init s := (∃ connector_id, Connector.new connector_id = some s.connector) ∧ s.channels = []
  Step   := PortStep pd

-- The comment on `spec_var_for`: two ports share their variable exactly if they are the ends of one
-- logical channel. And the peers of ports come in pairs of a putter and a getter.
structure ChannelLaw (m : PortInfoMap) (channels : List (PortId × PortId)) : Prop where
  same_var : ∀ {p q info_p info_q}, m.map.get? p = some info_p → m.map.get? q = some info_q →
             info_p.peer.isSome → info_q.peer.isSome → p ≠ q →
             (m.spec_var_for p = m.spec_var_for q ↔ (p, q) ∈ channels ∨ (q, p) ∈ channels)
  paired   : ∀ {p info_p q}, m.map.get? p = some info_p → info_p.peer = some q →
             ∃ info_q, m.map.get? q = some info_q ∧ info_q.peer = some p ∧
             info_q.polarity = info_p.polarity.not

namespace PortInfoMap

def ends (m : PortInfoMap) : Ends :=
  fun p => (m.map.get? p).map fun info => (info.polarity, info.peer)

variable {m : PortInfoMap} {p q : PortId} {info : PortInfo}

theorem ends_eq_some {pol peer} : m.ends p = some (pol, peer) ↔
    ∃ info, m.map.get? p = some info ∧ info.polarity = pol ∧ info.peer = peer := by
  simp [ends]

theorem ends_insert {map : HashMap PortId PortInfo} {owned : HashMap ComponentId (Finset PortId)} :
    ends ⟨map.insert p info, owned⟩ =
      Function.update (ends ⟨map, owned⟩) p (some (info.polarity, info.peer)) := by
  funext q
  simp only [ends, HashMap.get?_insert, Function.update_apply]
  split <;> rfl

theorem extend_owned_map {owner : ComponentId} {ports : Finset PortId} :
    (m.extend_owned owner ports).map = m.map :=
  rfl

theorem ends_extend_owned {owner : ComponentId} {ports : Finset PortId} :
    (m.extend_owned owner ports).ends = m.ends :=
  rfl

theorem ends_or_insert : (m.or_insert p info).ends q =
    if q = p ∧ m.ends p = none then some (info.polarity, info.peer) else m.ends q := by
  unfold or_insert
  split
  case h_1 x hx =>
    have : m.ends p ≠ none := by simp [ends, hx]
    simp [this]
  case h_2 hx =>
    have : m.ends p = none := by simp [ends, hx]
    simp only [ends_insert, Function.update_apply, this, and_true]

theorem spec_var_for_eq : m.spec_var_for p = m.ends.var p := by
  simp only [spec_var_for, Ends.var, ends]
  cases m.map.get? p
  case none      => rfl
  case some info => cases h : info.polarity <;> simp [h]

theorem get?_change_owner {map : HashMap PortId PortInfo} {ports : List PortId} {new : ComponentId} :
    ((ports.foldl (fun map port => map.modify port ({ · with owner := new })) map).get? p) =
      (map.get? p).map fun info => if p ∈ ports then { info with owner := new } else info := by
  induction ports generalizing map with
  | nil => simp
  | cons hd tl ih =>
    rw [List.foldl_cons, ih, HashMap.get?_modify]
    by_cases h : p = hd
    case pos =>
      subst h
      cases map.get? p <;> simp
    case neg => simp [h]

theorem ends_move_ports {ports : List PortId} {old new : ComponentId} :
    (m.move_ports ports old new).ends = m.ends := by
  funext p
  simp only [ends, move_ports, get?_change_owner, Option.map_map]
  congr
  funext info
  simp only [Function.comp]
  split <;> rfl

end PortInfoMap

namespace IdManager

variable {m m' : IdManager} {p : PortId}

theorem new_port_id_eq_some (h : m.new_port_id = some (p, m')) :
    p = ⟨m.connector_id, m.port_suffix_stream.next_suffix⟩ ∧ m'.connector_id = m.connector_id ∧
    m'.port_suffix_stream.next_suffix = m.port_suffix_stream.next_suffix + 1 := by
  simp only [new_port_id, Option.bind_eq_bind, Option.bind_eq_some_iff, Option.pure_def,
    Option.some.injEq, Prod.mk.injEq] at h
  obtain ⟨_, hn, hp, hm⟩ := h
  obtain ⟨hn, hs⟩ := U32Stream.next_eq_some hn
  subst hp hm
  exact ⟨by rw [hn], rfl, hs⟩

end IdManager

section Met

variable {setups : List NetEndpointSetup} {received : ReceivedInfos} {l : PortId} {info : MyPortInfo}

theorem mem_met : (l, info) ∈ met setups received ↔
    ∃ index, (index, info) ∈ received ∧ setups[index]?.map (·.getter_for_incoming) = some l := by
  simp only [met, List.mem_filterMap, Prod.exists, Option.map_eq_some_iff, Prod.mk.injEq]
  constructor
  case mp  =>
    rintro ⟨index, _, hm, s, hs, hl, hi⟩
    exact ⟨index, hi ▸ hm, s, hs, hl⟩
  case mpr =>
    rintro ⟨index, hm, s, hs, hl⟩
    exact ⟨index, info, hm, s, hs, hl, rfl⟩

theorem filterMap_range_getElem? {α : Type} (l : List α) :
    (List.range l.length).filterMap (l[·]?) = l := by
  induction l with
  | nil => rfl
  | cons hd tl ih =>
    rw [List.length_cons, List.range_succ_eq_map, List.filterMap_cons, List.filterMap_map]
    simpa [Function.comp_def] using ih

theorem met_locals (h : (received.map (·.1)).Perm (List.range setups.length)) :
    ((met setups received).map (·.1)).Perm (setups.map (·.getter_for_incoming)) := by
  have hm : (met setups received).map (·.1) =
      ((received.map (·.1)).filterMap (setups[·]?)).map (·.getter_for_incoming) := by
    simp [met, List.map_filterMap, List.filterMap_map, Function.comp_def]
  rw [hm]
  conv => rhs; rw [← filterMap_range_getElem? setups]
  exact (h.filterMap _).map _

theorem met_peers (h : (received.map (·.2.port)).Nodup) :
    ((met setups received).map (·.2.port)).Nodup := by
  refine h.sublist ?_
  clear h
  induction received with
  | nil => exact .slnil
  | cons hd tl ih =>
    cases hs : setups[hd.1]?
    case none   => simpa [met, hs] using ih.cons _
    case some s => simpa [met, hs] using ih

end Met

theorem pair_port_ok {setups : List NetEndpointSetup} {m m' : PortInfoMap} {index : Nat}
    {info : MyPortInfo} (h : pair_port setups m (index, info) = .ok m') :
    ∃ s pol peer, setups[index]? = some s ∧ m.ends s.getter_for_incoming = some (pol, peer) ∧
    info.polarity ≠ pol ∧ m'.ends = m.ends.meet [(s.getter_for_incoming, info)] := by
  unfold pair_port at h
  cases hs : setups[index]?
  case none => simp [hs, unwrap, bind, Except.bind] at h
  case some s =>
    simp only [hs, unwrap, bind, Except.bind] at h
    cases hl : m.map.get? s.getter_for_incoming
    case none => simp [hl] at h
    case some local_info =>
      have he : m.ends s.getter_for_incoming = some (local_info.polarity, local_info.peer) := by
        simp [PortInfoMap.ends, hl]
      simp only [hl] at h
      split at h
      case isTrue => simp [throw, throwThe, MonadExceptOf.throw] at h
      case isFalse hp =>
        refine ⟨s, local_info.polarity, local_info.peer, rfl, he, hp, ?_⟩
        cases h
        funext q
        rw [PortInfoMap.ends_or_insert, PortInfoMap.ends_extend_owned, PortInfoMap.ends_insert]
        by_cases hq : q = s.getter_for_incoming
        case pos =>
          subst hq
          simp only [Function.update_self, Ends.meet, he]
          have : ¬(s.getter_for_incoming = info.port ∧ Function.update m.ends s.getter_for_incoming
              (some (local_info.polarity, some info.port)) info.port = none) := by
            rintro ⟨h, h'⟩
            simp [← h] at h'
          simp [this]
        case neg =>
          have hf : [(s.getter_for_incoming, info)].find? (·.1 = q) = none := by simp [Ne.symm hq]
          simp only [Function.update_of_ne hq, Ends.meet, hf]
          by_cases hqi : q = info.port
          case neg => cases m.ends q <;> simp [hqi, Ne.symm hqi]
          case pos =>
            subst hqi
            cases h : m.ends info.port <;> simp [Function.update_of_ne hq, h]

-- Receiving one info after the other is the same as receiving them all at once.
theorem Ends.meet_cons {e : Ends} {l : PortId} {info : MyPortInfo}
    {tl : List (PortId × MyPortInfo)} (hn : l ∉ tl.map (·.1)) (hl : e l ≠ none)
    (htl : ∀ x ∈ tl, e x.1 ≠ none) : (e.meet [(l, info)]).meet tl = e.meet ((l, info) :: tl) := by
  funext p
  have hf : tl.find? (·.1 = l) = none := by
    simp only [List.find?_eq_none, decide_eq_true_eq]
    exact fun x hx he => hn (he ▸ List.mem_map_of_mem hx)
  by_cases hp : p = l
  case pos =>
    subst hp
    cases h : e p
    case none   => exact absurd h hl
    case some x => simp [meet, hf, h]
  case neg =>
    have hl' {tl : List (PortId × MyPortInfo)} :
        ((l, info) :: tl).find? (·.1 = p) = tl.find? (·.1 = p) := by simp [Ne.symm hp]
    cases hg : tl.find? (·.1 = p)
    case none =>
      by_cases hi : info.port = p <;> cases h : e p <;> simp [meet, hl', hg, h, hi]
    case some x =>
      have hx : x.1 = p := by simpa using List.find?_some hg
      have := htl x (List.mem_of_find?_eq_some hg)
      cases h : e p
      case none   => exact absurd (hx ▸ h) this
      case some y => simp [meet, hl', hg, h]

theorem pair_ports_ok {setups : List NetEndpointSetup} {received : ReceivedInfos}
    {m m' : PortInfoMap} (h : setup_endpoints_and_pair_ports setups received m = .ok m')
    (hn : ((met setups received).map (·.1)).Nodup)
    (hk : ∀ x ∈ met setups received, ∃ pol, m.ends x.1 = some (pol, none)) :
    m'.ends = m.ends.meet (met setups received) ∧
    ∀ x ∈ met setups received, ∃ pol, m.ends x.1 = some (pol, none) ∧ x.2.polarity ≠ pol := by
  unfold setup_endpoints_and_pair_ports at h
  induction received generalizing m with
  | nil =>
    cases h
    refine ⟨funext fun p => ?_, fun _ hm => by cases hm⟩
    cases h : m'.ends p <;> simp [met, Ends.meet, h]
  | cons hd tl ih =>
    obtain ⟨index, info⟩ := hd
    rw [List.foldlM_cons] at h
    cases h₁ : pair_port setups m (index, info)
    case error => simp [h₁, bind, Except.bind] at h
    case ok m₁ =>
      simp only [h₁, bind, Except.bind] at h
      obtain ⟨s, pol, peer, hs, hl, hpol, hends⟩ := pair_port_ok h₁
      have hmet : met setups ((index, info) :: tl) =
          (s.getter_for_incoming, info) :: met setups tl := by simp [met, hs]
      rw [hmet] at hn hk ⊢
      obtain ⟨hn, hn'⟩ := List.nodup_cons.mp hn
      obtain ⟨hk, hk'⟩ := List.forall_mem_cons.mp hk
      -- The other local ports do not notice what this one receives.
      have hkeep {x} (hx : x ∈ met setups tl) : m₁.ends x.1 = m.ends x.1 := by
        have hne : s.getter_for_incoming ≠ x.1 := fun he => hn (he ▸ List.mem_map.mpr ⟨x, hx, rfl⟩)
        obtain ⟨_, hx⟩ := hk' x hx
        simp [hends, Ends.meet, hne, hx]
      obtain ⟨ih, ih'⟩ := ih h hn' fun x hx => hkeep hx ▸ hk' x hx
      constructor
      case left =>
        rw [ih, hends]
        refine Ends.meet_cons hn (by simp [hl]) fun x hx => ?_
        obtain ⟨_, hx⟩ := hk' x hx
        simp [hx]
      case right =>
        refine List.forall_mem_cons.mpr ⟨?_, fun x hx => hkeep hx ▸ ih' x hx⟩
        obtain ⟨pol', hk⟩ := hk
        have hk : m.ends s.getter_for_incoming = some (pol', none) := hk
        cases hl.symm.trans hk
        exact ⟨pol, hl, hpol⟩

-- The part of a connector that decides which ports share a variable.
structure ChannelGraph where
  connector_id : ConnectorId
  ends         : Ends
  next_suffix  : Nat
  -- The ports that wait for a peer, until the channels are set up.
  waiting      : Option (List PortId)
  channels     : List (PortId × PortId)

namespace ChannelGraph

-- The `n`-th port that is created next.
def port (g : ChannelGraph) (n : Nat) : PortId :=
  ⟨g.connector_id, g.next_suffix + n⟩

-- The entries of the four ports of a mediator, as the source has them.
def mediate (g : ChannelGraph) : Ends :=
  let e := Function.update g.ends (g.port 1) (some (.putter, some (g.port 2)))
  let e := Function.update e (g.port 2) (some (.getter, some (g.port 2)))
  let e := Function.update e (g.port 3) (some (.putter, some (g.port 2)))
  Function.update e (g.port 0) (some (.getter, some (g.port 3)))

structure HonestInfos (g : ChannelGraph) (ports : List PortId) (met : List (PortId × MyPortInfo)) :
    Prop where
  complete   : (met.map (·.1)).Perm ports
  distinct   : (met.map (·.2.port)).Nodup
  polarities : ∀ x ∈ met, ∃ pol, g.ends x.1 = some (pol, none) ∧ x.2.polarity ≠ pol
  own        : ∀ {l info}, (l, info) ∈ met → info.port.connector_id = g.connector_id →
               (g.ends info.port).map (·.1) = some info.polarity ∧
               ∃ info', (info.port, info') ∈ met ∧ info'.port = l

-- The flag tells whether the step creates a mediator component.
inductive Step (g : ChannelGraph) : Bool → ChannelGraph → Prop
  | same : Step g false g
  | pair :
    Step g false { g with
      ends        := g.ends.pair (g.port 0) (g.port 1)
      next_suffix := g.next_suffix + 2
      channels    := (g.port 0, g.port 1) :: g.channels }
  | mediate :
    Step g true { g with
      ends        := g.mediate
      next_suffix := g.next_suffix + 4
      channels    := (g.port 1, g.port 2) :: (g.port 3, g.port 0) :: g.channels }
  | dangle {ports pol} :
    g.waiting = some ports →
    Step g false { g with
      ends        := g.ends.dangle (g.port 0) pol
      next_suffix := g.next_suffix + 1
      waiting     := some (ports ++ [g.port 0]) }
  | meet {ports met} :
    g.waiting = some ports →
    g.HonestInfos ports met →
    Step g false { g with
      ends     := g.ends.meet met
      waiting  := none
      channels := met.map channel_of ++ g.channels }

structure WellFormed (g : ChannelGraph) : Prop where
  fresh   : ∀ {p x}, g.ends p = some x → p.connector_id = g.connector_id →
            p.u32_suffix < g.next_suffix
  own     : g.waiting.isSome → ∀ {p x}, g.ends p = some x → p.connector_id = g.connector_id
  waiting : ∀ {ports}, g.waiting = some ports →
            ports.Nodup ∧ ∀ p ∈ ports, ∃ pol, g.ends p = some (pol, none)

structure Law (g : ChannelGraph) : Prop where
  paired   : g.ends.Paired
  channels : ∀ {p q}, (p, q) ∈ g.channels ↔ g.ends p = some (.putter, some q)

variable {g g' : ChannelGraph} {b : Bool} {p q : PortId} {pol : Polarity} {n m : Nat}

theorem port_inj : g.port n = g.port m ↔ n = m := by
  simp [port]

theorem WellFormed.port_fresh (h : g.WellFormed) : g.ends (g.port n) = none := by
  cases hp : g.ends (g.port n)
  case none   => rfl
  case some x => exact absurd (h.fresh hp rfl) (by simp [port])

theorem HonestInfos.honest {ports met} (hw : g.WellFormed) (hp : g.waiting = some ports)
    (h : g.HonestInfos ports met) : g.ends.Honest met where
  unconnected := h.polarities _
  locals      := h.complete.nodup_iff.mpr (hw.waiting hp).left
  peers       := h.distinct
  reciprocal  := by
    intro l info hm end_ he
    obtain ⟨hpol, hback⟩ := h.own hm (hw.own (hp ▸ rfl) he)
    rw [he] at hpol
    exact ⟨(Option.some.inj hpol).symm, hback⟩

theorem WellFormed.ne_port {x} (h : g.WellFormed) (hp : g.ends p = some x) : p ≠ g.port n :=
  fun he => nomatch (he ▸ hp).symm.trans h.port_fresh

-- A port keeps its peer, and it keeps its entry as long as channels are not set up.
theorem Step.keeps {end_} (hw : g.WellFormed) (h : g.Step b g') (hp : g.ends p = some end_)
    (hc : end_.2.isSome ∨ g'.waiting.isSome) : g'.ends p = some end_ := by
  have hne {n} : p ≠ g.port n := hw.ne_port hp
  cases h
  case same    => exact hp
  case pair    => simp [Ends.pair, hne, hp]
  case mediate => simp [ChannelGraph.mediate, hne, hp]
  case dangle  => simp [Ends.dangle, hne, hp]
  case meet h  =>
    refine Ends.Honest.meet_known (fun info hm => ?_) hp
    obtain ⟨_, hl, _⟩ := h.polarities _ hm
    cases hl.symm.trans hp
    cases hc <;> contradiction

theorem Step.known {x} (h : g.Step b g') (hp : g'.ends p = some x) :
    (∃ y, g.ends p = some y) ∨ (∃ n, p = g.port n ∧ g.next_suffix + n < g'.next_suffix) ∨
    (p.connector_id ≠ g.connector_id ∧ g'.waiting = none) := by
  cases h
  case same => exact .inl ⟨x, hp⟩
  case meet met hw h =>
    cases Ends.Honest.meet_cases hp
    case inl hm =>
      obtain ⟨_, hm⟩ := hm
      obtain ⟨_, hl, _⟩ := h.polarities _ hm
      exact .inl ⟨_, hl⟩
    case inr hm =>
      cases hm
      case inl hk => exact .inl ⟨x, hk.right⟩
      case inr hm =>
        obtain ⟨hn, l, info, hm, hpi⟩ := hm
        refine .inr <| .inr ⟨fun hc => ?_, rfl⟩
        have := (h.own hm (hpi ▸ hc)).left
        rw [hpi, hn] at this
        cases this
  case' pair    => simp only [Ends.pair, Function.update_apply] at hp
  case' mediate => simp only [ChannelGraph.mediate, Function.update_apply] at hp
  case' dangle  => simp only [Ends.dangle, Function.update_apply] at hp
  all_goals
    by_contra hn
    simp only [not_or, not_exists, not_and] at hn
    obtain ⟨hn, hport, _⟩ := hn
    split_ifs at hp <;> first | exact hn _ hp | exact hport _ ‹_› (by simp)

theorem WellFormed.step (hw : g.WellFormed) (h : g.Step b g') : g'.WellFormed := by
  have hc : g'.connector_id = g.connector_id := by cases h <;> rfl
  have hle : g.next_suffix ≤ g'.next_suffix := by cases h <;> simp
  refine ⟨fun {p x} hp hpc => ?_, fun hs {p x} hp => ?_, fun {ports} hs => ?_⟩
  · cases h.known hp
    case inl hp => exact hp.elim fun _ hp => Nat.lt_of_lt_of_le (hw.fresh hp (hc ▸ hpc)) hle
    case inr hp =>
      cases hp
      case inl hp => exact hp.elim fun _ hp => hp.left ▸ hp.right
      case inr hp => exact absurd (hpc.trans hc) hp.left
  · cases h.known hp
    case inl hp' =>
      obtain ⟨_, hp'⟩ := hp'
      have hs : g.waiting.isSome := by cases h <;> simp_all
      exact hc ▸ hw.own hs hp'
    case inr hp =>
      cases hp
      case inl hp => exact hp.elim fun _ hp => hp.left ▸ hc.symm
      case inr hp => exact absurd hs (by simp [hp.right])
  · have hkeep {ports'} (hs' : g.waiting = some ports') :
        ports'.Nodup ∧ ∀ p ∈ ports', ∃ pol, g'.ends p = some (pol, none) := by
      obtain ⟨hn, hp⟩ := hw.waiting hs'
      refine ⟨hn, fun p hm => ?_⟩
      obtain ⟨pol, hp⟩ := hp p hm
      exact ⟨pol, h.keeps hw hp (.inr (hs ▸ rfl))⟩
    cases h
    case same    => exact hkeep hs
    case pair    => exact hkeep hs
    case mediate => exact hkeep hs
    case meet    => cases hs
    case dangle ports' pol hs' =>
      cases hs
      obtain ⟨hn, hp⟩ := hkeep hs'
      have hport : g.port 0 ∉ ports' := by
        intro hm
        obtain ⟨_, hp⟩ := (hw.waiting hs').right _ hm
        exact hw.ne_port hp rfl
      refine ⟨List.nodup_append.mpr ⟨hn, by simp, ?_⟩, fun p hm => ?_⟩
      · intro p hm q hq
        cases List.mem_singleton.mp hq
        exact fun he => hport (he ▸ hm)
      · cases List.mem_append.mp hm
        case inl hm => exact hp p hm
        case inr hm =>
          cases List.mem_singleton.mp hm
          exact ⟨pol, by simp [Ends.dangle]⟩

theorem Law.step (hw : g.WellFormed) (hl : g.Law) (h : g.Step false g') : g'.Law := by
  have hkeep {p q} (hm : (p, q) ∈ g.channels) : g'.ends p = some (.putter, some q) :=
    h.keeps hw (hl.channels.mp hm) (.inl rfl)
  cases h
  case same => exact hl
  case pair =>
    have hp {n} : g.ends (g.port n) = none := hw.port_fresh
    have hpaired := hl.paired.pair hp hp (port_inj.not.mpr Nat.zero_ne_one)
    refine ⟨hpaired, fun {p q} => ⟨fun hm => ?_, fun he => ?_⟩⟩
    · cases List.mem_cons.mp hm
      case inl he => cases he; simp [Ends.pair, port]
      case inr hm => exact hkeep hm
    · simp only [Ends.pair, Function.update_apply] at he
      split_ifs at he with h₁ h₂
      · cases he
      · cases he; exact h₂ ▸ .head _
      · exact .tail _ (hl.channels.mpr he)
  case dangle pol _ =>
    refine ⟨hl.paired.dangle hw.port_fresh, fun {p q} => ⟨hkeep, fun he => ?_⟩⟩
    simp only [Ends.dangle, Function.update_apply] at he
    split_ifs at he
    · cases he
    · exact hl.channels.mpr he
  case meet ports met hs h =>
    have hh := h.honest hw hs
    have hpaired := hh.paired hl.paired
    refine ⟨hpaired, fun {p q} => ⟨fun hm => ?_, fun he => ?_⟩⟩
    · cases List.mem_append.mp hm
      case inr hm => exact hkeep hm
      case inl hm =>
        obtain ⟨⟨l, info⟩, hm, hc⟩ := List.mem_map.mp hm
        obtain ⟨pol, _, hpol, hl⟩ := hh.meet_local hm
        have hback := hpaired.symm hl
        cases hi : info.polarity <;> simp only [channel_of, hi, Prod.mk.injEq] at hc
        case putter =>
          obtain ⟨hp, hq⟩ := hc
          subst hp hq
          exact hback.trans (by rw [← hpol, hi])
        case getter =>
          obtain ⟨hp, hq⟩ := hc
          subst hp hq
          have : pol = .putter := by rw [← @Polarity.not_not pol, ← hpol, hi]; rfl
          exact this ▸ hl
    · refine List.mem_append.mpr ?_
      cases Ends.Honest.meet_cases he
      case inl hm =>
        obtain ⟨info, hm⟩ := hm
        obtain ⟨pol, _, hpol, hl⟩ := hh.meet_local hm
        cases hl.symm.trans he
        exact .inl <| List.mem_map.mpr ⟨_, hm, by simp [channel_of, hpol, Polarity.not]⟩
      case inr hm =>
        cases hm
        case inl hk => exact .inr <| hl.channels.mpr hk.right
        case inr hm =>
          obtain ⟨hn, l, info, hx, hpi⟩ := hm
          subst hpi
          have hi := (hh.meet_peer hx hn).symm.trans he
          simp only [Option.some.injEq, Prod.mk.injEq] at hi
          exact .inl <| List.mem_map.mpr ⟨_, hx, by simp [channel_of, hi]⟩

-- A mediator has a port that is its own peer, so the law is lost when one is created ...
theorem Step.self_peer (h : g.Step true g') :
    ∃ p pol, g'.ends p = some (pol, some p) := by
  cases h
  exact ⟨g.port 2, .getter, by simp [ChannelGraph.mediate, port]⟩

end ChannelGraph

namespace ChannelState

def waiting : ConnectorPhased → Option (List PortId)
  | .setup setup     => some <| setup.net_endpoint_setups.map (·.getter_for_incoming)
  | .communication _ => none

def graph (s : ChannelState S) : ChannelGraph where
  connector_id := s.connector.unphased.ips.id_manager.connector_id
  ends         := s.connector.unphased.ips.port_info.ends
  next_suffix  := s.connector.unphased.ips.id_manager.port_suffix_stream.next_suffix
  waiting      := waiting s.connector.phased
  channels     := s.channels

end ChannelState

theorem IdAndPortState.new_port_pair_eq_some {ips ips' : IdAndPortState} {owner : ComponentId}
    {o i : PortId} (h : ips.new_port_pair owner = some (ips', o, i)) :
    o = ⟨ips.id_manager.connector_id, ips.id_manager.port_suffix_stream.next_suffix⟩ ∧
    i = ⟨ips.id_manager.connector_id, ips.id_manager.port_suffix_stream.next_suffix + 1⟩ ∧
    ips'.port_info.ends = ips.port_info.ends.pair o i ∧
    ips'.id_manager.connector_id = ips.id_manager.connector_id ∧
    ips'.id_manager.port_suffix_stream.next_suffix =
      ips.id_manager.port_suffix_stream.next_suffix + 2 := by
  simp only [new_port_pair, Option.bind_eq_bind, Option.bind_eq_some_iff, Option.pure_def,
    Option.some.injEq, Prod.mk.injEq] at h
  obtain ⟨_, h₁, _, h₂, hips, ho, hi⟩ := h
  obtain ⟨hp₁, hc₁, hs₁⟩ := IdManager.new_port_id_eq_some h₁
  obtain ⟨hp₂, hc₂, hs₂⟩ := IdManager.new_port_id_eq_some h₂
  subst ho hi hips
  refine ⟨hp₁, by rw [hp₂, hc₁, hs₁], ?_, hc₂.trans hc₁, by rw [hs₂, hs₁]⟩
  rw [PortInfoMap.ends_extend_owned, PortInfoMap.ends_insert, PortInfoMap.ends_insert]
  rfl

theorem IdManager.new_udp_mediator_ports_eq_some {m m' : IdManager} {ports : UdpMediatorPorts}
    (h : m.new_udp_mediator_ports = some (ports, m')) :
    ports = ⟨⟨m.connector_id, m.port_suffix_stream.next_suffix⟩,
      ⟨m.connector_id, m.port_suffix_stream.next_suffix + 1⟩,
      ⟨m.connector_id, m.port_suffix_stream.next_suffix + 2⟩,
      ⟨m.connector_id, m.port_suffix_stream.next_suffix + 3⟩⟩ ∧
    m'.connector_id = m.connector_id ∧
    m'.port_suffix_stream.next_suffix = m.port_suffix_stream.next_suffix + 4 := by
  simp only [new_udp_mediator_ports, Option.bind_eq_bind, Option.bind_eq_some_iff, Option.pure_def,
    Option.some.injEq, Prod.mk.injEq] at h
  obtain ⟨_, h₁, _, h₂, _, h₃, _, h₄, hp, hm⟩ := h
  obtain ⟨hp₁, hc₁, hs₁⟩ := new_port_id_eq_some h₁
  obtain ⟨hp₂, hc₂, hs₂⟩ := new_port_id_eq_some h₂
  obtain ⟨hp₃, hc₃, hs₃⟩ := new_port_id_eq_some h₃
  obtain ⟨hp₄, hc₄, hs₄⟩ := new_port_id_eq_some h₄
  subst hp hm
  simp only [hp₁, hp₂, hp₃, hp₄, hc₁, hc₂, hc₃, hc₄, hs₁, hs₂, hs₃, hs₄, and_self]

theorem IdManager.new_component_id_eq_some {m m' : IdManager} {cid : ComponentId}
    (h : m.new_component_id = some (cid, m')) :
    m'.connector_id = m.connector_id ∧ m'.port_suffix_stream = m.port_suffix_stream := by
  simp only [new_component_id, Option.bind_eq_bind, Option.bind_eq_some_iff, Option.pure_def,
    Option.some.injEq, Prod.mk.injEq] at h
  obtain ⟨_, _, _, hm⟩ := h
  subst hm
  exact ⟨rfl, rfl⟩

namespace PortStep

variable {pd : ProtocolDescription S} {s s' : ChannelState S} {a : PortAction}

def mediates : PortAction → Bool
  | .newUdpMediatorComponent => true
  | _                        => false

-- Every call of the source acts on the graph of channels in one of the five ways.
theorem graph_step (hw : s.graph.WellFormed) (h : PortStep pd s a s') :
    s.graph.Step (mediates a) s'.graph := by
  cases h
  case newPortPair c c' cs o i h =>
    simp only [Connector.new_port_pair, Option.bind_eq_bind, Option.bind_eq_some_iff,
      Option.pure_def, Option.some.injEq, Prod.mk.injEq] at h
    obtain ⟨_, h, hc, ho, hi⟩ := h
    obtain ⟨ho', hi', hends, hcid, hnext⟩ := IdAndPortState.new_port_pair_eq_some h
    subst hc
    simp only [ChannelState.graph, ← ho, ← hi, ho', hi', hends, hcid, hnext]
    exact .pair
  case nonsyncNewPortPair c cs ips cid o i h =>
    obtain ⟨ho', hi', hends, hcid, hnext⟩ := IdAndPortState.new_port_pair_eq_some h
    simp only [ChannelState.graph, ho', hi', hends, hcid, hnext]
    exact .pair
  case nonsyncNewComponent c cs ips cid new_cid moved_ports h =>
    simp only [NonsyncProtoContext.new_component, Option.bind_eq_bind, Option.bind_eq_some_iff,
      Option.pure_def, Option.some.injEq, Prod.mk.injEq] at h
    obtain ⟨_, _, _, h, hips, _⟩ := h
    obtain ⟨hcid, hnext⟩ := IdManager.new_component_id_eq_some h
    subst hips
    simp only [ChannelState.graph, PortInfoMap.ends_move_ports, hcid, hnext]
    exact .same
  case newUdpMediatorComponent c c' cs nin nout uin uout ids hids h =>
    unfold Connector.new_udp_mediator_component at h
    cases hc : c.phased
    case communication => simp [hc] at h
    case setup setup =>
      simp only [hc, Result.bind_eq_ok, Result.unwrap_eq_ok, Result.pure_eq_ok, Prod.mk.injEq] at h
      obtain ⟨_, hcomp, _, hports, hc', _⟩ := h
      obtain ⟨hcid, hnext⟩ := IdManager.new_component_id_eq_some hcomp
      obtain ⟨hp, hcid', hnext'⟩ := IdManager.new_udp_mediator_ports_eq_some hports
      obtain ⟨hp'', _⟩ := IdManager.new_udp_mediator_ports_eq_some hids
      simp only [UdpMediatorPorts.mk.injEq] at hp''
      obtain ⟨hnin, hnout, huin, huout⟩ := hp''
      subst hc' hnin hnout huin huout
      simp only [ChannelState.graph, PortInfoMap.extend_owned_map, PortInfoMap.ends_insert, hp,
        hcid, hnext, hcid', hnext', ChannelState.waiting, hc]
      exact .mediate
  case newNetPort c c' cs polarity p h =>
    unfold Connector.new_net_port at h
    cases hc : c.phased
    case communication => simp [hc] at h
    case setup setup =>
      simp only [hc, Result.bind_eq_ok, Result.unwrap_eq_ok, Result.pure_eq_ok, Prod.mk.injEq] at h
      obtain ⟨_, h, hc', _⟩ := h
      obtain ⟨hp, hcid, hnext⟩ := IdManager.new_port_id_eq_some h
      subst hc'
      simp only [ChannelState.graph, PortInfoMap.ends_extend_owned, PortInfoMap.ends_insert, hp,
        hcid, hnext, ChannelState.waiting, hc, List.map_append, List.map_cons, List.map_nil]
      exact .dangle rfl
  case connect c c' cs received neighborhood delayed undelayed setup hc hh h =>
    simp only [Connector.connect, hc, Result.bind_eq_ok, Result.pure_eq_ok] at h
    obtain ⟨port_info, hpair, hc'⟩ := h
    subst hc'
    have hwait : (ChannelState.graph ⟨c, cs⟩).waiting =
        some (setup.net_endpoint_setups.map (·.getter_for_incoming)) := by
      simp [ChannelState.graph, ChannelState.waiting, hc]
    obtain ⟨hn, hk⟩ := hw.waiting hwait
    have hlocals := met_locals hh.complete
    obtain ⟨hends, hpol⟩ := pair_ports_ok hpair (hlocals.nodup_iff.mpr hn)
      fun x hx => hk x.1 <| hlocals.mem_iff.mp <| List.mem_map_of_mem hx
    have := ChannelGraph.Step.meet hwait {
      complete   := hlocals
      distinct   := met_peers hh.distinct
      polarities := hpol
      own        := by
        intro l info hm hcid
        obtain ⟨index, hm, hl⟩ := mem_met.mp hm
        obtain ⟨hp, index', info', hm', hl', hback⟩ := hh.own hm hcid
        refine ⟨?_, info', mem_met.mpr ⟨index', hm', hl'⟩, ?_⟩
        · simpa [ChannelState.graph, PortInfoMap.ends, Function.comp_def] using hp
        · exact Option.some.inj (hback.symm.trans hl)
    }
    simpa [ChannelState.graph, ChannelState.waiting, hends, mediates] using this
  case addComponent c c' cs module_name identifier ports h =>
    unfold Connector.add_component at h
    simp only [Result.bind_eq_ok, Result.unwrap_eq_ok, Result.pure_eq_ok] at h
    obtain ⟨_, _, _, h, hc'⟩ := h
    obtain ⟨hcid, hnext⟩ := IdManager.new_component_id_eq_some h
    subst hc'
    have hw : ChannelState.waiting (Connector.drop_moved_ports ports c.phased) =
        ChannelState.waiting c.phased := by cases c.phased <;> rfl
    simp only [ChannelState.graph, PortInfoMap.ends_move_ports, hcid, hnext, hw]
    exact .same

end PortStep

section

variable {pd : ProtocolDescription S} {s : ChannelState S} {as : List PortAction}

theorem ChannelGraph.Law.channel_law (h : s.graph.Law) :
    ChannelLaw s.connector.unphased.ips.port_info s.channels where
  same_var := by
    intro p q info_p info_q hp hq hpp hqp hne
    obtain ⟨p', hp'⟩ := Option.isSome_iff_exists.mp hpp
    obtain ⟨q', hq'⟩ := Option.isSome_iff_exists.mp hqp
    have hp : s.graph.ends p = some (info_p.polarity, some p') :=
      PortInfoMap.ends_eq_some.mpr ⟨info_p, hp, rfl, hp'⟩
    have hq : s.graph.ends q = some (info_q.polarity, some q') :=
      PortInfoMap.ends_eq_some.mpr ⟨info_q, hq, rfl, hq'⟩
    rw [PortInfoMap.spec_var_for_eq, PortInfoMap.spec_var_for_eq]
    refine (h.paired.var_eq_iff hp hq hne).trans ⟨fun he => ?_, fun hm => ?_⟩
    · have hback := h.paired.symm hp
      rw [he] at hp hback
      cases hpol : info_p.polarity <;> rw [hpol] at hp hback
      case putter => exact .inl (h.channels.mpr hp)
      case getter => exact .inr (h.channels.mpr hback)
    · cases hm
      case inl hm =>
        have := (h.channels.mp hm).symm.trans hp
        simp_all
      case inr hm =>
        have := (h.paired.symm (h.channels.mp hm)).symm.trans hp
        simp_all
  paired := by
    intro p info_p q hp hpq
    have hp := PortInfoMap.ends_eq_some.mpr ⟨info_p, hp, rfl, hpq⟩
    obtain ⟨info_q, hq, hpol, hpeer⟩ := PortInfoMap.ends_eq_some.mp (h.paired.symm hp)
    exact ⟨info_q, hq, hpeer, hpol⟩

theorem ChannelLaw.not_self_peer {m : PortInfoMap} {channels : List (PortId × PortId)} {p : PortId}
    {pol : Polarity} (h : ChannelLaw m channels) : m.ends p ≠ some (pol, some p) := by
  intro hp
  obtain ⟨info, hi, _, hpeer⟩ := PortInfoMap.ends_eq_some.mp hp
  obtain ⟨info', hi', _, hpol⟩ := h.paired hi hpeer
  cases hi.symm.trans hi'
  exact Polarity.not_ne hpol.symm

theorem graph_init (h : (portSystem pd).Init s) : s.graph.WellFormed ∧ s.graph.Law := by
  obtain ⟨⟨connector_id, hc⟩, hs⟩ := h
  simp only [Connector.new, Option.bind_eq_bind, Option.bind_eq_some_iff, Option.pure_def,
    Option.some.injEq] at hc
  obtain ⟨_, _, hc⟩ := hc
  have hends : s.graph.ends = fun _ => none := by
    funext p
    simp only [ChannelState.graph, ← hc]
    rfl
  have hwait : s.graph.waiting = some [] := by
    simp only [ChannelState.graph, ← hc]
    rfl
  have hchan : s.graph.channels = [] := hs
  constructor
  · refine ⟨?_, ?_, ?_⟩ <;> simp [hends, hwait]
  · refine ⟨⟨?_⟩, ?_⟩ <;> simp [hends, hchan]

theorem graph_run (h : (portSystem pd).Run as s) : s.graph.WellFormed ∧
    (.newUdpMediatorComponent ∉ as → s.graph.Law) ∧
    (.newUdpMediatorComponent ∈ as → ∃ p pol, s.graph.ends p = some (pol, some p)) := by
  induction h with
  | init h =>
    obtain ⟨hw, hl⟩ := graph_init h
    exact ⟨hw, fun _ => hl, nofun⟩
  | @step as s a s' _ hs ih =>
    obtain ⟨hw, hl, hself⟩ := ih
    have hg := PortStep.graph_step hw hs
    have hkeep (hm : .newUdpMediatorComponent ∈ as) :
        ∃ p pol, s'.graph.ends p = some (pol, some p) := by
      obtain ⟨p, pol, hp⟩ := hself hm
      exact ⟨p, pol, hg.keeps hw hp (.inl rfl)⟩
    refine ⟨hw.step hg, fun hm => ?_, fun hm => ?_⟩
    · obtain ⟨hm, ha⟩ := not_or.mp (List.mem_append.not.mp hm)
      have hb : PortStep.mediates a = false := by
        cases a <;> first | rfl | exact absurd (List.mem_singleton.mpr rfl) ha
      exact (hl hm).step hw (hb ▸ hg)
    · cases List.mem_append.mp hm
      case inl hm => exact hkeep hm
      case inr hm =>
        cases List.mem_singleton.mp hm
        exact hg.self_peer

-- The law holds in exactly those states that are reached without creating a mediator component.
theorem channel_law_iff (h : (portSystem pd).Run as s) :
    ChannelLaw s.connector.unphased.ips.port_info s.channels ↔
    .newUdpMediatorComponent ∉ as := by
  obtain ⟨_, hl, hself⟩ := graph_run h
  refine ⟨fun hlaw hm => ?_, fun hm => (hl hm).channel_law⟩
  obtain ⟨p, pol, hp⟩ := hself hm
  exact hlaw.not_self_peer hp

-- A protocol without components.
def emptyProtocol : ProtocolDescription Unit where
  sync _                   := .inconsistent
  nonsync _                := .exit
  component_polarities _ _ := .error .noSuchComponent
  new_component _ _ _      := ()

theorem channel_law_iff_net_channel : ∃ s : ChannelState Unit,
    (portSystem emptyProtocol).Run [.newPortPair, .newNetPort .putter,
      .connect [(0, ⟨.getter, ⟨1, 0⟩, ⟨1, 0⟩⟩)] ⟨none, [0]⟩ [] []] s ∧
    ChannelLaw s.connector.unphased.ips.port_info s.channels := by
  have hinit : (portSystem emptyProtocol).Init ⟨_, []⟩ := ⟨⟨0, rfl⟩, rfl⟩
  have hpair := (TransitionSystem.Run.init hinit).step (PortStep.newPortPair rfl)
  have hnet := hpair.step <|
    show PortStep emptyProtocol _ (.newNetPort .putter) _ from .newNetPort rfl
  have hconnect := hnet.step <|
    show PortStep emptyProtocol _ (.connect [(0, ⟨.getter, ⟨1, 0⟩, ⟨1, 0⟩⟩)] ⟨none, [0]⟩ [] []) _ from
      .connect rfl {
        complete := .refl _
        distinct := by decide
        own      := fun hm he => by cases List.mem_singleton.mp hm; cases he
      } rfl
  exact ⟨_, hconnect, (channel_law_iff hconnect).mpr (by simp)⟩

theorem channel_law_udp_mediator : ∃ s : ChannelState Unit,
    (portSystem emptyProtocol).Run [.newUdpMediatorComponent] s ∧
    ¬ChannelLaw s.connector.unphased.ips.port_info s.channels := by
  have hinit : (portSystem emptyProtocol).Init ⟨_, []⟩ := ⟨⟨0, rfl⟩, rfl⟩
  have hudp := (TransitionSystem.Run.init hinit).step (PortStep.newUdpMediatorComponent rfl rfl)
  exact ⟨_, hudp, fun h => h.not_self_peer (show _ = some (.getter, some ⟨0, 2⟩) from rfl)⟩

end
end Reowolf
