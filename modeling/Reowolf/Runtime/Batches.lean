import Reowolf.Runtime.Freshness
import Reowolf.Runtime.Ownership
import Reowolf.Runtime.Session

namespace Reowolf

variable {S : Type}

-- The infos that are received tell the owners of the ports that they describe. The components of
-- other connectors have other ids.
structure HonestOwners (ips : IdAndPortState) (received : ReceivedInfos) : Prop where
  own   : ∀ {index info}, (index, info) ∈ received →
          info.port.connector_id = ips.id_manager.connector_id →
          ips.port_info.owner info.port = some info.owner
  other : ∀ {index info}, (index, info) ∈ received →
          info.port.connector_id ≠ ips.id_manager.connector_id →
          info.owner.connector_id ≠ ips.id_manager.connector_id

-- Without net endpoints there is nothing to tell.
theorem HonestInfos.nil {ips : IdAndPortState} : HonestInfos ips [] [] :=
  ⟨.refl _, .nil, nofun⟩

theorem HonestOwners.nil {ips : IdAndPortState} : HonestOwners ips [] :=
  ⟨nofun, nofun⟩

namespace Connector

-- The component is one of the connector's.
def HasComponent (c : Connector S) (cid : ComponentId) : Prop :=
  ∃ state, c.unphased.proto_components.get? cid = some state

def Allotted (c : Connector S) : Prop :=
  c.unphased.ips.Allotted c.unphased.native_component_id c.HasComponent

def Known (c : Connector S) : Prop :=
  c.unphased.ips.Known (ChannelState.waiting c.phased)

variable {pd : ProtocolDescription S} {c c' : Connector S} {o i p : PortId} {pol : Polarity}
variable {module_name identifier : List UInt8} {ports : List PortId} {setup : ConnectorSetup}
variable {cu cu' : ConnectorUnphased S}

theorem Known.step {a : PortAction} {cs : List (PortId × PortId)} (h : c.Known)
    (hs : PortStep pd ⟨c, []⟩ a ⟨c', cs⟩) : c'.Known :=
  @IdAndPortState.Known.step _ _ ⟨c, []⟩ _ _ h hs

theorem new_port_pair_cases (h : c.new_port_pair = some (c', o, i)) : ∃ ips,
    c.unphased.ips.new_port_pair c.unphased.native_component_id = some (ips, o, i) ∧
    c' = { c with unphased := { c.unphased with ips := ips } } := by
  simp only [new_port_pair, Option.bind_eq_bind, Option.bind_eq_some_iff, Option.pure_def,
    Option.some.injEq, Prod.mk.injEq] at h
  obtain ⟨⟨ips, _, _⟩, hp, hc, ho, hi⟩ := h
  subst ho hi
  exact ⟨ips, hp, hc.symm⟩

theorem Allotted.new_port_pair (h : c.Allotted) (hp : c.new_port_pair = some (c', o, i)) :
    c'.Allotted := by
  obtain ⟨_, hpair, hc⟩ := new_port_pair_cases hp
  subst hc
  exact IdAndPortState.Allotted.new_port_pair h h.native hpair

theorem check_moved_port_cases {u : Unit} (h : check_moved_port cu (pol, p) = .ok u) :
    cu.ips.port_info.owner p = some cu.native_component_id := by
  simp only [check_moved_port] at h
  split at h
  case h_1 => cases h
  case h_2 info hi =>
    split at h
    case isTrue => cases h
    case isFalse ho => exact PortInfoMap.owner_eq_some.mpr ⟨info, hi, not_not.mp ho⟩

-- The ports that are given to a new component are the native's.
theorem check_component_cases (h : check_component pd cu module_name identifier ports = .ok ()) :
    ∀ p ∈ ports, cu.ips.port_info.owner p = some cu.native_component_id := by
  unfold check_component at h
  split at h
  case h_1 => cases h
  case h_2 =>
    split at h
    case h_1 => cases h
    case h_2 polarities _ =>
      split at h
      case isTrue => cases h
      case isFalse hl =>
        have hl := not_not.mp hl
        clear * - h hl
        induction ports generalizing polarities with
        | nil => nofun
        | cons port ports ih =>
          match polarities, hl with
          | polarity :: polarities, hl =>
            obtain ⟨_, hp, h⟩ := Result.bind_eq_ok.mp h
            exact List.forall_mem_cons.mpr
              ⟨check_moved_port_cases hp, ih polarities h (Nat.succ.inj hl)⟩

theorem add_component_cases (h : c.add_component pd module_name identifier ports = .ok c') :
    check_component pd c.unphased module_name identifier ports = .ok () ∧ ∃ new_cid ids,
    c.unphased.ips.id_manager.new_component_id = some (new_cid, ids) ∧
    c' = {
      unphased := { c.unphased with
        proto_components := c.unphased.proto_components.insert new_cid
          (pd.new_component module_name identifier ports)
        ips := ⟨c.unphased.ips.port_info.move_ports ports c.unphased.native_component_id new_cid, ids⟩ }
      phased := drop_moved_ports ports c.phased } := by
  simp only [add_component, Result.bind_eq_ok, Result.unwrap_eq_ok, Result.pure_eq_ok] at h
  obtain ⟨_, hc, ⟨new_cid, ids⟩, hid, h⟩ := h
  exact ⟨hc, new_cid, ids, hid, h.symm⟩

theorem Allotted.add_component (h : c.Allotted)
    (ha : c.add_component pd module_name identifier ports = .ok c') : c'.Allotted := by
  obtain ⟨hc, new_cid, ids, hid, hc'⟩ := add_component_cases ha
  subst hc'
  refine IdAndPortState.Allotted.mono
    (IdAndPortState.Allotted.move_ports h hid (check_component_cases hc)) fun cid hcid => ?_
  simp only [HasComponent, HashMap.get?_insert] at hcid
  split at hcid
  case isTrue he => exact .inr he
  case isFalse   => exact .inl hcid

-- A new connector has no ports.
theorem new_kept (pd : ProtocolDescription S) {connector_id : ConnectorId} (hc : new connector_id = some c) :
    c.Allotted ∧ c.Known := by
  obtain ⟨hw, _⟩ := @graph_init S pd ⟨c, []⟩ ⟨⟨_, hc⟩, rfl⟩
  simp only [new, Option.bind_eq_bind, Option.bind_eq_some_iff, Option.pure_def,
    Option.some.injEq] at hc
  obtain ⟨⟨native, ids⟩, hid, hc⟩ := hc
  have hi := IdManager.issued_new_component_id hid
  subst hc
  refine ⟨⟨fun _ _ => ⟨?_, ?_⟩, ?_, ?_, hi, ?_⟩, ⟨hw.fresh, hw.own, hw.waiting⟩, ⟨?_⟩⟩
  case refine_5 => exact fun h => by cases h.choose_spec
  all_goals intros; contradiction

theorem Allotted.new_udp_mediator_component (h : c.Allotted)
    (hm : c.new_udp_mediator_component = .ok (c', o, i)) : c'.Allotted := by
  unfold Connector.new_udp_mediator_component at hm
  cases hc : c.phased
  case communication => simp [hc] at hm
  case setup setup =>
    simp only [hc, Result.bind_eq_ok, Result.unwrap_eq_ok, Result.pure_eq_ok, Prod.mk.injEq] at hm
    obtain ⟨⟨udp_cid, ids⟩, hid, ⟨⟨nin, nout, uin, uout⟩, ids'⟩, hports, hc', _⟩ := hm
    obtain ⟨hdistinct, _⟩ := IdManager.new_udp_mediator_ports_eq_some hports
    simp only [UdpMediatorPorts.mk.injEq] at hdistinct
    obtain ⟨hnin, hnout, huin, huout⟩ := hdistinct
    subst hc'
    refine IdAndPortState.Allotted.new_udp_mediator h hid hports fun p => ?_
    have h₁ : nin ≠ uin ∧ nin ≠ uout := by simp [hnin, huin, huout]
    have h₂ : nout ≠ uin ∧ nout ≠ uout := by simp [hnout, huin, huout]
    simp only [PortInfoMap.extend_owned_map, HashMap.get?_insert, PortInfoMap.owner]
    clear * - h₁ h₂
    grind

theorem Known.new_udp_mediator_component (pd : ProtocolDescription S) (h : c.Known)
    (hm : c.new_udp_mediator_component = .ok (c', o, i)) : c'.Known := by
  have hm' := hm
  unfold Connector.new_udp_mediator_component at hm'
  cases hc : c.phased
  case communication => simp [hc] at hm'
  case setup setup =>
    simp only [hc, Result.bind_eq_ok, Result.unwrap_eq_ok, Result.pure_eq_ok, Prod.mk.injEq] at hm'
    obtain ⟨_, hid, ⟨⟨nin, nout, uin, uout⟩, _⟩, hports, _, ho, hi⟩ := hm'
    obtain ⟨_, hports⟩ := IdManager.new_udp_mediator_ports_of hid hports
    subst ho hi
    exact @Known.step _ pd _ _ _ _ h (.newUdpMediatorComponent hports hm)

theorem Allotted.new_net_port (h : c.Allotted) (hn : c.new_net_port pol = .ok (c', p)) :
    c'.Allotted := by
  unfold Connector.new_net_port at hn
  cases hc : c.phased
  case communication => simp [hc] at hn
  case setup setup =>
    simp only [hc, Result.bind_eq_ok, Result.unwrap_eq_ok, Result.pure_eq_ok, Prod.mk.injEq] at hn
    obtain ⟨⟨_, ids⟩, hid, hc', _⟩ := hn
    subst hc'
    exact (IdAndPortState.Allotted.add_port h ⟨c.unphased.native_component_id, none, pol,
      .localComponent⟩ h.native hid).left

-- The communication phase, as it begins.
def connected (setup : ConnectorSetup) (neighborhood : Neighborhood)
    (delayed undelayed : List (Nat × Msg)) : ConnectorCommunication where
  round_index      := 0
  endpoint_manager := {
    delayed_messages   := delayed
    undelayed_messages := undelayed
    net_endpoint_store := setup.net_endpoint_setups.map fun s => ⟨s.getter_for_incoming⟩
    udp_endpoint_store := setup.udp_endpoint_setups.map fun s => ⟨false, ∅, s.getter_for_incoming⟩
  }
  neighborhood     := neighborhood
  native_batches   := [∅]
  round_result     := .ok none

theorem connect_cases {received : ReceivedInfos} {neighborhood : Neighborhood}
    {delayed undelayed : List (Nat × Msg)} (hc : c.phased = .setup setup)
    (h : c.connect received neighborhood delayed undelayed = .ok c') : ∃ port_info,
    setup_endpoints_and_pair_ports setup.net_endpoint_setups received c.unphased.ips.port_info =
      .ok port_info ∧
    c' = ⟨{ c.unphased with ips := { c.unphased.ips with port_info := port_info } },
      .communication (connected setup neighborhood delayed undelayed)⟩ := by
  simp only [Connector.connect, hc, Result.bind_eq_ok, Result.pure_eq_ok] at h
  obtain ⟨port_info, hpair, hc'⟩ := h
  exact ⟨port_info, hpair, hc'.symm⟩

-- Before the channels are set up all ports are the connector's own.
theorem Known.own (hk : c.Known) (hc : c.phased = .setup setup) {owner : ComponentId}
    (hp : c.unphased.ips.port_info.owner p = some owner) :
    p.connector_id = c.unphased.ips.id_manager.connector_id := by
  obtain ⟨info, hi, _⟩ := PortInfoMap.owner_eq_some.mp hp
  refine hk.well_formed.own ?_ (PortInfoMap.ends_eq_some.mpr ⟨info, hi, rfl, rfl⟩)
  simp [IdAndPortState.graph, ChannelState.waiting, hc]

theorem Allotted.connect {received : ReceivedInfos} {neighborhood : Neighborhood}
    {delayed undelayed : List (Nat × Msg)} (h : c.Allotted) (hk : c.Known)
    (hc : c.phased = .setup setup)
    (hi : HonestInfos c.unphased.ips setup.net_endpoint_setups received)
    (ho : HonestOwners c.unphased.ips received)
    (h' : c.connect received neighborhood delayed undelayed = .ok c') : c'.Allotted := by
  obtain ⟨port_info, hpair, hc'⟩ := connect_cases hc h'
  subst hc'
  have hown : ∀ x ∈ received, c.unphased.ips.port_info.owner x.2.port = none ∨
      c.unphased.ips.port_info.owner x.2.port = some x.2.owner := by
    intro (index, info) hx
    by_cases hcid : info.port.connector_id = c.unphased.ips.id_manager.connector_id
    case pos => exact .inr (ho.own hx hcid)
    case neg =>
      cases hp : c.unphased.ips.port_info.owner info.port
      case none   => exact .inl rfl
      case some o => exact absurd (hk.own hc hp) hcid
  obtain ⟨hcons, howners⟩ := PortInfoMap.pair_ports_owner hpair h.consistent hi.distinct hown
  -- a port that becomes known is another connector's, and so is its owner
  have hnew {p o} (hp : c.unphased.ips.port_info.owner p = none) (x : Nat × MyPortInfo)
      (hx : x ∈ received) (hxp : x.2.port = p) (hxo : x.2.owner = o) :
      p.connector_id ≠ c.unphased.ips.id_manager.connector_id ∧
      o.connector_id ≠ c.unphased.ips.id_manager.connector_id := by
    have hne : x.2.port.connector_id ≠ c.unphased.ips.id_manager.connector_id := by
      intro he
      have := ho.own hx he
      rw [hxp, hp] at this
      cases this
    exact ⟨hxp ▸ hne, hxo ▸ ho.other hx hne⟩
  constructor
  case consistent => exact hcons
  case native     => exact h.native
  case live       => exact h.live
  case ports =>
    intro p o hp hcid
    cases howners p o hp
    case inl hp => exact h.ports hp hcid
    case inr hp =>
      obtain ⟨hn, x, hx, hxp, hxo⟩ := hp
      exact absurd hcid (hnew hn x hx hxp hxo).left
  case owners =>
    intro p o hp hcid
    cases howners p o hp
    case inl hp => exact h.owners hp hcid
    case inr hp =>
      obtain ⟨hn, x, hx, hxp, hxo⟩ := hp
      exact absurd hcid (hnew hn x hx hxp hxo).right

-- The port operations of the native's batches are on ports of the native, with the right polarity.
structure Batches (cu : ConnectorUnphased S) (batches : List NativeBatch) : Prop where
  nonempty : batches ≠ []
  puts     : ∀ {batch}, batch ∈ batches → ∀ {p}, p ∈ Finmap.keys batch.to_put → NativePort cu p .putter
  gets     : ∀ {batch}, batch ∈ batches → ∀ {p}, p ∈ batch.to_get → NativePort cu p .getter

variable {bs : List NativeBatch} {batch batch' : NativeBatch}

namespace Batches

theorem empty : Batches cu [∅] where
  nonempty := nofun
  puts hb  := by
    cases List.mem_singleton.mp hb
    exact nofun
  gets hb  := by
    cases List.mem_singleton.mp hb
    exact nofun

theorem mono (h : Batches cu bs) (hp : ∀ p pol, NativePort cu p pol → NativePort cu' p pol) :
    Batches cu' bs where
  nonempty      := h.nonempty
  puts hb _ hm  := hp _ _ (h.puts hb hm)
  gets hb _ hm  := hp _ _ (h.gets hb hm)

theorem append_empty (h : Batches cu bs) : Batches cu (bs ++ [∅]) where
  nonempty := by simp
  puts hb  := (List.mem_append.mp hb).elim (h.puts ·) (Batches.empty.puts ·)
  gets hb  := (List.mem_append.mp hb).elim (h.gets ·) (Batches.empty.gets ·)

-- The last batch is replaced by one with a further operation.
theorem set_last (h : Batches cu bs) (hl : bs.getLast? = some batch)
    (hp : ∀ p ∈ Finmap.keys batch'.to_put, p ∈ Finmap.keys batch.to_put ∨ NativePort cu p .putter)
    (hg : ∀ p ∈ batch'.to_get, p ∈ batch.to_get ∨ NativePort cu p .getter) :
    Batches cu (bs.dropLast ++ [batch']) where
  nonempty := by simp
  puts hb _ hm := by
    cases List.mem_append.mp hb
    case inl hb => exact h.puts (List.mem_of_mem_dropLast hb) hm
    case inr hb =>
      cases List.mem_singleton.mp hb
      exact (hp _ hm).elim (h.puts (List.mem_of_getLast? hl)) id
  gets hb _ hm := by
    cases List.mem_append.mp hb
    case inl hb => exact h.gets (List.mem_of_mem_dropLast hb) hm
    case inr hb =>
      cases List.mem_singleton.mp hb
      exact (hg _ hm).elim (h.gets (List.mem_of_getLast? hl)) id

end Batches

-- The ports of a native that creates a channel remain its own.
theorem NativePort.new_port_pair (ha : c.Allotted) (hp : c.new_port_pair = some (c', o, i))
    (h : NativePort c.unphased p pol) : NativePort c'.unphased p pol := by
  obtain ⟨ips, hpair, hc⟩ := new_port_pair_cases hp
  obtain ⟨info, hi, ho, hpol⟩ := h
  have howner : c.unphased.ips.port_info.owner p ≠ none := by simp [PortInfoMap.owner, hi]
  obtain ⟨ho', hi', _⟩ := IdAndPortState.new_port_pair_eq_some hpair
  have hne₁ : p ≠ o := fun he => howner (he ▸ ho' ▸ ha.port_fresh (n := 0))
  have hne₂ : p ≠ i := fun he => howner (he ▸ hi' ▸ ha.port_fresh (n := 1))
  subst hc
  refine ⟨info, ?_, ho, hpol⟩
  simp only [IdAndPortState.new_port_pair, Option.bind_eq_bind, Option.bind_eq_some_iff,
    Option.pure_def, Option.some.injEq, Prod.mk.injEq] at hpair
  obtain ⟨_, _, _, _, hips, ho, hi⟩ := hpair
  subst hips ho hi
  simp [PortInfoMap.extend_owned_map, HashMap.get?_insert, hne₁, hne₂, hi]

-- The batches lose the ports that are moved, and the others remain the native's.
theorem Batches.drop_ports (h : Batches c.unphased bs)
    (ha : c.add_component pd module_name identifier ports = .ok c') :
    Batches c'.unphased (bs.map (Connector.drop_ports ports)) := by
  obtain ⟨_, new_cid, ids, _, hc'⟩ := add_component_cases ha
  have hport {p pol} (hp : NativePort c.unphased p pol) (hm : p ∉ ports) :
      NativePort c'.unphased p pol := by
    obtain ⟨info, hi, ho, hpol⟩ := hp
    subst hc'
    refine ⟨info, ?_, ho, hpol⟩
    simp only [PortInfoMap.move_ports, PortInfoMap.get?_change_owner, hi, Option.map_some, if_neg hm]
  have herase {m : HashMap PortId Payload} {p : PortId}
      (hp : p ∈ Finmap.keys (ports.foldl HashMap.erase m)) : p ∈ Finmap.keys m ∧ p ∉ ports := by
    clear * - hp
    induction ports generalizing m with
    | nil => exact ⟨hp, List.not_mem_nil⟩
    | cons port ports ih =>
      obtain ⟨hm, hn⟩ := ih hp
      obtain ⟨v, hv⟩ := HashMap.mem_keys_iff.mp hm
      rw [HashMap.get?_erase] at hv
      split at hv
      case isTrue => cases hv
      case isFalse hne =>
        exact ⟨HashMap.mem_keys_iff.mpr ⟨v, hv⟩, List.not_mem_cons_of_ne_of_not_mem hne hn⟩
  constructor
  case nonempty => simpa using h.nonempty
  case puts =>
    intro batch hb p hp
    obtain ⟨batch', hb', he⟩ := List.mem_map.mp hb
    subst he
    obtain ⟨hp, hm⟩ := herase hp
    exact hport (h.puts hb' hp) hm
  case gets =>
    intro batch hb p hp
    obtain ⟨batch', hb', he⟩ := List.mem_map.mp hb
    subst he
    obtain ⟨hp, hm⟩ := Finset.mem_filter.mp hp
    exact hport (h.gets hb' hp) hm

-- What the application does keeps the invariants of the port state, and those of the batches.
theorem Application.kept (h : Application pd c c') (ha : c.Allotted) (hk : c.Known) :
    c'.Allotted ∧ c'.Known := by
  cases h
  case newPortPair h  => exact ⟨ha.new_port_pair h, @Known.step _ pd _ _ _ _ hk (.newPortPair h)⟩
  case addComponent h => exact ⟨ha.add_component h, hk.step (.addComponent h)⟩
  case nextBatch h =>
    have (.mk unphased phased) := c
    cases phased <;> cases h
    exact ⟨ha, hk⟩
  case put h =>
    obtain ⟨_, _, hc, _, _, he⟩ := put_cases h
    have (.mk unphased phased) := c
    cases hc
    subst he
    exact ⟨ha, hk⟩
  case get h =>
    obtain ⟨_, _, hc, _, _, he⟩ := get_cases h
    have (.mk unphased phased) := c
    cases hc
    subst he
    exact ⟨ha, hk⟩

theorem Application.batches {comm comm' : ConnectorCommunication} (h : Application pd c c')
    (ha : c.Allotted) (hc : c.phased = .communication comm) (hc' : c'.phased = .communication comm')
    (hb : Batches c.unphased comm.native_batches) : Batches c'.unphased comm'.native_batches := by
  have (.mk unphased phased) := c
  cases hc
  cases h
  case newPortPair h =>
    have hp {p pol} := @NativePort.new_port_pair _ _ _ _ _ p pol ha h
    obtain ⟨_, _, he⟩ := new_port_pair_cases h
    subst he
    cases hc'
    exact hb.mono fun _ _ => hp
  case addComponent h =>
    have hb' := hb.drop_ports h
    obtain ⟨_, _, _, _, he⟩ := add_component_cases h
    subst he
    cases hc'
    exact hb'
  case nextBatch h =>
    cases h
    cases hc'
    exact hb.append_empty
  case put h =>
    obtain ⟨_, _, hc, hl, hp, he⟩ := put_cases h
    cases hc
    subst he
    cases hc'
    refine hb.set_last hl (fun p hm => ?_) fun _ => .inl
    obtain ⟨_, hv⟩ := HashMap.mem_keys_iff.mp hm
    rw [HashMap.get?_insert] at hv
    split at hv
    case isTrue he => exact .inr (he ▸ hp)
    case isFalse   => exact .inl (HashMap.mem_keys_iff.mpr ⟨_, hv⟩)
  case get h =>
    obtain ⟨_, _, hc, hl, hp, he⟩ := get_cases h
    cases hc
    subst he
    cases hc'
    refine hb.set_last hl (fun _ => .inl) fun p hm => ?_
    cases Finset.mem_insert.mp hm
    case inl he => exact .inr (he ▸ hp)
    case inr hm => exact .inl hm

end Connector

namespace NonsyncPhase

variable {pd : ProtocolDescription S} {s s' : NonsyncPhase S} {native_component_id : ComponentId}

-- The component is yet to run, or it has entered its synchronous block.
def HasComponent (s : NonsyncPhase S) (cid : ComponentId) : Prop :=
  (∃ state, (cid, state) ∈ s.components) ∨ ∃ component, s.blocked.get? cid = some component

structure Kept (native_component_id : ComponentId) (s : NonsyncPhase S) : Prop where
  allotted : s.ips.Allotted native_component_id s.HasComponent
  known    : s.ips.Known none

theorem new_component_cases {ips ips' : IdAndPortState} {cid new_cid : ComponentId}
    {moved : List PortId}
    (h : NonsyncProtoContext.new_component ips cid moved = some (ips', new_cid)) :
    (∀ p ∈ moved, ips.port_info.owner p = some cid) ∧ ∃ ids,
    ips.id_manager.new_component_id = some (new_cid, ids) ∧
    ips' = ⟨ips.port_info.move_ports moved cid new_cid, ids⟩ := by
  simp only [NonsyncProtoContext.new_component, Option.bind_eq_bind, Option.bind_eq_some_iff,
    Option.pure_def, Option.some.injEq, Prod.mk.injEq, List.all_eq_true,
    decide_eq_true_eq] at h
  obtain ⟨_, hg, ⟨_, ids⟩, hid, hips, hnew⟩ := h
  subst hips hnew
  unfold guard at hg
  split at hg
  case isTrue hm => exact ⟨hm, ids, hid, rfl⟩
  case isFalse   => cases hg

theorem Step.kept (h : Step pd s s') (hk : s.Kept native_component_id) :
    s'.Kept native_component_id := by
  obtain ⟨ha, hn⟩ := hk
  cases h
  case step cid state next unrun _ _ =>
    refine ⟨ha.mono fun _ hc => ?_, hn⟩
    grind [HasComponent]
  case newChannel cid state next unrun _ ips' o i _ hp =>
    have hcid := (ha.live (.inl ⟨state, .head _⟩)).left
    refine ⟨(ha.new_port_pair hcid hp).mono fun _ hc => ?_, hn.new_port_pair hp⟩
    grind [HasComponent]
  case newComponent cid state moved_ports init next unrun _ ips' new_cid _ hc =>
    refine ⟨?_, hn.new_component hc⟩
    obtain ⟨hm, ids, hid, hips⟩ := new_component_cases hc
    subst hips
    refine (ha.move_ports hid hm).mono fun _ hc => ?_
    grind [HasComponent]
  case exit cid state unrun _ _ =>
    refine ⟨ha.mono fun _ hc => ?_, hn⟩
    grind [HasComponent]
  case syncBlockStart cid state next unrun blocked _ _ =>
    refine ⟨ha.mono fun cid' hc => ?_, hn⟩
    simp only [HasComponent, HashMap.get?_insert, List.mem_cons] at hc ⊢
    grind

theorem Steps.kept (h : Steps pd s s') (hk : s.Kept native_component_id) :
    s'.Kept native_component_id := by
  induction h with
  | refl        => exact hk
  | tail _ h ih => exact h.kept ih

end NonsyncPhase
end Reowolf
