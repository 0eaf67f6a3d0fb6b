import Reowolf.Runtime.ChannelLaw
import Reowolf.Runtime.Nonsync

namespace Reowolf

namespace ChannelGraph

-- Every peer is a port that is known too.
structure Closed (g : ChannelGraph) : Prop where
  peer : ∀ {p pol q}, g.ends p = some (pol, some q) → ∃ x, g.ends q = some x

variable {g g' : ChannelGraph} {b : Bool} {p : PortId} {var : SpecVar}

theorem Closed.meet {ports met} (hc : g.Closed) (hw : g.WellFormed) (hs : g.waiting = some ports)
    (hh : g.HonestInfos ports met) {pol : Polarity} {q : PortId}
    (hp : g.ends.meet met p = some (pol, some q)) : ∃ x, g.ends.meet met q = some x := by
  have hh := hh.honest hw hs
  have hknown {r x} (hr : g.ends r = some x) : ∃ y, g.ends.meet met r = some y := by
    by_cases hm : ∃ info, (r, info) ∈ met
    case pos =>
      obtain ⟨info, hm⟩ := hm
      obtain ⟨_, _, _, hr⟩ := hh.meet_local hm
      exact ⟨_, hr⟩
    case neg => exact ⟨x, Ends.Honest.meet_known (fun info h => hm ⟨info, h⟩) hr⟩
  cases Ends.Honest.meet_cases hp
  case inl hm =>
    obtain ⟨info, hm⟩ := hm
    obtain ⟨_, _, _, hl⟩ := hh.meet_local hm
    cases hl.symm.trans hp
    cases hq : g.ends info.port
    case none   => exact ⟨_, hh.meet_peer hm hq⟩
    case some x => exact hknown hq
  case inr hm =>
    cases hm
    case inl hk =>
      obtain ⟨_, hq⟩ := hc.peer hk.right
      exact hknown hq
    case inr hm =>
      obtain ⟨hn, l, info, hmet, hl⟩ := hm
      subst hl
      cases (hh.meet_peer hmet hn).symm.trans hp
      obtain ⟨_, hl, _⟩ := hh.meet_local hmet
      exact hknown hl

theorem Closed.step (hc : g.Closed) (hw : g.WellFormed) (h : g.Step b g') : g'.Closed := by
  refine ⟨fun {p pol q} hp => ?_⟩
  have hpeer {p pol q} (hp : g.ends p = some (pol, some q)) : ∃ x, g.ends q = some x := hc.peer hp
  cases h
  case same         => exact hpeer hp
  case meet hs hh   => exact hc.meet hw hs hh hp
  case' pair        => simp only [Ends.pair, Function.update_apply] at hp ⊢
  case' mediate     => simp only [ChannelGraph.mediate, Function.update_apply] at hp ⊢
  case' dangle      => simp only [Ends.dangle, Function.update_apply] at hp ⊢
  all_goals grind

-- The variable of a port is that of a known port, and hence an old one.
theorem Closed.var_lt (hc : g.Closed) (hw : g.WellFormed) (hv : g.ends.var p = some var)
    (ho : var.connector_id = g.connector_id) : var.u32_suffix < g.next_suffix := by
  unfold Ends.var at hv
  split at hv
  case h_1 => cases hv
  case h_2 hp =>
    cases hv
    exact hw.fresh hp ho
  case h_3 hp =>
    cases hv
    obtain ⟨_, hq⟩ := hc.peer hp
    exact hw.fresh hq ho

end ChannelGraph

namespace IdAndPortState

def graph (ips : IdAndPortState) (waiting : Option (List PortId)) : ChannelGraph where
  connector_id := ips.id_manager.connector_id
  ends         := ips.port_info.ends
  next_suffix  := ips.id_manager.port_suffix_stream.next_suffix
  waiting      := waiting
  channels     := []

-- The ports and their peers are known, and their ids are old.
structure Known (waiting : Option (List PortId)) (ips : IdAndPortState) : Prop where
  well_formed : (ips.graph waiting).WellFormed
  closed      : (ips.graph waiting).Closed

variable {S : Type} {pd : ProtocolDescription S} {s s' : ChannelState S} {a : PortAction}
variable {ips ips' : IdAndPortState} {waiting : Option (List PortId)} {p o i : PortId}
variable {connector_id : ConnectorId} {suffix : Nat} {cid : ComponentId}

theorem Known.step (h : s.connector.unphased.ips.Known (ChannelState.waiting s.connector.phased))
    (hs : PortStep pd s a s') :
    s'.connector.unphased.ips.Known (ChannelState.waiting s'.connector.phased) := by
  have hw : s.graph.WellFormed := ⟨h.well_formed.fresh, h.well_formed.own, h.well_formed.waiting⟩
  have hc : s.graph.Closed := ⟨h.closed.peer⟩
  have hg := hs.graph_step hw
  have hw' := hw.step hg
  exact ⟨⟨hw'.fresh, hw'.own, hw'.waiting⟩, ⟨(hc.step hw hg).peer⟩⟩

-- A connector of which only the port state matters.
def connected (ips : IdAndPortState) (cid : ComponentId) : Connector Unit where
  unphased := ⟨∅, ips, cid⟩
  phased   := .communication ⟨0, ⟨[], [], [], []⟩, ⟨none, []⟩, [], .ok none⟩

theorem Known.new_port_pair (h : ips.Known none) (hp : ips.new_port_pair cid = some (ips', o, i)) :
    ips'.Known none :=
  @Known.step _ emptyProtocol ⟨ips.connected cid, []⟩ _ _ h (.nonsyncNewPortPair hp)

theorem Known.new_component {moved : List PortId} {new_cid : ComponentId} (h : ips.Known none)
    (hc : NonsyncProtoContext.new_component ips cid moved = some (ips', new_cid)) : ips'.Known none :=
  @Known.step _ emptyProtocol ⟨ips.connected cid, []⟩ _ _ h (.nonsyncNewComponent hc)

-- Ports were created from the given suffix on, two at a time. The variable of a channel is its second
-- port.
structure Drawn (connector_id : ConnectorId) (suffix : Nat) (ips : IdAndPortState) : Prop where
  own  : ips.id_manager.connector_id = connector_id
  next : ∃ k, ips.id_manager.port_suffix_stream.next_suffix = suffix + 2 * k
  vars : ∀ {p var}, ips.port_info.spec_var_for p = some var → var.connector_id = connector_id →
         var.u32_suffix < suffix ∨ ∃ j, var.u32_suffix = suffix + (2 * j + 1)

theorem Known.drawn (h : ips.Known waiting) : ips.Drawn ips.id_manager.connector_id
    ips.id_manager.port_suffix_stream.next_suffix where
  own  := rfl
  next := ⟨0, rfl⟩
  vars := fun hv ho => .inl (h.closed.var_lt h.well_formed (PortInfoMap.spec_var_for_eq ▸ hv) ho)

theorem Drawn.new_port_pair (h : ips.Drawn connector_id suffix)
    (hp : ips.new_port_pair cid = some (ips', o, i)) : ips'.Drawn connector_id suffix := by
  obtain ⟨ho, hi, hends, hcid, hnext⟩ := IdAndPortState.new_port_pair_eq_some hp
  obtain ⟨k, hk⟩ := h.next
  refine ⟨hcid.trans h.own, ⟨k + 1, by omega⟩, fun {p var} hv hc => ?_⟩
  have hnew : var = i ∨ ips.port_info.ends.var p = some var := by
    rw [PortInfoMap.spec_var_for_eq, hends] at hv
    simp only [Ends.var, Ends.pair, Function.update_apply] at hv ⊢
    grind
  cases hnew
  case inl hv =>
    subst hv
    exact .inr ⟨k, by rw [hi]; simp only; omega⟩
  case inr hv => exact h.vars (PortInfoMap.spec_var_for_eq ▸ hv) hc

theorem Drawn.new_component {moved : List PortId} (h : ips.Drawn connector_id suffix)
    (hc : NonsyncProtoContext.new_component ips cid moved = some (ips', o)) :
    ips'.Drawn connector_id suffix := by
  simp only [NonsyncProtoContext.new_component, Option.bind_eq_bind, Option.bind_eq_some_iff,
    Option.pure_def, Option.some.injEq, Prod.mk.injEq] at hc
  obtain ⟨_, _, _, hid, hips, _⟩ := hc
  obtain ⟨hcid, hnext⟩ := IdManager.new_component_id_eq_some hid
  subst hips
  refine ⟨hcid.trans h.own, by rw [hnext]; exact h.next, fun {p var} hv => @h.vars p var ?_⟩
  rwa [PortInfoMap.spec_var_for_eq, PortInfoMap.ends_move_ports, ← PortInfoMap.spec_var_for_eq] at hv

end IdAndPortState

namespace NonsyncPhase

variable {S : Type} {pd : ProtocolDescription S} {s s' : NonsyncPhase S}
variable {connector_id : ConnectorId} {suffix : Nat}

theorem Step.drawn (h : Step pd s s') (hd : s.ips.Drawn connector_id suffix) :
    s'.ips.Drawn connector_id suffix := by
  cases h
  case newChannel hp   => exact hd.new_port_pair hp
  case newComponent hc => exact hd.new_component hc
  all_goals exact hd

theorem Steps.drawn (h : Steps pd s s') (hd : s.ips.Drawn connector_id suffix) :
    s'.ips.Drawn connector_id suffix := by
  induction h with
  | refl        => exact hd
  | tail _ h ih => exact h.drawn ih

end NonsyncPhase

namespace IdManager

variable {m m' m'' m₁ m₁' : IdManager} {p : PortId} {cid : ComponentId}

-- Both hand out the same ports.
def SamePorts (m m' : IdManager) : Prop :=
  m.connector_id = m'.connector_id ∧ m.port_suffix_stream = m'.port_suffix_stream

theorem SamePorts.new_port_id (h : m.SamePorts m') (hp : m'.new_port_id = some (p, m₁')) :
    ∃ m₁, m.new_port_id = some (p, m₁) ∧ m₁.SamePorts m₁' := by
  simp only [IdManager.new_port_id, Option.bind_eq_bind, Option.bind_eq_some_iff, Option.pure_def,
    Option.some.injEq, Prod.mk.injEq] at hp ⊢
  obtain ⟨⟨n, s⟩, hs, hp, hm⟩ := hp
  subst hp hm
  exact ⟨_, ⟨(n, s), h.right ▸ hs, by rw [h.left], rfl⟩, h.left, rfl⟩

theorem new_udp_mediator_ports_of {ports : UdpMediatorPorts}
    (hc : m.new_component_id = some (cid, m')) (h : m'.new_udp_mediator_ports = some (ports, m'')) :
    ∃ ids, m.new_udp_mediator_ports = some (ports, ids) := by
  obtain ⟨hid, hs⟩ := new_component_id_eq_some hc
  simp only [new_udp_mediator_ports, Option.bind_eq_bind, Option.bind_eq_some_iff, Option.pure_def,
    Option.some.injEq, Prod.mk.injEq] at h ⊢
  obtain ⟨⟨_, _⟩, h₁, ⟨_, _⟩, h₂, ⟨_, _⟩, h₃, ⟨_, _⟩, h₄, hp, _⟩ := h
  obtain ⟨_, h₁, hs₁⟩ := SamePorts.new_port_id ⟨hid.symm, hs.symm⟩ h₁
  obtain ⟨_, h₂, hs₂⟩ := hs₁.new_port_id h₂
  obtain ⟨_, h₃, hs₃⟩ := hs₂.new_port_id h₃
  obtain ⟨_, h₄, _⟩ := hs₃.new_port_id h₄
  exact ⟨_, _, h₁, _, h₂, _, h₃, _, h₄, hp, rfl⟩

-- The variable of the native is drawn an even distance after the ports of the connector.
theorem native_spec_var_eq {native_spec_var : SpecVar} {stream : SpecVarStream}
    (h : m.new_spec_var_stream.next = some (native_spec_var, stream)) :
    native_spec_var = ⟨m.connector_id, m.port_suffix_stream.next_suffix + SKIP_N⟩ := by
  simp only [SpecVarStream.next, Option.bind_eq_bind, Option.bind_eq_some_iff, Option.pure_def,
    Option.some.injEq, Prod.mk.injEq] at h
  obtain ⟨⟨n, _⟩, hn, hv, _⟩ := h
  obtain ⟨hn', _⟩ := U32Stream.next_eq_some hn
  subst hv
  simp only [new_spec_var_stream, U32Stream.n_skipped] at hn hn' ⊢
  by_cases hle : m.port_suffix_stream.next_suffix + SKIP_N ≤ U32Stream.u32Max
  case pos => rw [hn', Nat.min_eq_left hle]
  case neg => simp [U32Stream.next, Nat.min_eq_right (Nat.le_of_not_le hle)] at hn

end IdManager
end Reowolf
