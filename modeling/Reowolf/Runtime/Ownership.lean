import Reowolf.Runtime.ChannelLaw

namespace Reowolf
namespace PortInfoMap

-- For every port with some owner the port is in its owner's set, and for every port in an owner's
-- set the owner is that of the port.
def invariant_preserved (m : PortInfoMap) : Bool :=
  (∀ port ∈ Finmap.keys m.map, (m.map.get? port).all fun info =>
    (m.owned.get? info.owner).any fun set => port ∈ set) ∧
  (∀ owner ∈ Finmap.keys m.owned, ∀ port ∈ m.ports_owned_by owner,
    (m.map.get? port).any fun info => info.owner = owner)

def owner (m : PortInfoMap) (port : PortId) : Option ComponentId :=
  (m.map.get? port).map (·.owner)

-- The owners of the ports and the owned sets describe the same relation.
def Consistent (m : PortInfoMap) : Prop :=
  ∀ port owner, port ∈ m.ports_owned_by owner ↔ m.owner port = some owner

variable {m : PortInfoMap} {map : HashMap PortId PortInfo} {p q : PortId} {info : PortInfo}
variable {o old new : ComponentId} {ports : Finset PortId} {moved : List PortId}

theorem mem_ports_owned_by : p ∈ m.ports_owned_by o ↔ ∃ set, m.owned.get? o = some set ∧ p ∈ set := by
  unfold ports_owned_by
  cases m.owned.get? o <;> simp

theorem owner_eq_some : m.owner p = some o ↔ ∃ info, m.map.get? p = some info ∧ info.owner = o :=
  Option.map_eq_some_iff

theorem invariant_preserved_iff : m.invariant_preserved ↔ m.Consistent := by
  simp only [invariant_preserved, decide_eq_true_eq, HashMap.mem_keys_iff, Option.all_eq_true,
    Option.any_eq_true, mem_ports_owned_by, Consistent, owner_eq_some]
  constructor
  case mp =>
    rintro ⟨hmap, howned⟩ p o
    constructor
    case mp =>
      rintro ⟨set, hs, hp⟩
      obtain ⟨info, hi, ho⟩ := howned o ⟨set, hs⟩ p ⟨set, hs, hp⟩
      exact ⟨info, hi, ho⟩
    case mpr =>
      rintro ⟨info, hi, ho⟩
      obtain ⟨set, hs, hp⟩ := hmap p ⟨info, hi⟩ info hi
      exact ⟨set, ho ▸ hs, hp⟩
  case mpr =>
    intro h
    constructor
    case left =>
      rintro p ⟨_, _⟩ info hi
      exact (h p info.owner).mpr ⟨info, hi, rfl⟩
    case right =>
      intro o _ p hp
      exact (h p o).mp hp

-- What an owner owns is told by the owned sets alone.
@[simp] theorem ports_owned_by_mk : ports_owned_by ⟨map, m.owned⟩ o = m.ports_owned_by o := rfl

theorem ports_owned_by_insert {set : Finset PortId} :
    ports_owned_by ⟨map, m.owned.insert old set⟩ o =
      if o = old then set else m.ports_owned_by o := by
  simp only [ports_owned_by, HashMap.get?_insert]
  split <;> rfl

theorem ports_owned_by_extend_owned : (m.extend_owned old ports).ports_owned_by o =
    if o = old then m.ports_owned_by old ∪ ports else m.ports_owned_by o := by
  simp only [extend_owned, ports_owned_by, HashMap.get?_insert]
  split <;> simp_all

theorem ports_owned_by_move_ports : (m.move_ports moved old new).ports_owned_by o =
    if o = new then moved.toFinset
    else if o = old then (m.ports_owned_by old).filter (· ∉ moved)
    else m.ports_owned_by o := by
  simp only [move_ports, ports_owned_by, HashMap.get?_insert, HashMap.get?_modify]
  split
  case isTrue => rfl
  case isFalse =>
    split
    case isFalse => rfl
    case isTrue he =>
      subst he
      cases m.owned.get? o <;> simp

theorem owner_move_ports : (m.move_ports moved old new).owner p =
    (m.owner p).map fun o => if p ∈ moved then new else o := by
  simp only [owner, move_ports, get?_change_owner]
  cases m.map.get? p
  case none => rfl
  case some info =>
    simp only [Option.map_some]
    split <;> rfl

namespace Consistent

theorem owner_iff (h : m.Consistent) : p ∈ m.ports_owned_by o ↔ m.owner p = some o :=
  h p o

-- New ports are given to an owner, or ports that it owns already.
theorem extend (h : m.Consistent) (hmap : ∀ p, (map.get? p).map (·.owner) =
      if p ∈ ports then some o else m.owner p)
    (hp : ∀ p ∈ ports, m.owner p = none ∨ m.owner p = some o) :
    (PortInfoMap.extend_owned ⟨map, m.owned⟩ o ports).Consistent := by
  intro p o'
  have howner : (PortInfoMap.extend_owned ⟨map, m.owned⟩ o ports).owner p =
      if p ∈ ports then some o else m.owner p := hmap p
  rw [howner, ports_owned_by_extend_owned]
  have hm : ∀ o, p ∈ PortInfoMap.ports_owned_by ⟨map, m.owned⟩ o ↔ m.owner p = some o := h p
  by_cases hin : p ∈ ports
  case pos =>
    simp only [hin, if_true, Option.some.injEq]
    split
    case isTrue he  => simp [he, hin]
    case isFalse hne =>
      rw [hm]
      cases hp p hin
      case inl hn => simp [hn, Ne.symm hne]
      case inr hs => simp [hs]
  case neg =>
    simp only [hin, if_false]
    split
    case isTrue he => simp [he, hin, h.owner_iff]
    case isFalse   => exact hm o'

-- Ports move from their owner to one that owns none yet.
theorem move_ports (h : m.Consistent) (hold : ∀ p ∈ moved, m.owner p = some old)
    (hnew : ∀ p, m.owner p ≠ some new) : (m.move_ports moved old new).Consistent := by
  intro p o
  rw [owner_move_ports, ports_owned_by_move_ports]
  by_cases hin : p ∈ moved
  case pos =>
    simp only [hold p hin, Option.map_some, hin, if_true, Option.some.injEq]
    split
    case isTrue he => simp [he, hin]
    case isFalse hne =>
      split
      case isTrue  => simp [hin, Ne.symm hne]
      case isFalse ho =>
        rw [h.owner_iff, hold p hin]
        simp [Ne.symm hne, Ne.symm ho]
  case neg =>
    simp only [hin, if_false, Option.map_id']
    split
    case isTrue he => simp [he, hin, hnew]
    case isFalse =>
      split
      case isTrue he => simp [he, hin, h.owner_iff]
      case isFalse   => exact h.owner_iff

end Consistent
end PortInfoMap

namespace IdManager

-- The id has been handed out.
def Issued (m : IdManager) (cid : ComponentId) : Prop :=
  cid.connector_id = m.connector_id ∧ cid.u32_suffix < m.component_suffix_stream.next_suffix

variable {m m' : IdManager} {cid new_cid : ComponentId} {p : PortId}

theorem new_component_id_cases (h : m.new_component_id = some (new_cid, m')) :
    new_cid = ⟨m.connector_id, m.component_suffix_stream.next_suffix⟩ ∧
    m'.connector_id = m.connector_id ∧ m'.port_suffix_stream = m.port_suffix_stream ∧
    m'.component_suffix_stream.next_suffix = m.component_suffix_stream.next_suffix + 1 := by
  simp only [new_component_id, Option.bind_eq_bind, Option.bind_eq_some_iff, Option.pure_def,
    Option.some.injEq, Prod.mk.injEq] at h
  obtain ⟨_, hn, hp, hm⟩ := h
  obtain ⟨hn, hs⟩ := U32Stream.next_eq_some hn
  subst hp hm
  exact ⟨by rw [hn], rfl, rfl, hs⟩

theorem Issued.new_component_id (hc : m.Issued cid) (h : m.new_component_id = some (new_cid, m')) :
    m'.Issued cid ∧ cid ≠ new_cid := by
  obtain ⟨hn, hid, _, hs⟩ := new_component_id_cases h
  refine ⟨⟨hc.left.trans hid.symm, hs ▸ Nat.lt_succ_of_lt hc.right⟩, fun he => ?_⟩
  rw [hn] at he
  exact absurd hc.right (he ▸ Nat.lt_irrefl _)

theorem issued_new_component_id (h : m.new_component_id = some (new_cid, m')) : m'.Issued new_cid := by
  obtain ⟨hn, hid, _, hs⟩ := new_component_id_cases h
  subst hn
  exact ⟨hid.symm, hs ▸ Nat.lt_succ_self _⟩

theorem new_port_id_component (h : m.new_port_id = some (p, m')) :
    m'.component_suffix_stream = m.component_suffix_stream := by
  simp only [new_port_id, Option.bind_eq_bind, Option.bind_eq_some_iff, Option.pure_def,
    Option.some.injEq, Prod.mk.injEq] at h
  obtain ⟨_, _, _, hm⟩ := h
  rw [← hm]

end IdManager

namespace IdAndPortState

-- The owners are consistent, and the ids of ports, owners and live components are not those that are
-- handed out next.
structure Allotted (native_component_id : ComponentId) (live : ComponentId → Prop)
    (ips : IdAndPortState) : Prop where
  consistent : ips.port_info.Consistent
  ports      : ∀ {p o}, ips.port_info.owner p = some o →
               p.connector_id = ips.id_manager.connector_id →
               p.u32_suffix < ips.id_manager.port_suffix_stream.next_suffix
  owners     : ∀ {p o}, ips.port_info.owner p = some o →
               o.connector_id = ips.id_manager.connector_id → ips.id_manager.Issued o
  native     : ips.id_manager.Issued native_component_id
  live       : ∀ {cid}, live cid → ips.id_manager.Issued cid ∧ cid ≠ native_component_id

variable {ips ips' : IdAndPortState} {native_component_id owner old new_cid : ComponentId}
variable {live : ComponentId → Prop} {o i p : PortId} {moved : List PortId} {ids : IdManager}

namespace Allotted

theorem mono {live' : ComponentId → Prop} (h : ips.Allotted native_component_id live)
    (hl : ∀ cid, live' cid → live cid) : ips.Allotted native_component_id live' :=
  ⟨h.consistent, h.ports, h.owners, h.native, fun hc => h.live (hl _ hc)⟩

-- A port that is created next has no owner yet.
theorem port_fresh (h : ips.Allotted native_component_id live) {n : Nat} :
    ips.port_info.owner ⟨ips.id_manager.connector_id,
      ips.id_manager.port_suffix_stream.next_suffix + n⟩ = none := by
  cases ho : ips.port_info.owner _
  case none   => rfl
  case some o => exact absurd (h.ports ho rfl) (Nat.not_lt.mpr (Nat.le_add_right ..))

-- Only the owners of the ports and the owned sets matter.
theorem congr {m : PortInfoMap} (h : Allotted native_component_id live ⟨m, ids⟩)
    {m' : PortInfoMap} (howner : ∀ p, m'.owner p = m.owner p)
    (howned : ∀ o, m'.ports_owned_by o = m.ports_owned_by o) :
    Allotted native_component_id live ⟨m', ids⟩ where
  consistent p o := by rw [howner, howned]; exact h.consistent p o
  ports hp       := h.ports (howner _ ▸ hp)
  owners hp      := h.owners (howner _ ▸ hp)
  native         := h.native
  live           := h.live

-- A port is created for an owner.
theorem add_port (h : ips.Allotted native_component_id live) (info : PortInfo)
    (hi : ips.id_manager.Issued info.owner)
    (hid : ips.id_manager.new_port_id = some (p, ids)) :
    Allotted native_component_id live ⟨PortInfoMap.extend_owned
      ⟨ips.port_info.map.insert p info, ips.port_info.owned⟩ info.owner {p}, ids⟩ ∧
    ∀ {cid}, ips.id_manager.Issued cid → ids.Issued cid := by
  obtain ⟨hp, hcid, hnext⟩ := IdManager.new_port_id_eq_some hid
  have hissued {cid} : ids.Issued cid ↔ ips.id_manager.Issued cid := by
    simp only [IdManager.Issued, hcid, IdManager.new_port_id_component hid]
  have howner : ∀ q, ((ips.port_info.map.insert p info).get? q).map (·.owner) =
      if q ∈ ({p} : Finset PortId) then some info.owner else ips.port_info.owner q := by
    intro q
    simp only [HashMap.get?_insert, Finset.mem_singleton]
    split <;> rfl
  refine ⟨?_, hissued.mpr⟩
  constructor
  case consistent =>
    refine h.consistent.extend howner fun q hq => .inl ?_
    rw [Finset.mem_singleton.mp hq, hp]
    exact h.port_fresh (n := 0)
  case ports =>
    intro q o hq hc
    have hq := (howner q).symm.trans hq
    rw [hnext]
    split at hq
    case isTrue he  => simp [Finset.mem_singleton.mp he, hp]
    case isFalse    => exact Nat.lt_succ_of_lt (h.ports hq (hc.trans hcid))
  case owners =>
    intro q o hq hc
    have hq := (howner q).symm.trans hq
    split at hq
    case isFalse => exact hissued.mpr (h.owners hq (hc.trans hcid))
    case isTrue  =>
      cases hq
      exact hissued.mpr hi
  case native => exact hissued.mpr h.native
  case live   => exact fun hl => (h.live hl).imp_left hissued.mpr

theorem new_port_pair (h : ips.Allotted native_component_id live) (hi : ips.id_manager.Issued owner)
    (hp : ips.new_port_pair owner = some (ips', o, i)) :
    ips'.Allotted native_component_id live := by
  simp only [IdAndPortState.new_port_pair, Option.bind_eq_bind, Option.bind_eq_some_iff,
    Option.pure_def, Option.some.injEq, Prod.mk.injEq] at hp
  obtain ⟨⟨o', ids₁⟩, h₁, ⟨i', ids₂⟩, h₂, hips, ho, hi'⟩ := hp
  subst hips ho hi'
  obtain ⟨ha₁, hi₁⟩ := h.add_port ⟨owner, some i', .putter, .localComponent⟩ hi h₁
  obtain ⟨ha₂, _⟩ := ha₁.add_port ⟨owner, some o', .getter, .localComponent⟩ (hi₁ hi) h₂
  refine ha₂.congr (fun p => rfl) fun o => ?_
  simp only [PortInfoMap.ports_owned_by_extend_owned, PortInfoMap.ports_owned_by_mk]
  split
  case isFalse => rfl
  case isTrue  => rw [if_pos trivial, Finset.union_assoc, Finset.insert_eq]

-- An id is handed out to a new component.
theorem new_component_id (h : ips.Allotted native_component_id live)
    (hid : ips.id_manager.new_component_id = some (new_cid, ids)) :
    Allotted native_component_id live ⟨ips.port_info, ids⟩ ∧
    (∀ p, ips.port_info.owner p ≠ some new_cid) ∧ ids.Issued new_cid ∧
    new_cid ≠ native_component_id := by
  obtain ⟨_, hcid, hport, _⟩ := IdManager.new_component_id_cases hid
  refine ⟨⟨h.consistent, fun hp hc => hport ▸ h.ports hp (hc.trans hcid), fun hp hc =>
    ((h.owners hp (hc.trans hcid)).new_component_id hid).left, (h.native.new_component_id hid).left,
    fun hl => (h.live hl).imp_left fun hi => (hi.new_component_id hid).left⟩, fun p hp => ?_,
    IdManager.issued_new_component_id hid, (h.native.new_component_id hid).right.symm⟩
  have hc := (IdManager.issued_new_component_id hid).left.trans hcid
  exact ((h.owners hp hc).new_component_id hid).right rfl

-- A new component takes ports over.
theorem move_ports (h : ips.Allotted native_component_id live)
    (hid : ips.id_manager.new_component_id = some (new_cid, ids))
    (hm : ∀ p ∈ moved, ips.port_info.owner p = some old) :
    Allotted native_component_id (fun cid => live cid ∨ cid = new_cid)
      ⟨ips.port_info.move_ports moved old new_cid, ids⟩ := by
  obtain ⟨ha, hnew, hi, hne⟩ := h.new_component_id hid
  constructor
  case consistent => exact h.consistent.move_ports hm hnew
  case ports =>
    intro p o ho
    rw [PortInfoMap.owner_move_ports] at ho
    obtain ⟨o', ho', _⟩ := Option.map_eq_some_iff.mp ho
    exact ha.ports ho'
  case owners =>
    intro p o ho hc
    rw [PortInfoMap.owner_move_ports] at ho
    obtain ⟨o', ho', he⟩ := Option.map_eq_some_iff.mp ho
    split at he <;> subst he
    case isTrue  => exact hi
    case isFalse => exact ha.owners ho' hc
  case native => exact ha.native
  case live =>
    intro cid hl
    cases hl
    case inl hl => exact ha.live hl
    case inr hl =>
      subst hl
      exact ⟨hi, hne⟩

-- The four ports of a mediator, of which two belong to a new component.
theorem new_udp_mediator {nin nout uin uout : PortId} {ids' : IdManager} {udp_cid : ComponentId}
    {map : HashMap PortId PortInfo} (h : ips.Allotted native_component_id live)
    (hid : ips.id_manager.new_component_id = some (udp_cid, ids))
    (hp : ids.new_udp_mediator_ports = some (⟨nin, nout, uin, uout⟩, ids'))
    (hmap : ∀ p, (map.get? p).map (·.owner) =
      if p = uin ∨ p = uout then some udp_cid
      else if p = nin ∨ p = nout then some native_component_id else ips.port_info.owner p) :
    Allotted native_component_id live ⟨⟨map,
      ((ips.port_info.extend_owned native_component_id {nin, nout}).owned.insert udp_cid
        {uin, uout})⟩, ids'⟩ := by
  obtain ⟨ha, hnew, hi, hne⟩ := h.new_component_id hid
  simp only [IdManager.new_udp_mediator_ports, Option.bind_eq_bind, Option.bind_eq_some_iff,
    Option.pure_def, Option.some.injEq, Prod.mk.injEq, UdpMediatorPorts.mk.injEq] at hp
  obtain ⟨⟨p₁, ids₁⟩, h₁, ⟨p₂, ids₂⟩, h₂, ⟨p₃, ids₃⟩, h₃, ⟨p₄, ids₄⟩, h₄, ⟨e₁, e₂, e₃, e₄⟩, e₅⟩ := hp
  simp only at e₁ e₂ e₃ e₄ e₅
  subst e₁ e₂ e₃ e₄ e₅
  obtain ⟨ha₁, hi₁⟩ := ha.add_port ⟨native_component_id, none, .putter, .localComponent⟩ ha.native h₁
  obtain ⟨ha₂, hi₂⟩ := ha₁.add_port ⟨native_component_id, none, .putter, .localComponent⟩ ha₁.native h₂
  obtain ⟨ha₃, hi₃⟩ := ha₂.add_port ⟨udp_cid, none, .putter, .localComponent⟩ (hi₂ (hi₁ hi)) h₃
  obtain ⟨ha₄, _⟩ := ha₃.add_port ⟨udp_cid, none, .putter, .localComponent⟩ (hi₃ (hi₂ (hi₁ hi))) h₄
  have hempty : ips.port_info.ports_owned_by udp_cid = ∅ := by
    refine Finset.eq_empty_of_forall_notMem fun p hp => hnew p ?_
    exact h.consistent.owner_iff.mp hp
  refine ha₄.congr (fun p => (hmap p).trans ?_) fun o => ?_
  case refine_1 =>
    simp only [PortInfoMap.owner, PortInfoMap.extend_owned_map, HashMap.get?_insert]
    clear * -
    grind
  case refine_2 =>
    simp only [PortInfoMap.ports_owned_by_insert, PortInfoMap.ports_owned_by_extend_owned,
      PortInfoMap.ports_owned_by_mk, if_neg hne, hempty, if_true]
    clear * - hne
    split
    case isTrue  => simp
    case isFalse => split <;> simp

end Allotted
end IdAndPortState

namespace PortInfoMap

variable {m m' : PortInfoMap} {setups : List NetEndpointSetup} {received : ReceivedInfos} {p : PortId}
variable {index : Nat} {info : MyPortInfo} {o : ComponentId}

-- An info that is received leaves the owners of known ports as they are.
theorem pair_port_owner (h : pair_port setups m (index, info) = .ok m') :
    m'.owned = (m.extend_owned info.owner {info.port}).owned ∧ ∀ p, m'.owner p =
      if p = info.port ∧ m.owner p = none then some info.owner else m.owner p := by
  simp only [pair_port, Result.bind_eq_ok, Result.unwrap_eq_ok] at h
  obtain ⟨s, _, local_info, hl, h⟩ := h
  split at h
  case isTrue => cases h
  case isFalse =>
    cases h
    have howner {q : PortId} : owner ⟨m.map.insert s.getter_for_incoming
        { local_info with peer := some info.port }, m.owned⟩ q = m.owner q := by
      simp only [owner, HashMap.get?_insert]
      split
      case isTrue he => simp [he, hl]
      case isFalse   => rfl
    unfold or_insert
    split
    case h_1 x hx =>
      have hsome : m.owner info.port ≠ none := by
        rw [← howner]
        simp only [owner, extend_owned_map] at hx ⊢
        simp [hx]
      refine ⟨rfl, fun p => ?_⟩
      have hne : ¬(p = info.port ∧ m.owner p = none) := by
        rintro ⟨he, hn⟩
        exact hsome (he ▸ hn)
      rw [if_neg hne]
      exact howner
    case h_2 hx =>
      have hnone : m.owner info.port = none := by
        rw [← howner]
        simp only [owner, extend_owned_map] at hx ⊢
        simp [hx]
      refine ⟨rfl, fun p => ?_⟩
      by_cases hp : p = info.port
      case pos =>
        rw [if_pos ⟨hp, hp ▸ hnone⟩, hp]
        simp only [owner, HashMap.get?_insert_self, Option.map_some]
      case neg =>
        rw [if_neg fun h => hp h.left, ← howner]
        simp [owner, HashMap.get?_insert, hp, extend_owned_map]

-- The infos describe ports that are new, or that belong to the owner that they tell of.
theorem pair_ports_owner (h : setup_endpoints_and_pair_ports setups received m = .ok m')
    (hc : m.Consistent) (hnd : (received.map (·.2.port)).Nodup)
    (ho : ∀ x ∈ received, m.owner x.2.port = none ∨ m.owner x.2.port = some x.2.owner) :
    m'.Consistent ∧ ∀ p o, m'.owner p = some o →
      m.owner p = some o ∨ m.owner p = none ∧ ∃ x ∈ received, x.2.port = p ∧ x.2.owner = o := by
  unfold setup_endpoints_and_pair_ports at h
  induction received generalizing m with
  | nil =>
    cases h
    exact ⟨hc, fun _ _ => .inl⟩
  | cons hd tl ih =>
    have (index, info) := hd
    rw [List.foldlM_cons] at h
    obtain ⟨m₁, h₁, h⟩ := Result.bind_eq_ok.mp h
    obtain ⟨howned, howner⟩ := pair_port_owner h₁
    obtain ⟨ho, hos⟩ := List.forall_mem_cons.mp ho
    obtain ⟨hn, hnd⟩ := List.nodup_cons.mp hnd
    have hc₁ : m₁.Consistent := by
      have hm : m₁ = extend_owned ⟨m₁.map, m.owned⟩ info.owner {info.port} := by
        have (.mk map owned) := m₁
        exact congrArg _ howned
      rw [hm]
      refine hc.extend (fun p => (howner p).trans ?_) (by simpa using ho)
      by_cases hp : p = info.port
      case neg => simp [hp]
      case pos =>
        subst hp
        cases ho
        case inl ho => simp only [ho, and_self, Finset.mem_singleton]
        case inr ho => simp [ho]
    have hkeep {x : Nat × MyPortInfo} (hx : x ∈ tl) : m₁.owner x.2.port = m.owner x.2.port := by
      rw [howner, if_neg]
      rintro ⟨he, _⟩
      exact hn (List.mem_map.mpr ⟨x, hx, he⟩)
    obtain ⟨hc', ho'⟩ := ih h hc₁ hnd fun x hx => hkeep hx ▸ hos x hx
    refine ⟨hc', fun p o hp => ?_⟩
    cases ho' p o hp
    case inl hp =>
      rw [howner] at hp
      split at hp
      case isFalse => exact .inl hp
      case isTrue he =>
        cases hp
        exact .inr ⟨he.right, _, .head _, he.left.symm, rfl⟩
    case inr hp =>
      obtain ⟨hp, x, hx, he⟩ := hp
      refine .inr ⟨?_, x, .tail _ hx, he⟩
      rw [← he.left, ← hkeep hx, he.left]
      exact hp

end PortInfoMap
end Reowolf
