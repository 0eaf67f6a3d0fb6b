import Reowolf.Runtime.Routes

namespace Reowolf

variable {S : Type}

namespace UdpEndpointExt

-- Nothing is left of an earlier round.
structure Clean (ee : UdpEndpointExt) : Prop where
  outgoing : ee.outgoing_payloads = ∅
  received : ee.received_this_round = false

-- The payload that is sent, if the outgoing payloads are drained in the given order: the first one
-- whose predicate is consistent with the solution.
def datagram (ee : UdpEndpointExt) (solution_predicate : Predicate) (order : List Predicate) :
    Option Payload :=
  order.findSome? fun payload_predicate =>
    if payload_predicate.assigns_subset solution_predicate then
      ee.outgoing_payloads.get? payload_predicate
    else none

end UdpEndpointExt

namespace EndpointManager

def Clean (em : EndpointManager) : Prop :=
  ∀ ee ∈ em.udp_endpoint_store, ee.Clean

-- What `udp_endpoints_round_end` sends, with the indices of the endpoints.
def udp_datagrams (em : EndpointManager) (orders : List (List Predicate)) :
    Decision → List (Nat × Payload)
  | .failure => []
  | .success solution_predicate =>
    (em.udp_endpoint_store.zip orders).zipIdx.filterMap fun ((ee, order), index) =>
      (ee.datagram solution_predicate order).map (index, ·)

variable {em : EndpointManager} {orders : List (List Predicate)} {d : Decision} {q : Predicate}
variable {index : Nat} {payload : Payload}

theorem clean_udp_endpoints_round_end : (em.udp_endpoints_round_end (.success q)).Clean := by
  intro ee h
  obtain ⟨_, _, he⟩ := List.mem_map.mp h
  exact he ▸ ⟨rfl, rfl⟩

theorem nodup_filterMap_zipIdx {α β : Type} {f : α × Nat → Option β} {l : List α} {n : Nat} :
    (((l.zipIdx n).filterMap fun x => (f x).map (x.2, ·)).map (·.1)).Nodup := by
  have hsub : List.Sublist (((l.zipIdx n).filterMap fun x => (f x).map (x.2, ·)).map (·.1))
      ((l.zipIdx n).map (·.2)) := by
    generalize l.zipIdx n = zs
    induction zs with
    | nil => exact .slnil
    | cons z zs ih =>
      rw [List.filterMap_cons]
      cases f z
      case none   => exact .cons _ ih
      case some b => exact .cons_cons _ ih
  rw [List.zipIdx_map_snd] at hsub
  exact hsub.nodup List.nodup_range'

-- At most one datagram is sent through an endpoint.
theorem nodup_udp_datagrams : ((em.udp_datagrams orders d).map (·.1)).Nodup := by
  cases d
  case failure => exact .nil
  case success q =>
    exact @nodup_filterMap_zipIdx (UdpEndpointExt × List Predicate) _
      (fun x => x.1.1.datagram q x.1.2) _ _

theorem mem_udp_datagrams (h : (index, payload) ∈ em.udp_datagrams orders d) :
    ∃ q ee p, d = .success q ∧ em.udp_endpoint_store[index]? = some ee ∧
    ee.outgoing_payloads.get? p = some payload ∧ p ⊆ q := by
  cases d
  case failure   => cases h
  case success q =>
    obtain ⟨⟨⟨ee, order⟩, i⟩, hm, he⟩ := List.mem_filterMap.mp h
    obtain ⟨payload', hd, hx⟩ := Option.map_eq_some_iff.mp he
    cases hx
    have hee := List.mk_mem_zipIdx_iff_getElem?.mp hm
    obtain ⟨p, _, hp⟩ := List.exists_of_findSome?_eq_some hd
    split at hp
    case isFalse => cases hp
    case isTrue hq =>
      refine ⟨q, ee, p, rfl, ?_, hp, Predicate.assigns_subset_iff.mp hq⟩
      exact (List.getElem?_zip_eq_some.mp hee).left

end EndpointManager

theorem BranchingNative.send_puts_inbox {to_put : HashMap PortId Payload} {p : Predicate}
    {ports : List PortId} {rctx rctx' : RoundCtx} (h : send_puts p to_put ports rctx = .ok rctx')
    {x : PortId × SendPayloadMsg} (hx : x ∈ rctx'.payload_inbox) : x ∈ rctx.payload_inbox ∨
    ∃ putter, to_put.get? putter = some x.2.payload ∧
    (rctx.ips.port_info.map.get? putter).bind (·.peer) = some x.1 := by
  induction ports generalizing rctx with
  | nil =>
    cases h
    exact .inl hx
  | cons putter putters ih =>
    simp only [send_puts] at h
    split at h
    case h_1 => cases h
    case h_2 payload hp =>
      simp only [SyncResult.bind_eq_ok, RoundCtx.putter_push, RoundCtx.getter_push,
        SyncResult.pure_eq_ok, SyncResult.unwrap_eq_ok] at h
      obtain ⟨_, _, _, _, rctx₁, ⟨info, hi, getter, hg, hr⟩, h⟩ := h
      subst hr
      cases ih h
      case inr hx => exact .inr hx
      case inl hx =>
        cases hx
        case tail hx => exact .inl hx
        case head    => exact .inr ⟨putter, hp, by simp [hi, hg]⟩

theorem BranchingNative.start_batches_inbox {cu_ports : PortInfoMap} {cid : ComponentId}
    {native_spec_var : SpecVar} {index : Nat} {batches : List (NativeBatch × BatchOrder)}
    {rctx rctx' : RoundCtx} {native native' : BranchingNative}
    (h : start_batches cu_ports cid native_spec_var index batches (rctx, native) =
      .ok (rctx', native')) {x : PortId × SendPayloadMsg} (hx : x ∈ rctx'.payload_inbox) :
    x ∈ rctx.payload_inbox ∨ ∃ b ∈ batches, ∃ putter, b.1.to_put.get? putter = some x.2.payload ∧
    (rctx.ips.port_info.map.get? putter).bind (·.peer) = some x.1 := by
  induction batches generalizing index rctx native with
  | nil =>
    cases h
    exact .inl hx
  | cons b batches ih =>
    obtain ⟨⟨rctx₁, native₁⟩, h₁, h⟩ := SyncResult.bind_eq_ok.mp h
    have hips := (start_batch_cases h₁).left
    cases ih h
    case inr hx =>
      obtain ⟨b', hb, hp⟩ := hx
      exact .inr ⟨b', .tail _ hb, hips ▸ hp⟩
    case inl hx =>
      simp only [start_batch, SyncResult.bind_eq_ok] at h₁
      obtain ⟨maybe, _, h₁⟩ := h₁
      cases maybe
      case none =>
        cases h₁
        exact .inl hx
      case some p =>
        simp only [SyncResult.bind_eq_ok] at h₁
        obtain ⟨_, _, rctx₂, hsend, rctx₃, hsubmit, _, _, h₁⟩ := h₁
        cases h₁
        obtain ⟨_, hs⟩ := submit_if_ended_cases hsubmit
        rw [hs.rest] at hx
        exact (send_puts_inbox hsend hx).imp_right fun hp => ⟨b, .head _, hp⟩

-- A component adds a message to the inbox when one of its branches puts it.
theorem BranchingProtoComponent.step_inbox {pd : ProtocolDescription S} {cid : ComponentId}
    {c c' : BranchingProtoComponent S} {rctx rctx' : RoundCtx} {a : Act}
    (h : c.step pd cid rctx a = .ok (rctx', c')) {x : PortId × SendPayloadMsg}
    (hx : x ∈ rctx'.payload_inbox) : x ∈ rctx.payload_inbox ∨
    ∃ predicate fuel order branch putter state inner, a = .run predicate fuel order ∧
    c.drainer.input.get? predicate = some branch ∧
    sync_run pd ⟨rctx.ips.port_info, predicate⟩ fuel (branch.state, branch.inner) =
      .ok (.putMsg putter x.2.payload, state, inner) ∧
    (rctx.ips.port_info.map.get? putter).bind (·.peer) = some x.1 := by
  revert hx
  cases step_cases h
  case run _ hb hr hh =>
    cases hh
    case puts hp =>
      intro hx
      cases hx
      case tail hx => exact .inl hx
      case head    => exact .inr ⟨_, _, _, _, _, _, _, rfl, hb, hr, hp⟩
    case ends hs =>
      rw [hs.rest]
      exact .inl
    all_goals exact .inl
  all_goals exact .inl

namespace SessionNode

-- The native puts what is in its batches as the round begins, and a component when one of its branches
-- does.
inductive Puts (pd : ProtocolDescription S) (node : SessionNode S) (putter : PortId)
    (payload : Payload) : Act S → Prop
  | native {round batch} :
    batch ∈ node.comm.native_batches →
    batch.to_put.get? putter = some payload →
    Puts pd node putter payload (.begins round)
  | component {round cid component predicate fuel order branch state inner pr} :
    node.sync = .undecided round →
    round.branching_proto_components.get? cid = some component →
    component.drainer.input.get? predicate = some branch →
    sync_run pd ⟨round.rctx.ips.port_info, predicate⟩ fuel (branch.state, branch.inner) =
      .ok (.putMsg putter payload, state, inner) →
    Puts pd node putter payload (.steps (.component (.run predicate fuel order)) pr)

-- The payload was put in the round that a call of `sync` began.
inductive PutIn (pd : ProtocolDescription S) (node : SessionNode S) (putter : PortId)
    (payload : Payload) : List (Act S) → Prop
  | native {round} :
    Puts pd node putter payload (.begins round) →
    PutIn pd node putter payload [.begins round]
  | component {as n a} :
    Syncing pd node as n →
    Puts pd n putter payload a →
    PutIn pd node putter payload (as ++ [a])
  | earlier {as a} :
    PutIn pd node putter payload as →
    PutIn pd node putter payload (as ++ [a])

-- It was put through a port whose peer is routed to the UDP endpoint.
def PutTo (pd : ProtocolDescription S) (node : SessionNode S) (as : List (Act S)) (m : PortInfoMap)
    (index : Nat) (payload : Payload) : Prop :=
  ∃ putter getter, (m.map.get? putter).bind (·.peer) = some getter ∧
  m.route getter = some (.udpEndpoint index) ∧ PutIn pd node putter payload as

end SessionNode

namespace Round

variable {pd : ProtocolDescription S} {comm : ConnectorCommunication} {round : Round S}
variable {pr : Progress S} {native_component_id cid : ComponentId} {next : SyncStage} {a : Act}

-- Where a message in the inbox comes from.
inductive Inbox (pd : ProtocolDescription S) (comm : ConnectorCommunication) (round : Round S)
    (a : Act) (x : PortId × SendPayloadMsg) : Prop
  | old :
    x ∈ round.rctx.payload_inbox →
    Inbox pd comm round a x
  | endpoint :
    x.1 ∈ comm.endpoint_manager.getters →
    Inbox pd comm round a x
  | component {cid component predicate fuel order branch putter state inner} :
    a = .component (.run predicate fuel order) →
    round.branching_proto_components.get? cid = some component →
    component.drainer.input.get? predicate = some branch →
    sync_run pd ⟨round.rctx.ips.port_info, predicate⟩ fuel (branch.state, branch.inner) =
      .ok (.putMsg putter x.2.payload, state, inner) →
    (round.rctx.ips.port_info.map.get? putter).bind (·.peer) = some x.1 →
    Inbox pd comm round a x

theorem Continues.inbox {round' : Round S} (h : Continues comm round' pr) :
    pr.round.rctx.payload_inbox = round'.rctx.payload_inbox := by
  cases h
  case on => rfl
  case fails =>
    unfold fail_round
    split
    case h_1 => rfl
    case h_2 => split <;> rfl

theorem ComponentStepped.inbox {b : BranchingProtoComponent.Act}
    (h : ComponentStepped pd comm round cid next b pr) {x : PortId × SendPayloadMsg}
    (hx : x ∈ pr.round.rctx.payload_inbox) : Inbox pd comm round (.component b) x := by
  cases h
  case mk component rctx' component' stage hc hs _ hcont =>
    rw [hcont.inbox] at hx
    cases BranchingProtoComponent.step_inbox hs hx
    case inl hx => exact .old hx
    case inr hx =>
      obtain ⟨_, _, _, _, _, _, _, ha, hb, hr, hp⟩ := hx
      exact .component (congrArg _ ha) hc hb hr hp

theorem Received.inbox {net_index : Nat} {msg : Msg} (h : Received comm round net_index msg pr)
    {x : PortId × SendPayloadMsg} (hx : x ∈ pr.round.rctx.payload_inbox) :
    x ∈ round.rctx.payload_inbox ∨ x.1 ∈ comm.endpoint_manager.getters := by
  cases h
  case failed =>
    rw [Continues.fails.inbox] at hx
    exact .inl hx
  case payload ee he =>
    cases hx
    case tail hx => exact .inl hx
    case head    =>
      refine .inr (List.mem_append.mpr (.inl ?_))
      exact List.mem_map.mpr ⟨ee, List.mem_of_getElem? he, rfl⟩
  case suggested rctx' _ hs =>
    have hrest := (RoundCtx.submitted_of_submit hs).rest
    simp only at hx
    rw [hrest] at hx
    exact .inl hx
  all_goals exact .inl hx

theorem Stepped.inbox (h : Stepped pd native_component_id comm round a pr)
    {x : PortId × SendPayloadMsg} (hx : x ∈ pr.round.rctx.payload_inbox) :
    Inbox pd comm round a x := by
  cases h
  case checkNative h =>
    rw [h.inbox] at hx
    exact .old hx
  case start h => exact h.inbox hx
  case feed h  => exact h.inbox hx
  case route getter msg payload_inbox order hs hi h =>
    have hold {y} (hy : y ∈ payload_inbox) : y ∈ round.rctx.payload_inbox := hi ▸ .tail _ hy
    cases h
    case native rctx' _ _ _ hf =>
      obtain ⟨_, _, _, _, hsub⟩ := @BranchingNative.feed_msg_cases (getter, msg) _ _ _ _ _ _ hf
      have hinbox : rctx'.payload_inbox = payload_inbox := by rw [hsub.rest]
      exact .old (hold (hinbox ▸ hx))
    case component h =>
      cases h.inbox hx
      case old hx         => exact .old (hold hx)
      case endpoint hx    => exact .endpoint hx
      case component ha _ _ _ _ => cases ha
    all_goals exact .old (hold hx)
  case undelayed h =>
    cases h.inbox hx
    case inl hx => exact .old hx
    case inr hx => exact .endpoint hx
  case net h =>
    cases h.inbox hx
    case inl hx => exact .old hx
    case inr hx => exact .endpoint hx
  case udp ee var _ he _ _ =>
    cases hx
    case tail hx => exact .old hx
    case head    =>
      refine .endpoint (List.mem_append.mpr (.inr ?_))
      exact List.mem_map.mpr ⟨ee, List.mem_of_getElem? he, rfl⟩
  case timeout h =>
    subst h
    simp only [Continues.fails.inbox] at hx
    exact .old hx
  all_goals exact .old hx

-- An outgoing payload was there before, or it is that of a message from the inbox.
theorem Stepped.outgoing (h : Stepped pd native_component_id comm round a pr) {index : Nat}
    {ee : UdpEndpointExt} (he : pr.endpoint_manager.udp_endpoint_store[index]? = some ee)
    {p : Predicate} {payload : Payload} (hp : ee.outgoing_payloads.get? p = some payload) :
    (∃ ee', comm.endpoint_manager.udp_endpoint_store[index]? = some ee' ∧
      ee'.outgoing_payloads.get? p = some payload) ∨
    ∃ getter msg, (getter, msg) ∈ round.rctx.payload_inbox ∧ msg.payload = payload ∧
      round.rctx.ips.port_info.route getter = some (.udpEndpoint index) := by
  have hsame (hem : pr.endpoint_manager.udp_endpoint_store = comm.endpoint_manager.udp_endpoint_store) :
      ∃ ee', comm.endpoint_manager.udp_endpoint_store[index]? = some ee' ∧
      ee'.outgoing_payloads.get? p = some payload := ⟨ee, hem ▸ he, hp⟩
  cases h
  case checkNative h => exact .inl (hsame (by rw [h.storage.right.right]))
  case start h =>
    cases h
    case mk h => exact .inl (hsame (by rw [h.storage.right.right]))
  case feed h =>
    cases h
    case mk h => exact .inl (hsame (by rw [h.storage.right.right]))
  case route getter msg payload_inbox order hs hi h =>
    cases h
    case udpEndpoint info index' ee' hm hr hee =>
      simp only [List.getElem?_set] at he
      split at he
      case isFalse => exact .inl ⟨ee, he, hp⟩
      case isTrue hindex =>
        subst hindex
        split at he
        case isFalse => cases he
        case isTrue  =>
          cases he
          simp only [HashMap.get?_insert] at hp
          split at hp
          case isFalse => exact .inl ⟨ee', hee, hp⟩
          case isTrue  =>
            cases hp
            refine .inr ⟨getter, msg, hi ▸ .head _, rfl, ?_⟩
            simp only at hm
            simp [PortInfoMap.route, hm, hr]
    case component h =>
      cases h
      case mk h => exact .inl (hsame (by rw [h.storage.right.right]))
    all_goals exact .inl (hsame rfl)
  case undelayed h =>
    cases h
    case failed => exact .inl (hsame (by rw [Continues.fails.storage.right.right]))
    all_goals exact .inl (hsame rfl)
  case net h =>
    cases h
    case failed => exact .inl (hsame (by rw [Continues.fails.storage.right.right]))
    all_goals exact .inl (hsame rfl)
  case udp ee' _ _ hee _ _ =>
    simp only [List.getElem?_set] at he
    split at he
    case isFalse => exact .inl ⟨ee, he, hp⟩
    case isTrue hindex =>
      subst hindex
      split at he
      case isFalse => cases he
      case isTrue  =>
        cases he
        exact .inl ⟨ee', hee, hp⟩
  case timeout h =>
    subst h
    exact .inl (hsame (by simp only [Continues.fails.storage.right.right]))
  all_goals exact .inl (hsame rfl)

end Round

namespace SessionNode

variable {pd : ProtocolDescription S} {node node' n n' : SessionNode S} {a : Act S} {as : List (Act S)}
variable {round : Round S} {m : PortInfoMap} {index : Nat} {payload : Payload}

theorem PutTo.earlier (h : PutTo pd node as m index payload) :
    PutTo pd node (as ++ [a]) m index payload := by
  obtain ⟨putter, getter, hp, hr, hput⟩ := h
  exact ⟨putter, getter, hp, hr, hput.earlier⟩

-- In a round all messages for the UDP endpoints, sent or in the inbox, were put in the round.
structure Outgoing (pd : ProtocolDescription S) (node : SessionNode S) (as : List (Act S))
    (em : EndpointManager) (round : Round S) : Prop where
  inbox    : ∀ {x}, x ∈ round.rctx.payload_inbox → ∀ {index},
             round.rctx.ips.port_info.route x.1 = some (.udpEndpoint index) →
             PutTo pd node as round.rctx.ips.port_info index x.2.payload
  outgoing : ∀ {index ee}, em.udp_endpoint_store[index]? = some ee →
             ∀ {p payload}, ee.outgoing_payloads.get? p = some payload →
             PutTo pd node as round.rctx.ips.port_info index payload

theorem Outgoing.begins {timeout : Bool} {orders : RoundOrders}
    (h : begin_round pd node.unphased node.comm timeout orders = .ok (.ok round))
    (hc : node.comm.endpoint_manager.Clean) :
    Outgoing pd node [.begins round] node.comm.endpoint_manager round where
  inbox := by
    intro x hx index hr
    obtain ⟨_, _, _, _, _, _, rctx, hinbox, hb⟩ := begin_round_cases h
    have hips := (BranchingNative.start_batches_cases hb).left
    cases BranchingNative.start_batches_inbox hb hx
    case inl hx => simp [hinbox] at hx
    case inr hx =>
      obtain ⟨⟨batch, _⟩, hm, putter, hput, hp⟩ := hx
      exact ⟨putter, x.1, hips ▸ hp, hr, .native (.native (List.of_mem_zip hm).left hput)⟩
  outgoing := by
    intro index ee he p payload hp
    have hee := (hc ee (List.mem_of_getElem? he)).outgoing
    simp [hee] at hp

theorem Outgoing.steps {b : Round.Act} {pr : Progress S} (hs : Syncing pd node as n)
    (hn : n.sync = .undecided round) (hi : n.Inward)
    (ho : Outgoing pd node as n.comm.endpoint_manager round)
    (h : Round.step pd n.unphased.native_component_id n.comm round b = .ok pr) :
    Outgoing pd node (as ++ [.steps b pr]) pr.endpoint_manager pr.round where
  inbox := by
    intro x hx index hr
    have hst := Round.step_cases h
    have hips := hst.keeps.ips
    rw [hips] at hr ⊢
    cases hst.inbox hx
    case old hx => exact (ho.inbox hx hr).earlier
    case endpoint hg =>
      obtain ⟨r, hr', hne⟩ := (hi.own _ hg).mono (hi.round (hn ▸ rfl : n.sync.round = some round))
      cases hr'.symm.trans hr
      exact (hne index rfl).elim
    case component predicate fuel order branch putter state inner ha hc hb hrun hp =>
      subst ha
      exact ⟨putter, x.1, hp, hr, .component hs (.component hn hc hb hrun)⟩
  outgoing := by
    intro index ee he p payload hp
    have hst := Round.step_cases h
    rw [hst.keeps.ips]
    cases hst.outgoing he hp
    case inl hold =>
      obtain ⟨_, he, hp⟩ := hold
      exact (ho.outgoing he hp).earlier
    case inr hin =>
      obtain ⟨_, msg, hm, hmsg, hr⟩ := hin
      exact hmsg ▸ (ho.inbox hm hr).earlier

theorem Syncing.outgoing (h : Syncing pd node as n) (hk : node.Kept) (hi : node.Inward)
    (hc : node.comm.endpoint_manager.Clean) :
    n.Kept ∧ n.Inward ∧ ∀ {round}, n.sync = .undecided round →
      Outgoing pd node as n.comm.endpoint_manager round := by
  induction h with
  | begins hs =>
    refine ⟨hs.kept hk, hs.inward hk hi, fun {round} hu => ?_⟩
    cases hs
    case begins hb =>
      cases hu
      exact .begins hb hc
  | continues hsync hs hidle ih =>
    obtain ⟨hk, hi, ho⟩ := ih
    refine ⟨hs.kept hk, hs.inward hk hi, fun {round} hu => ?_⟩
    cases hs
    case steps round b pr hn h =>
      have ho := Outgoing.steps hsync hn hi (ho hn) h
      unfold SessionNode.progress at hu ⊢
      split at hu
      case h_2 => cases hu
      case h_1 hd =>
        cases hu
        simpa [hd] using ho
    case announces => cases hu
    case ends hc =>
      have hidle' := (commit_cases hc).right.left
      exact (hidle hidle').elim
    case breaks => cases hu
    all_goals exact (hsync.invariant.right.right ‹_›).elim

-- Between rounds nothing is left of an earlier one, unless the session is over.
structure Clean (node : SessionNode S) : Prop where
  idle    : node.sync = .idle → (∀ err, node.comm.round_result ≠ .error (.unrecoverable err)) →
            node.comm.endpoint_manager.Clean
  decided : ∀ {round d rest}, node.sync = .decided round d rest → node.comm.endpoint_manager.Clean

-- A round that fails has neither sent nor received through a UDP endpoint.
def CleanFailure : Act S → Prop
  | .steps _ pr => pr.decision = some .failure → pr.endpoint_manager.Clean
  | _           => True

theorem Step.clean (h : Step pd node a node') (hc : node.Clean) (hf : CleanFailure a) :
    node'.Clean := by
  cases h
  case application unphased comm hs ha =>
    obtain ⟨_, he⟩ := Topology.Session.application_cases ha
    refine ⟨fun _ => ?_, nofun⟩
    rw [he]
    exact hc.idle hs
  case delays hs _          => exact ⟨fun _ => hc.idle hs, fun hd => nomatch hs.symm.trans hd⟩
  case begins               => exact ⟨nofun, nofun⟩
  case inconsistent hs hu _ => exact ⟨fun _ _ => hc.idle hs hu, nofun⟩
  case steps round b pr _ _ =>
    unfold SessionNode.progress
    split
    case h_1 => exact ⟨nofun, nofun⟩
    case h_2 d hd =>
      refine ⟨nofun, fun _ => ?_⟩
      cases d
      case failure => exact hf hd
      case success q _ => exact @EndpointManager.clean_udp_endpoints_round_end _ q
  case announces hs => exact ⟨nofun, fun _ => hc.decided hs⟩
  case ends hs h =>
    obtain ⟨_, hidle, _, hem, _⟩ := commit_cases h
    exact ⟨fun _ _ => hem ▸ hc.decided hs, fun hd => nomatch hidle.symm.trans hd⟩
  case breaks => exact ⟨fun _ hu => (hu _ rfl).elim, nofun⟩

end SessionNode

namespace Life

variable {pd : ProtocolDescription S} {l l' : Life S} {a : Act S}

def Clean : Life S → Prop
  | .setup ..     => True
  | .session node => node.Clean

def CleanFailures : Life S → Act S → Prop
  | _, .session a => SessionNode.CleanFailure a
  | _, _          => True

theorem Step.clean (h : Step pd l a l') (hc : l.Clean) (hf : CleanFailures l a) : l'.Clean := by
  cases h
  case refuses                 => exact hc
  case application             => trivial
  case newUdpMediatorComponent => trivial
  case newNetPort              => trivial
  case connect h =>
    obtain ⟨_, _, hc⟩ := Connector.connect_cases rfl h
    cases hc
    refine ⟨fun _ _ ee he => ?_, nofun⟩
    obtain ⟨_, _, he⟩ := List.mem_map.mp he
    exact he ▸ ⟨rfl, rfl⟩
  case session h =>
    have hc : SessionNode.Clean _ := hc
    exact h.clean hc hf

theorem init_clean (h : (life pd).Init l) : l.Clean := by
  obtain ⟨_, hc⟩ := h
  simp only [Connector.new, Option.bind_eq_bind, Option.bind_eq_some_iff] at hc
  obtain ⟨_, _, hc⟩ := hc
  cases l
  case setup   => trivial
  case session => cases congrArg Connector.phased (Option.some.inj hc)

theorem clean (h : ((life pd).restrict CleanFailures).Reachable l) : l.Clean := by
  refine TransitionSystem.Reachable.invariant (I := Clean) (fun hi => ?_) (fun _ hc hs => ?_) h
  case refine_1 => exact @init_clean _ pd _ hi
  case refine_2 => exact Step.clean hs.left hc hs.right

-- If no round fails with something in a UDP endpoint, then every round begins with nothing in one,
-- and what is sent at the end of a round was put in that round, one datagram for each endpoint.
theorem udp_isolation {node : SessionNode S}
    (h : ((life pd).restrict CleanFailures).Reachable (.session node)) :
    (∀ round node', SessionNode.Step pd node (.begins round) node' →
      node.comm.endpoint_manager.Clean) ∧
    ∀ as n b pr n' d orders, SessionNode.Syncing pd node as n →
      SessionNode.Step pd n (.steps b pr) n' → pr.decision = some d →
      ((pr.endpoint_manager.udp_datagrams orders d).map (·.1)).Nodup ∧
      ∀ x ∈ pr.endpoint_manager.udp_datagrams orders d,
        SessionNode.PutTo pd node (as ++ [.steps b pr]) pr.round.rctx.ips.port_info x.1 x.2 := by
  have hreach := h.of_restrict
  have hk : SessionNode.Kept node := kept hreach
  have hi : SessionNode.Inward node := inward hreach
  have hclean : SessionNode.Clean node := clean h
  have hbegins {round node'} (hs : SessionNode.Step pd node (.begins round) node') :
      node.comm.endpoint_manager.Clean := by
    cases hs
    case begins hs hu _ => exact hclean.idle hs hu
  refine ⟨fun _ _ => hbegins, fun as n b pr n' d orders hs hst hd =>
    ⟨EndpointManager.nodup_udp_datagrams, fun x hx => ?_⟩⟩
  have hc : node.comm.endpoint_manager.Clean := by
    clear hst
    induction hs with
    | begins hs            => exact hbegins hs
    | continues _ _ _ ih   => exact ih
  obtain ⟨_, hi', ho⟩ := hs.outgoing hk hi hc
  cases hst
  case steps round hn hr =>
    have ho := SessionNode.Outgoing.steps hs hn hi' (ho hn) hr
    obtain ⟨_, _, _, _, he, hp, _⟩ := EndpointManager.mem_udp_datagrams hx
    exact ho.outgoing he hp

theorem udp_isolation_datagram : ∃ (node n n' : SessionNode Unit) (as : List (SessionNode.Act Unit))
    (b : Round.Act) (pr : Progress Unit) (orders : List (List Predicate)) (d : Decision),
    SessionNode.Syncing emptyProtocol node as n ∧
    SessionNode.Step emptyProtocol n (.steps b pr) n' ∧
    pr.endpoint_manager.udp_datagrams orders d = [(0, [7])] ∧
    SessionNode.PutTo emptyProtocol node (as ++ [.steps b pr]) pr.round.rctx.ips.port_info 0 [7] := by
  have hinit : ((life emptyProtocol).restrict CleanFailures).Init (.setup _ _) := ⟨0, rfl⟩
  have hudp := TransitionSystem.Reachable.step (.init hinit)
    ⟨Step.newUdpMediatorComponent rfl, trivial⟩
  have hconnect := hudp.step ⟨Step.connect .nil .nil
    (rfl : Connector.connect _ [] ⟨none, []⟩ [] [] = .ok _), trivial⟩
  have hput := hconnect.step ⟨.session <| .application rfl <| .put
    (rfl : Connector.put _ ⟨0, 1⟩ [7] = .ok _), trivial⟩
  have begins {node node' round}
      (_ : ((life emptyProtocol).restrict CleanFailures).Reachable (.session node))
      (h : SessionNode.Step emptyProtocol node (.begins round) node') :
      SessionNode.Syncing emptyProtocol node [.begins round] node' := .begins h
  have h₀ := begins hput <| .begins rfl nofun
    (rfl : begin_round emptyProtocol _ _ false
      ⟨0, [], [], [⟨[⟨0, 1⟩], [⟨0, 0⟩, ⟨0, 1⟩], [⟨0, 1⟩]⟩]⟩ = .ok (.ok _))
  have h₁ := h₀.continues (.steps rfl (rfl : Round.step _ _ _ _ (.checkNative []) = .ok _)) nofun
  have h₂ := h₁.continues (.steps rfl (rfl : Round.step _ _ _ _ .enterLoop = .ok _)) nofun
  have h₃ := h₂.continues (.steps rfl (rfl : Round.step _ _ _ _ (.route []) = .ok _)) nofun
  have h₄ := h₃.continues (.steps rfl (rfl : Round.step _ _ _ _ .routed = .ok _)) nofun
  let solution := (((∅ : Predicate).inserted ⟨0, 2⟩ .FIRING).inserted ⟨0, 0⟩ .SILENT).inserted
    ⟨0, 104⟩ (.iter_domain 0)
  have steps {node as n b pr n'} (_ : SessionNode.Syncing emptyProtocol node as n)
      (h : SessionNode.Step emptyProtocol n (.steps b pr) n') := h
  have h₅ := steps h₄ <| .steps rfl (rfl : Round.step _ _ _ _ (.forward solution) = .ok _)
  have h := (udp_isolation hput).right _ _ _ _ _ (.success solution) [[solution]] h₄ h₅ rfl
  exact ⟨_, _, _, _, _, _, [[solution]], .success solution, h₄, h₅, rfl, h.right (0, [7]) (.head _)⟩

-- A round that puts to the endpoint, and fails as nothing comes in through it.
theorem failed_round_not_clean : ∃ (node node' : SessionNode Unit) (round : Round Unit),
    (life emptyProtocol).Reachable (.session node) ∧
    SessionNode.Step emptyProtocol node (.begins round) node' ∧
    ¬node.comm.endpoint_manager.Clean := by
  have hinit : (life emptyProtocol).Init (.setup _ _) := ⟨0, rfl⟩
  have hudp := TransitionSystem.Reachable.step (.init hinit) (Step.newUdpMediatorComponent rfl)
  have hconnect := hudp.step <| Step.connect .nil .nil
    (rfl : Connector.connect _ [] ⟨none, []⟩ [] [] = .ok _)
  have hput := hconnect.step <| .session <| .application rfl <| .put
    (rfl : Connector.put _ ⟨0, 1⟩ [7] = .ok _)
  have hget := hput.step <| .session <| .application rfl <| .get
    (rfl : Connector.get _ ⟨0, 0⟩ = .ok _)
  have h₀ := hget.step <| .session <| .begins rfl nofun
    (rfl : begin_round emptyProtocol _ _ true
      ⟨0, [], [], [⟨[⟨0, 0⟩, ⟨0, 1⟩], [⟨0, 0⟩, ⟨0, 1⟩], [⟨0, 1⟩]⟩]⟩ = .ok (.ok _))
  have h₁ := h₀.step <| .session <| .steps rfl (rfl : Round.step _ _ _ _ (.checkNative []) = .ok _)
  have h₂ := h₁.step <| .session <| .steps rfl (rfl : Round.step _ _ _ _ .enterLoop = .ok _)
  have h₃ := h₂.step <| .session <| .steps rfl (rfl : Round.step _ _ _ _ (.route []) = .ok _)
  have h₄ := h₃.step <| .session <| .steps rfl (rfl : Round.step _ _ _ _ .routed = .ok _)
  have h₅ := h₄.step <| .session <| .steps rfl (rfl : Round.step _ _ _ _ .forwarded = .ok _)
  have h₆ := h₅.step <| .session <| .steps rfl (rfl : Round.step _ _ _ _ .timeout = .ok _)
  have h₇ := h₆.step <| .session <| .ends rfl (rfl : SessionNode.commit _ _ ⟨[], []⟩ _ = .ok _)
  refine ⟨_, _, _, h₇, .begins rfl nofun
    (rfl : begin_round emptyProtocol _ _ true ⟨0, [], [], [⟨[], [⟨0, 0⟩, ⟨0, 1⟩], []⟩]⟩ =
      .ok (.ok _)), fun hc => ?_⟩
  have he := congrArg (fun outgoing => (Finmap.keys outgoing).card) (hc _ (.head _)).outgoing
  cases (he : 1 = 0)

end Life
end Reowolf
