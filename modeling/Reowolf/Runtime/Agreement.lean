import Reowolf.Library.TreeConsensus
import Reowolf.Runtime.Session
import Reowolf.Runtime.Solutions

namespace Reowolf

variable {S : Type}

namespace Decision

def solution : Decision → Option Predicate
  | .failure   => none
  | .success q => some q

variable {d d' : Decision} {q : Predicate}

end Decision

namespace Round

def storage (round : Round S) : SolutionStorage :=
  round.rctx.solution_storage

-- The component takes part in the round.
def HasComponent (round : Round S) (cid : ComponentId) : Prop :=
  ∃ component, round.branching_proto_components.get? cid = some component

-- The storage collects solutions from the native, the components of the round and the children.
def Tracks (round : Round S) (native_component_id : ComponentId) (neighborhood : Neighborhood) :
    Prop :=
  ∃ components, round.storage.Sound (subtree_ids native_component_id components neighborhood) ∧
  ∀ cid, round.HasComponent cid ↔ cid ∈ components

-- Solutions are added to the storage. Those of child connectors are new in the given sense.
structure Collects (ids : List SubtreeId) (new : Nat → Predicate → Prop) (round round' : Round S) :
    Prop where
  sound      : round'.storage.Sound ids
  grows      : round.storage.Grows round'.storage
  components : ∀ cid, round'.HasComponent cid ↔ round.HasComponent cid
  holds      : ∀ i p, p ∈ round'.storage.solutions (.netEndpoint i) →
               p ∈ round.storage.solutions (.netEndpoint i) ∨ new i p

-- What a step may tell others, and what it may decide on. The step takes the messages `taken`.
structure Tells (comm : ConnectorCommunication) (taken : Nat × Msg → Prop) (pr : Progress S) :
    Prop where
  suggests  : ∀ {i q}, (i, .commCtrl (.suggest (.success q))) ∈ pr.out →
              comm.neighborhood.parent = some i ∧ pr.round.storage.Supports q
  announces : ∀ {i d}, (i, .commCtrl (.announce d)) ∉ pr.out
  decides   : ∀ {d}, pr.decision = some d →
              (comm.neighborhood.parent = none ∧ ∀ q, d = .success q → pr.round.storage.Supports q) ∨
              ∃ i, comm.neighborhood.parent = some i ∧
              taken (i, .commMsg ⟨comm.round_index, .commCtrl (.announce d)⟩)

-- The message waits in the endpoint manager.
def Waits (em : EndpointManager) (x : Nat × Msg) : Prop :=
  x ∈ em.delayed_messages ∨ x ∈ em.undelayed_messages

-- All that a step does as far as other connectors are concerned.
structure Effect (ids : List SubtreeId) (comm : ConnectorCommunication) (taken : Nat × Msg → Prop)
    (round : Round S) (pr : Progress S) : Prop where
  collects : Collects ids (fun i p =>
               taken (i, .commMsg ⟨comm.round_index, .commCtrl (.suggest (.success p))⟩))
             round pr.round
  tells    : Tells comm taken pr
  waits    : ∀ {x}, Waits pr.endpoint_manager x → Waits comm.endpoint_manager x ∨ taken x

variable {ids : List SubtreeId} {comm : ConnectorCommunication} {round round' : Round S} {a : Act}
variable {pr : Progress S} {new : Nat → Predicate → Prop} {taken : Nat × Msg → Prop}
variable {cid : ComponentId}

namespace Collects

theorem same (hs : round.storage.Sound ids) (h : round'.storage = round.storage)
    (hc : round'.branching_proto_components = round.branching_proto_components) :
    Collects ids new round round' where
  sound          := h ▸ hs
  grows          := h ▸ .refl
  components _   := by rw [HasComponent, HasComponent, hc]
  holds _ _ hp   := .inl (h ▸ hp)

theorem digests (hs : round.storage.Sound ids)
    (h : round.storage.Digests (.localComponent cid) round'.storage)
    (hc : ∀ cid, round'.HasComponent cid ↔ round.HasComponent cid) :
    Collects ids new round round' where
  sound          := (h.sound hs).left
  grows          := (h.sound hs).right.left
  components     := hc
  holds i _ hp   := .inl ((h.sound hs).right.right (.netEndpoint i) nofun ▸ hp)

end Collects

-- Nothing is told and nothing is decided.
theorem Tells.quiet (hout : ∀ x ∈ pr.out, ∃ m, x.2 = .sendPayload m) (hd : pr.decision = none) :
    Tells comm taken pr where
  suggests h  := nomatch hout _ h
  announces h := nomatch hout _ h
  decides h   := nomatch hd ▸ h

theorem Continues.storage (h : Continues comm round' pr) : pr.round.storage = round'.storage ∧
    pr.round.branching_proto_components = round'.branching_proto_components ∧
    pr.endpoint_manager = comm.endpoint_manager := by
  cases h
  case on => exact ⟨rfl, rfl, rfl⟩
  case fails =>
    unfold fail_round
    split
    case h_1 => exact ⟨rfl, rfl, rfl⟩
    case h_2 => split <;> exact ⟨rfl, rfl, rfl⟩

theorem Continues.tells (h : Continues comm round' pr) : Tells comm taken pr := by
  cases h
  case on => exact .quiet nofun rfl
  case fails =>
    unfold fail_round
    split
    case h_1 hp =>
      refine ⟨nofun, nofun, fun hd => .inl ⟨hp, fun q hq => ?_⟩⟩
      cases hd
      cases hq
    case h_2 hp =>
      split
      case isTrue  => exact .quiet nofun rfl
      case isFalse =>
        refine ⟨fun h => ?_, fun h => ?_, nofun⟩
        · cases List.mem_singleton.mp h
        · cases List.mem_singleton.mp h

theorem Continues.effect (h : Continues comm round' pr) (hc : Collects ids (fun i p =>
      taken (i, .commMsg ⟨comm.round_index, .commCtrl (.suggest (.success p))⟩)) round round') :
    Effect ids comm taken round pr := by
  obtain ⟨hs, hcomp, hem⟩ := h.storage
  refine ⟨⟨hs ▸ hc.sound, hs ▸ hc.grows, fun cid => ?_, fun i p hp => hc.holds i p (hs ▸ hp)⟩,
    h.tells, fun hw => .inl (hem ▸ hw)⟩
  rw [HasComponent, hcomp]
  exact hc.components cid

theorem ComponentStepped.effect {pd : ProtocolDescription S} {next : SyncStage}
    {b : BranchingProtoComponent.Act} (h : ComponentStepped pd comm round cid next b pr)
    (hs : round.storage.Sound ids) : Effect ids comm taken round pr := by
  cases h
  case mk component rctx' component' stage hc hstep _ hcont =>
    apply hcont.effect
    apply Collects.digests hs (BranchingProtoComponent.step_digests hstep)
    intro cid'
    simp only [HasComponent, HashMap.get?_insert]
    split
    case isTrue he => simp [he, hc]
    case isFalse   => rfl

theorem Routed.effect {pd : ProtocolDescription S} {native_component_id : ComponentId}
    {getter : PortId} {msg : SendPayloadMsg} {order : List Predicate}
    (h : Routed pd native_component_id comm round getter msg order pr)
    (hs : round.storage.Sound ids) : Effect ids comm taken round pr := by
  cases h
  case udpEndpoint => exact ⟨.same hs rfl rfl, .quiet nofun rfl, .inl⟩
  case netEndpoint =>
    refine ⟨.same hs rfl rfl, .quiet (fun x hx => ?_) rfl, .inl⟩
    cases List.mem_singleton.mp hx
    exact ⟨msg, rfl⟩
  case native hf =>
    obtain ⟨_, _, _, _, hsub⟩ := @BranchingNative.feed_msg_cases (getter, msg) _ _ _ _ _ _ hf
    exact ⟨.digests hs hsub.digests fun _ => Iff.rfl, .quiet nofun rfl, .inl⟩
  case component hc =>
    have h := @ComponentStepped.effect _ ids comm _ _ taken _ _ _ _ hc hs
    exact ⟨⟨h.collects.sound, h.collects.grows, h.collects.components, h.collects.holds⟩, h.tells,
      h.waits⟩
  case dropped => exact ⟨.same hs rfl rfl, .quiet nofun rfl, .inl⟩

theorem Received.effect {net_index : Nat} {msg : Msg} (h : Received comm round net_index msg pr)
    (hs : round.storage.Sound ids) (ht : taken (net_index, msg)) :
    Effect ids comm taken round pr := by
  cases h
  case discarded => exact ⟨.same hs rfl rfl, .quiet nofun rfl, .inl⟩
  case delayed =>
    refine ⟨.same hs rfl rfl, .quiet nofun rfl, fun hw => ?_⟩
    cases hw
    case inr hw => exact .inl (.inr hw)
    case inl hw =>
      cases hw
      case head    => exact .inr ht
      case tail hw => exact .inl (.inl hw)
  case payload => exact ⟨.same hs rfl rfl, .quiet nofun rfl, .inl⟩
  case suggested predicate rctx' _ hsub =>
    obtain ⟨storage, hd, h⟩ := SyncResult.bind_eq_ok.mp hsub
    cases h
    obtain ⟨hk, hsubs⟩ := SolutionStorage.submits_of_submit hd
    refine ⟨⟨hs.submit hd, hsubs.grows hs hk, fun _ => Iff.rfl, fun i p hp => ?_⟩, .quiet nofun rfl,
      .inl⟩
    by_cases hi : i = net_index
    case pos =>
      subst hi
      have hp : p ∈ insert predicate (round.storage.solutions (.netEndpoint i)) := hsubs.solutions ▸ hp
      cases Finset.mem_insert.mp hp
      case inl hp => exact .inr (hp ▸ ht)
      case inr hp => exact .inl hp
    case neg =>
      have hne : SubtreeId.netEndpoint i ≠ .netEndpoint net_index := fun h => hi (by cases h; rfl)
      exact .inl (hs.solutions_ne hsubs hk hne ▸ hp)
  case failed => exact Continues.fails.effect (.same hs rfl rfl)
  case announced hp =>
    refine ⟨.same hs rfl rfl, ⟨nofun, nofun, fun hd => ?_⟩, .inl⟩
    cases hd
    exact .inr ⟨net_index, hp.symm, ht⟩

-- The messages that a step takes.
def Takes (comm : ConnectorCommunication) (a : Act) (x : Nat × Msg) : Prop :=
  a = .net x.1 x.2 ∨ x ∈ comm.endpoint_manager.undelayed_messages

-- A new solution becomes an old one, and is told.
theorem Effect.of_make_old {solution : Predicate} {storage : SolutionStorage}
    (hs : round.storage.Sound ids) (hm : round.storage.make_old solution = .ok storage)
    (hr : pr.round = { round with rctx := { round.rctx with solution_storage := storage } })
    (hem : pr.endpoint_manager = comm.endpoint_manager)
    (ht : pr.round.storage.Supports solution → Tells comm taken pr) :
    Effect ids comm taken round pr := by
  have heq := SolutionStorage.make_old_eq hm
  have hstorage : pr.round.storage = storage := hr ▸ rfl
  have hs' : pr.round.storage.Sound ids := hstorage ▸ hs.make_old hm
  refine ⟨⟨hs', ⟨?_, fun id => ?_⟩, fun cid => ?_, fun i p hp => .inl ?_⟩, ht ?_, fun hw => .inl (hem ▸ hw)⟩
  · rw [hstorage, heq]
    exact Iff.rfl
  · rw [hstorage, heq]
    exact Finset.Subset.refl _
  · rw [hr]
    exact Iff.rfl
  · rw [hstorage, heq] at hp
    exact hp
  · apply hs'.supports_local
    rw [hstorage, heq]
    exact .inl (Finset.mem_insert_self ..)

theorem Stepped.effect {pd : ProtocolDescription S} {native_component_id : ComponentId}
    (h : Stepped pd native_component_id comm round a pr) (hs : round.storage.Sound ids) :
    Effect ids comm (Takes comm a) round pr := by
  cases h
  case checkNative hc => exact hc.effect (.same hs rfl rfl)
  case start hc       => exact hc.effect hs
  case feed hc        => exact hc.effect hs
  case enterLoop =>
    refine ⟨.same hs rfl rfl, .quiet nofun rfl, fun hw => .inl ?_⟩
    cases hw
    case inl hw => cases hw
    case inr hw => exact List.mem_append.mp hw
  case route order _ _ hr =>
    have h := @Routed.effect _ ids comm _ _ (Takes comm (.route order)) _ _ _ _ _ hr hs
    exact ⟨⟨h.collects.sound, h.collects.grows, h.collects.components, h.collects.holds⟩, h.tells,
      h.waits⟩
  case decide hm hp =>
    refine .of_make_old hs hm rfl rfl fun hq => ⟨nofun, nofun, fun hd => .inl ⟨hp, ?_⟩⟩
    cases hd
    intro q he
    cases he
    exact hq
  case forward hm hp =>
    refine .of_make_old hs hm rfl rfl fun hq => ⟨fun h => ?_, fun h => ?_, nofun⟩
    · cases List.mem_singleton.mp h
      exact ⟨hp, hq⟩
    · cases List.mem_singleton.mp h
  case undelayed hu hr =>
    have h := @Received.effect _ ids _ _ _ (Takes comm .undelayed) _ _ hr hs (.inr (hu ▸ .head _))
    refine ⟨⟨h.collects.sound, h.collects.grows, h.collects.components, h.collects.holds⟩,
      ⟨h.tells.suggests, h.tells.announces, h.tells.decides⟩, fun hw => ?_⟩
    cases h.waits hw
    case inr hw => exact .inr hw
    case inl hw => exact .inl (hw.imp_right fun hw => hu ▸ .tail _ hw)
  case net hr => exact hr.effect hs (.inl rfl)
  case timeout hp =>
    subst hp
    have h : Effect ids comm (Takes comm .timeout) round
        (fail_round comm { round with stage := .routing }) := Continues.fails.effect (.same hs rfl rfl)
    exact ⟨⟨h.collects.sound, h.collects.grows, h.collects.components, h.collects.holds⟩,
      ⟨h.tells.suggests, h.tells.announces, h.tells.decides⟩, h.waits⟩
  all_goals exact ⟨.same hs rfl rfl, .quiet nofun rfl, .inl⟩

theorem Tracks.collects {native_component_id : ComponentId} {neighborhood : Neighborhood}
    (ht : round.Tracks native_component_id neighborhood)
    (h : ∀ ids, round.storage.Sound ids → Collects ids new round round') :
    round'.Tracks native_component_id neighborhood := by
  obtain ⟨components, hs, hc⟩ := ht
  exact ⟨components, (h _ hs).sound, fun cid => ((h _ hs).components cid).trans (hc cid)⟩

end Round

theorem SolutionStorage.new_solutions {ids : List SubtreeId} {id : SubtreeId} :
    (new ids).solutions id = ∅ := by
  simp only [solutions, new, List.getElem?_map]
  cases HashMap.get? _ id
  case none => rfl
  case some index => cases h : ids[index]? <;> simp [h]

-- A round begins without any solutions of other connectors.
theorem begin_round_tracks {pd : ProtocolDescription S} {cu : ConnectorUnphased S}
    {comm : ConnectorCommunication} {timeout : Bool} {orders : RoundOrders} {round : Round S}
    (h : begin_round pd cu comm timeout orders = .ok (.ok round)) :
    round.Tracks cu.native_component_id comm.neighborhood ∧
    ∀ i, round.storage.solutions (.netEndpoint i) = ∅ := by
  simp only [begin_round, SyncResult.bind_eq_ok, SyncResult.choose_eq_ok] at h
  obtain ⟨_, _, r, _, h⟩ := h
  cases r
  case error => cases h
  case ok r =>
    simp only [SyncResult.bind_eq_ok, SyncResult.choose_eq_ok] at h
    obtain ⟨_, hc, _, _, _, _, ⟨rctx, native⟩, hb, h⟩ := h
    cases h
    have hd := (BranchingNative.start_batches_cases hb).right.sound SolutionStorage.new_sound
    refine ⟨⟨orders.subtrees, hd.left, fun cid => ?_⟩, fun i => ?_⟩
    · rw [hc.mem_iff, HashMap.mem_keys_iff]
      exact Iff.rfl
    · exact (hd.right.right (.netEndpoint i) fun h => by cases h).trans SolutionStorage.new_solutions

namespace Topology.Session

section

variable {K : Type}

-- The connector reaches the decision for the round with that index.
def Decides (as : List (SessionAct K S)) (k : K) (r : Nat) (d : Decision) (round : Round S) : Prop :=
  ∃ node a pr, .steps k node a pr ∈ as ∧ node.comm.round_index = r ∧ pr.decision = some d ∧
  pr.round = round

-- The connector suggests the solution to its parent.
def Suggests (as : List (SessionAct K S)) (k : K) (r : Nat) (q : Predicate) : Prop :=
  ∃ node a pr i, SessionAct.steps k node a pr ∈ as ∧ node.comm.round_index = r ∧
  (i, .commCtrl (.suggest (.success q))) ∈ pr.out

def announcement (r : Nat) (d : Decision) : Msg :=
  .commMsg ⟨r, .commCtrl (.announce d)⟩

def suggestion (r : Nat) (q : Predicate) : Msg :=
  .commMsg ⟨r, .commCtrl (.suggest (.success q))⟩

variable {net : Topology K}

-- The message is on its way, or it waits to be handled.
def Pending (s : net.Session S) (e : net.End) (msg : Msg) : Prop :=
  msg ∈ s.chan e ∨ Round.Waits (s.node e.node).comm.endpoint_manager (e.index, msg)

-- The connector takes part in the round with that index, or has reached a decision for it.
def Runs (as : List (SessionAct K S)) (s : net.Session S) (k : K) (r : Nat) (round : Round S) : Prop :=
  ((s.node k).comm.round_index = r ∧ (s.node k).sync = .undecided round) ∨
  ∃ d, Decides as k r d round

structure Inv (neighborhoods : K → Neighborhood) (as : List (SessionAct K S)) (s : net.Session S) :
    Prop where
  neighborhood : ∀ k, (s.node k).comm.neighborhood = neighborhoods k
  -- messages stem from the other ends of their channels
  announced    : ∀ {e r d}, Pending s e (announcement r d) →
                 ∃ round, Decides as (net.peer e).node r d round
  suggested    : ∀ {e r q}, Pending s e (suggestion r q) → Suggests as (net.peer e).node r q
  -- what was said and decided belongs to this round or to an earlier one
  decided      : ∀ {k round d rest}, (s.node k).sync = .decided round d rest →
                 Decides as k (s.node k).comm.round_index d round
  begun        : ∀ {k r q}, Suggests as k r q → r < (s.node k).comm.round_index ∨
                 r = (s.node k).comm.round_index ∧ (s.node k).sync ≠ .idle
  «over»       : ∀ {k r d round}, Decides as k r d round → r < (s.node k).comm.round_index ∨
                 r = (s.node k).comm.round_index ∧ ∃ rest, (s.node k).sync = .decided round d rest
  once         : ∀ {k r d d' round round'}, Decides as k r d round → Decides as k r d' round' →
                 d = d' ∧ round = round'
  -- the rules of the consensus
  tracks       : ∀ {k r round}, Runs as s k r round →
                 round.Tracks (s.node k).unphased.native_component_id (neighborhoods k)
  supports     : ∀ {k r q round}, Suggests as k r q → Runs as s k r round → round.storage.Supports q
  holds        : ∀ {e : net.End} {r p} {round : Round S}, Runs as s e.node r round →
                 p ∈ round.storage.solutions (.netEndpoint e.index) →
                 Suggests as (net.peer e).node r p
  found        : ∀ {k r q round}, Decides as k r (.success q) round →
                 (neighborhoods k).parent = none → round.storage.Supports q
  follows      : ∀ {e : net.End} {r d round}, Decides as e.node r d round →
                 (neighborhoods e.node).parent = some e.index →
                 ∃ round', Decides as (net.peer e).node r d round'

-- What happens to a connector other than by a step of its round.
inductive Advances (node node' : SessionNode S) : Prop
  | same :
    node'.comm.round_index = node.comm.round_index →
    node'.sync = node.sync →
    Advances _ _
  | begins {round} :
    node'.comm.round_index = node.comm.round_index →
    node.sync = .idle →
    node'.sync = .undecided round →
    round.Tracks node'.unphased.native_component_id node'.comm.neighborhood →
    (∀ i, round.storage.solutions (.netEndpoint i) = ∅) →
    Advances _ _
  | announces {round d rest rest'} :
    node'.comm.round_index = node.comm.round_index →
    node.sync = .decided round d rest →
    node'.sync = .decided round d rest' →
    Advances _ _
  | ends :
    node'.comm.round_index = node.comm.round_index + 1 →
    node'.sync = .idle →
    Advances _ _

variable {neighborhoods : K → Neighborhood} {root : K} {pd : ProtocolDescription S}
variable {as : List (SessionAct K S)} {s s' : net.Session S} {k : K} {r : Nat} {round : Round S}
variable {q : Predicate} {d : Decision} {a : SessionAct K S}

-- A round that runs has run before, or it has just begun.
theorem Advances.runs (h : Advances (s.node k) (s'.node k)) (hr : Runs as s' k r round) :
    Runs as s k r round ∨ ((s.node k).comm.round_index = r ∧ (s.node k).sync = .idle ∧
      round.Tracks (s'.node k).unphased.native_component_id (s'.node k).comm.neighborhood ∧
      ∀ i, round.storage.solutions (.netEndpoint i) = ∅) := by
  cases hr
  case inr hd => exact .inl (.inr hd)
  case inl hr =>
    obtain ⟨hi, hs⟩ := hr
    cases h
    case same hi' hs'         => exact .inl (.inl ⟨hi' ▸ hi, hs' ▸ hs⟩)
    case announces _ _ hs'    => cases hs.symm.trans hs'
    case ends _ hs'           => cases hs.symm.trans hs'
    case begins hi' hn hs' ht he =>
      cases hs.symm.trans hs'
      exact .inr ⟨hi' ▸ hi, hn, ht, he⟩

theorem Inv.advances (hi : Inv neighborhoods as s)
    (hs : ∀ k, Advances (s.node k) (s'.node k))
    (hn : ∀ k, (s'.node k).comm.neighborhood = (s.node k).comm.neighborhood)
    (hc : ∀ k, (s'.node k).unphased.native_component_id = (s.node k).unphased.native_component_id)
    (ha : ∀ {e r d}, Pending s' e (announcement r d) → Pending s e (announcement r d) ∨
      ∃ round, Decides as (net.peer e).node r d round)
    (hq : ∀ {e r q}, Pending s' e (suggestion r q) → Pending s e (suggestion r q)) :
    Inv neighborhoods as s' where
  neighborhood k  := (hn k).trans (hi.neighborhood k)
  announced h     := (ha h).elim hi.announced id
  suggested h     := hi.suggested (hq h)
  decided {k} _ _ _ h := by
    cases hs k
    case same hi' hs'        => exact hi' ▸ hi.decided (hs' ▸ h)
    case begins _ _ hs' _ _  => cases h.symm.trans hs'
    case ends _ hs'          => cases h.symm.trans hs'
    case announces hi' hd hs' =>
      cases h.symm.trans hs'
      exact hi' ▸ hi.decided hd
  begun {k} _ _ h := by
    have hb := hi.begun h
    cases hs k
    case same hi' hs'       => rwa [hi', hs']
    case begins hi' hn _ _ _ => exact .inl (hi' ▸ hb.resolve_right fun hb => hb.right hn)
    case announces hi' _ hs' => exact hi' ▸ hb.imp_right fun hb => ⟨hb.left, by simp [hs']⟩
    case ends hi' _ =>
      rw [hi']
      exact .inl (Nat.lt_succ_of_le (hb.elim Nat.le_of_lt fun hb => hb.left.le))
  «over» {k} _ _ _ h := by
    have ho := hi.over h
    cases hs k
    case same hi' hs' => rwa [hi', hs']
    case begins hi' hn _ _ _ =>
      refine .inl (hi' ▸ ho.resolve_right ?_)
      rintro ⟨_, _, ho⟩
      cases hn.symm.trans ho
    case announces hi' hd hs' =>
      refine hi' ▸ ho.imp_right ?_
      rintro ⟨he, _, ho⟩
      cases hd.symm.trans ho
      exact ⟨he, _, hs'⟩
    case ends hi' _ =>
      rw [hi']
      exact .inl (Nat.lt_succ_of_le (ho.elim Nat.le_of_lt fun ho => ho.left.le))
  once            := hi.once
  tracks {k} _ _ h := by
    cases (hs k).runs h
    case inl h => exact hc k ▸ hi.tracks h
    case inr h => exact hi.neighborhood k ▸ hn k ▸ h.right.right.left
  supports {k} _ _ _ h hr := by
    cases (hs k).runs hr
    case inl hr => exact hi.supports h hr
    case inr hr =>
      obtain ⟨he, hidle, _⟩ := hr
      subst he
      cases hi.begun h
      case inl hlt => exact absurd hlt (Nat.lt_irrefl _)
      case inr hne => exact absurd hidle hne.right
  holds {e} _ _ _ hr hp := by
    cases (hs e.node).runs hr
    case inl hr => exact hi.holds hr hp
    case inr hr =>
      obtain ⟨_, _, _, hempty⟩ := hr
      rw [hempty] at hp
      cases Finset.notMem_empty _ hp
  found           := hi.found
  follows         := hi.follows

-- What the application does changes neither the round nor the endpoints.
theorem application_cases {node : SessionNode S} {unphased : ConnectorUnphased S}
    {comm : ConnectorCommunication}
    (h : Connector.Application pd node.connector ⟨unphased, .communication comm⟩) :
    unphased.native_component_id = node.unphased.native_component_id ∧
    comm = { node.comm with native_batches := comm.native_batches } := by
  generalize hc : (⟨unphased, .communication comm⟩ : Connector S) = c' at h
  cases h
  case newPortPair h =>
    simp only [Connector.new_port_pair, Option.bind_eq_bind, Option.bind_eq_some_iff, Option.pure_def,
      Option.some.injEq, Prod.mk.injEq] at h
    obtain ⟨_, _, h, _⟩ := h
    cases h.trans hc.symm
    exact ⟨rfl, rfl⟩
  case addComponent h =>
    simp only [Connector.add_component, Result.bind_eq_ok, Result.pure_eq_ok] at h
    obtain ⟨_, _, _, _, h⟩ := h
    cases h.trans hc.symm
    exact ⟨rfl, rfl⟩
  case nextBatch h =>
    cases h
    cases hc
    exact ⟨rfl, rfl⟩
  case put h =>
    obtain ⟨comm', _, hp, _, _, h⟩ := Connector.put_cases h
    cases hp
    cases hc.trans h
    exact ⟨rfl, rfl⟩
  case get h =>
    obtain ⟨comm', _, hp, _, _, h⟩ := Connector.get_cases h
    cases hp
    cases hc.trans h
    exact ⟨rfl, rfl⟩

-- Appending an act other than a step of a round adds nothing to what was said and decided.
theorem decides_append (ha : ∀ k node b pr, a ≠ .steps k node b pr) :
    Decides (as ++ [a]) k r d round ↔ Decides as k r d round := by
  constructor
  case mp =>
    rintro ⟨node, b, pr, hm, h⟩
    cases List.mem_append.mp hm
    case inl hm => exact ⟨node, b, pr, hm, h⟩
    case inr hm => exact (ha _ _ _ _ (List.mem_singleton.mp hm).symm).elim
  case mpr =>
    rintro ⟨node, b, pr, hm, h⟩
    exact ⟨node, b, pr, List.mem_append_left _ hm, h⟩

theorem suggests_append (ha : ∀ k node b pr, a ≠ .steps k node b pr) :
    Suggests (as ++ [a]) k r q ↔ Suggests as k r q := by
  constructor
  case mp =>
    rintro ⟨node, b, pr, i, hm, h⟩
    cases List.mem_append.mp hm
    case inl hm => exact ⟨node, b, pr, i, hm, h⟩
    case inr hm => exact (ha _ _ _ _ (List.mem_singleton.mp hm).symm).elim
  case mpr =>
    rintro ⟨node, b, pr, i, hm, h⟩
    exact ⟨node, b, pr, i, List.mem_append_left _ hm, h⟩

theorem runs_append (ha : ∀ k node b pr, a ≠ .steps k node b pr) :
    Runs (as ++ [a]) s k r round ↔ Runs as s k r round := by
  simp only [Runs, decides_append ha]

theorem Inv.append (hi : Inv neighborhoods as s) (ha : ∀ k node b pr, a ≠ .steps k node b pr) :
    Inv neighborhoods (as ++ [a]) s where
  neighborhood   := hi.neighborhood
  announced h    := (hi.announced h).imp fun _ => (decides_append ha).mpr
  suggested h    := (suggests_append ha).mpr (hi.suggested h)
  decided h      := (decides_append ha).mpr (hi.decided h)
  begun h        := hi.begun ((suggests_append ha).mp h)
  «over» h       := hi.over ((decides_append ha).mp h)
  once h h'      := hi.once ((decides_append ha).mp h) ((decides_append ha).mp h')
  tracks h       := hi.tracks ((runs_append ha).mp h)
  supports h h'  := hi.supports ((suggests_append ha).mp h) ((runs_append ha).mp h')
  holds h hp     := (suggests_append ha).mpr (hi.holds ((runs_append ha).mp h) hp)
  found h        := hi.found ((decides_append ha).mp h)
  follows h hp   := (hi.follows ((decides_append ha).mp h) hp).imp fun _ => (decides_append ha).mpr

section

variable {node : SessionNode S} {b : Round.Act} {pr : Progress S} {k' : K} {r' : Nat}
variable {round' : Round S}

theorem decides_steps : Decides (as ++ [.steps k node b pr]) k' r' d round' ↔
    Decides as k' r' d round' ∨
    k' = k ∧ r' = node.comm.round_index ∧ pr.decision = some d ∧ round' = pr.round := by
  constructor
  case mp =>
    rintro ⟨n, b', p, hm, hi, hd, hr⟩
    cases List.mem_append.mp hm
    case inl hm => exact .inl ⟨n, b', p, hm, hi, hd, hr⟩
    case inr hm =>
      cases List.mem_singleton.mp hm
      exact .inr ⟨rfl, hi.symm, hd, hr.symm⟩
  case mpr =>
    intro h
    cases h
    case inl h =>
      obtain ⟨n, b', p, hm, h⟩ := h
      exact ⟨n, b', p, List.mem_append_left _ hm, h⟩
    case inr h =>
      obtain ⟨hk, hi, hd, hr⟩ := h
      subst hk
      exact ⟨node, b, pr, List.mem_append_right _ (.head _), hi.symm, hd, hr.symm⟩

theorem suggests_steps : Suggests (as ++ [.steps k node b pr]) k' r' q ↔ Suggests as k' r' q ∨
    k' = k ∧ r' = node.comm.round_index ∧
    ∃ i, (i, .commCtrl (.suggest (.success q))) ∈ pr.out := by
  constructor
  case mp =>
    rintro ⟨n, b', p, i, hm, hi, ho⟩
    cases List.mem_append.mp hm
    case inl hm => exact .inl ⟨n, b', p, i, hm, hi, ho⟩
    case inr hm =>
      cases List.mem_singleton.mp hm
      exact .inr ⟨rfl, hi.symm, i, ho⟩
  case mpr =>
    intro h
    cases h
    case inl h =>
      obtain ⟨n, b', p, i, hm, h⟩ := h
      exact ⟨n, b', p, i, List.mem_append_left _ hm, h⟩
    case inr h =>
      obtain ⟨hk, hi, i, ho⟩ := h
      subst hk
      exact ⟨node, b, pr, i, List.mem_append_right _ (.head _), hi.symm, ho⟩

end

section Acts

variable [DecidableEq K] {node : SessionNode S} {out : List (Nat × CommMsgContents)} {e : net.End}
variable {msg : Msg}

-- A message of the new state was pending before, was taken from a connection, or has just been sent.
theorem pending_act {t : net.Session S} (ht : t.node = s.node) (hch : ∀ {e m}, m ∈ t.chan e → m ∈ s.chan e)
    (h : Pending (t.act k node (outbox r out)) e msg) :
    Pending s e msg ∨
    (e.node = k ∧ Round.Waits node.comm.endpoint_manager (e.index, msg)) ∨
    ((net.peer e).node = k ∧ ∃ contents, msg = .commMsg ⟨r, contents⟩ ∧
      ((net.peer e).index, contents) ∈ out) := by
  cases h
  case inr hw =>
    by_cases hk : e.node = k
    case pos =>
      subst hk
      rw [State.act_node_self] at hw
      exact .inr (.inl ⟨rfl, hw⟩)
    case neg =>
      rw [State.act_node_ne hk, ht] at hw
      exact .inl (.inr hw)
  case inl hm =>
    cases List.mem_append.mp hm
    case inl hm => exact .inl (.inl (hch hm))
    case inr hm =>
      simp only [incoming] at hm
      split at hm
      case isFalse => cases hm
      case isTrue hk =>
        obtain ⟨x, hx, he⟩ := List.mem_filterMap.mp hm
        obtain ⟨y, hy, hxy⟩ := List.mem_map.mp hx
        subst hxy
        simp only at he
        split at he
        case isFalse => cases he
        case isTrue hy' =>
          cases he
          exact .inr (.inr ⟨hk, y.2, rfl, hy' ▸ hy⟩)

theorem mem_of_mem_pop {e₀ : net.End} (h : msg ∈ (s.pop e₀).chan e) : msg ∈ s.chan e := by
  simp only [State.pop, Function.update_apply] at h
  split at h
  case isTrue he => exact he ▸ List.mem_of_mem_tail h
  case isFalse   => exact h

-- An act of one connector that is not a step of a round.
theorem Inv.acts {t : net.Session S} (hi : Inv neighborhoods as s) (ht : t.node = s.node)
    (hch : ∀ {e m}, m ∈ t.chan e → m ∈ s.chan e) (ha : Advances (s.node k) node)
    (hn : node.comm.neighborhood = (s.node k).comm.neighborhood)
    (hc : node.unphased.native_component_id = (s.node k).unphased.native_component_id)
    (hw : ∀ {e : net.End} {m}, e.node = k → Round.Waits node.comm.endpoint_manager (e.index, m) →
      Pending s e m)
    (hout : ∀ x ∈ out, ∃ d round, x.2 = .commCtrl (.announce d) ∧ Decides as k r d round) :
    Inv neighborhoods as (t.act k node (outbox r out)) := by
  apply hi.advances
  case hs =>
    intro k'
    rw [State.act_node, ht]
    split
    case isTrue hk => exact hk ▸ ha
    case isFalse   => exact .same rfl rfl
  case hn =>
    intro k'
    rw [State.act_node, ht]
    split
    case isTrue hk => exact hk ▸ hn
    case isFalse   => rfl
  case hc =>
    intro k'
    rw [State.act_node, ht]
    split
    case isTrue hk => exact hk ▸ hc
    case isFalse   => rfl
  case ha =>
    intro e r' d h
    cases pending_act ht hch h
    case inl h => exact .inl h
    case inr h =>
      cases h
      case inl h => exact .inl (hw h.left h.right)
      case inr h =>
        obtain ⟨hk, contents, hm, hx⟩ := h
        obtain ⟨d', round, he, hd⟩ := hout _ hx
        cases hm
        cases he
        exact .inr ⟨round, hk ▸ hd⟩
  case hq =>
    intro e r' q h
    cases pending_act ht hch h
    case inl h => exact h
    case inr h =>
      cases h
      case inl h => exact hw h.left h.right
      case inr h =>
        obtain ⟨_, contents, hm, hx⟩ := h
        obtain ⟨_, _, he, _⟩ := hout _ hx
        cases hm
        cases he

theorem Inv.acts_silently {t : net.Session S} (hi : Inv neighborhoods as s) (ht : t.node = s.node)
    (hch : ∀ {e m}, m ∈ t.chan e → m ∈ s.chan e) (ha : Advances (s.node k) node)
    (hn : node.comm.neighborhood = (s.node k).comm.neighborhood)
    (hc : node.unphased.native_component_id = (s.node k).unphased.native_component_id)
    (hw : ∀ {e : net.End} {m}, e.node = k → Round.Waits node.comm.endpoint_manager (e.index, m) →
      Pending s e m) : Inv neighborhoods as (t.act k node []) :=
  @Inv.acts _ _ _ _ _ _ _ 0 _ _ [] t hi ht hch ha hn hc hw nofun

theorem waits_progress {pr : Progress S} {x : Nat × Msg} :
    Round.Waits (node.progress pr).comm.endpoint_manager x ↔ Round.Waits pr.endpoint_manager x := by
  unfold SessionNode.progress
  cases pr.decision
  case none => rfl
  case some decision => cases decision <;> rfl

theorem progress_comm {pr : Progress S} :
    (node.progress pr).comm.round_index = node.comm.round_index ∧
    (node.progress pr).comm.neighborhood = node.comm.neighborhood ∧
    (node.progress pr).unphased = node.unphased := by
  unfold SessionNode.progress
  cases pr.decision <;> exact ⟨rfl, rfl, rfl⟩

theorem progress_sync {pr : Progress S} :
    (pr.decision = none ∧ (node.progress pr).sync = .undecided pr.round) ∨
    ∃ d rest, pr.decision = some d ∧ (node.progress pr).sync = .decided pr.round d rest := by
  unfold SessionNode.progress
  cases pr.decision
  case none   => exact .inl ⟨rfl, rfl⟩
  case some d => exact .inr ⟨d, _, rfl, rfl⟩

section Steps

variable {b : Round.Act} {pr : Progress S} {k' : K} {r' : Nat} {round' : Round S}

-- The round that takes the step is followed by the one that the step leads to.
theorem Inv.runs_steps {t : net.Session S} (hi : Inv neighborhoods as s) (ht : t.node = s.node)
    (hs : (s.node k).sync = .undecided round)
    (hr : Runs (as ++ [.steps k (s.node k) b pr]) (t.act k ((s.node k).progress pr) (outbox r out))
      k' r' round') :
    (Runs as s k' r' round' ∧ (k' = k → r' ≠ (s.node k).comm.round_index)) ∨
    k' = k ∧ r' = (s.node k).comm.round_index ∧ round' = pr.round := by
  cases hr
  case inl hr =>
    rw [State.act_node, ht] at hr
    split at hr
    case isFalse hk => exact .inl ⟨.inl hr, fun he => absurd he hk⟩
    case isTrue hk =>
      obtain ⟨hi, hu⟩ := hr
      cases @progress_sync _ (s.node k) pr
      case inl h =>
        cases hu.symm.trans h.right
        exact .inr ⟨hk, hi ▸ progress_comm.left, rfl⟩
      case inr h =>
        obtain ⟨_, _, _, h⟩ := h
        cases hu.symm.trans h
  case inr hr =>
    obtain ⟨d, hd⟩ := hr
    cases decides_steps.mp hd
    case inr h => exact .inr ⟨h.left, h.right.left, h.right.right.right⟩
    case inl h =>
      refine .inl ⟨.inr ⟨d, h⟩, fun hk he => ?_⟩
      subst hk he
      cases hi.over h
      case inl hlt => exact Nat.lt_irrefl _ hlt
      case inr ho =>
        obtain ⟨_, _, ho⟩ := ho
        cases hs.symm.trans ho

theorem Inv.steps {t : net.Session S} (hi : Inv neighborhoods as s) (ht : t.node = s.node)
    (hch : ∀ {e m}, m ∈ t.chan e → m ∈ s.chan e) (hs : (s.node k).sync = .undecided round)
    (hr : Round.step pd (s.node k).unphased.native_component_id (s.node k).comm round b = .ok pr)
    (hm : ∀ {e : net.End} {m}, e.node = k → b = .net e.index m → Pending s e m) :
    Inv neighborhoods (as ++ [.steps k (s.node k) b pr])
      (t.act k ((s.node k).progress pr) (outbox (s.node k).comm.round_index pr.out)) := by
  have hrun : Runs as s k (s.node k).comm.round_index round := .inl ⟨rfl, hs⟩
  have htracks := hi.tracks hrun
  have heffect {ids} (hsound : round.storage.Sound ids) := (Round.step_cases hr).effect hsound
  obtain ⟨_, hsound, _⟩ := hi.tracks hrun
  obtain ⟨hcollects, htells, hwaits⟩ := heffect hsound
  have htaken {e : net.End} {m} (he : e.node = k)
      (h : Round.Takes (s.node k).comm b (e.index, m)) : Pending s e m :=
    h.elim (hm he) fun h => .inr (.inr (he ▸ h))
  have hpending {e : net.End} {m : CommCtrlMsg} {r'} (h : Pending (t.act k ((s.node k).progress pr)
      (outbox (s.node k).comm.round_index pr.out)) e (.commMsg ⟨r', .commCtrl m⟩)) :
      Pending s e (.commMsg ⟨r', .commCtrl m⟩) ∨ (net.peer e).node = k ∧
        r' = (s.node k).comm.round_index ∧ ((net.peer e).index, .commCtrl m) ∈ pr.out := by
    cases pending_act ht hch h
    case inl h => exact .inl h
    case inr h =>
      cases h
      case inl h =>
        cases hwaits (waits_progress.mp h.right)
        case inl hw => exact .inl (.inr (h.left ▸ hw))
        case inr hw => exact .inl (htaken h.left hw)
      case inr h =>
        obtain ⟨hk, contents, he, hx⟩ := h
        cases he
        exact .inr ⟨hk, rfl, hx⟩
  constructor
  case neighborhood =>
    intro k'
    rw [State.act_node, ht]
    split
    case isTrue hk => exact progress_comm.right.left.trans (hk ▸ hi.neighborhood k')
    case isFalse   => exact hi.neighborhood k'
  case announced =>
    intro e r' d h
    cases hpending h
    case inl h => exact (hi.announced h).imp fun _ h => decides_steps.mpr (.inl h)
    case inr h => exact absurd h.right.right htells.announces
  case suggested =>
    intro e r' q h
    cases hpending h
    case inl h => exact suggests_steps.mpr (.inl (hi.suggested h))
    case inr h => exact suggests_steps.mpr (.inr ⟨h.left, h.right.left, _, h.right.right⟩)
  case decided =>
    intro k' round' d rest h
    rw [State.act_node, ht] at h ⊢
    split at h
    case isFalse hk =>
      rw [if_neg hk]
      exact decides_steps.mpr (.inl (hi.decided h))
    case isTrue hk =>
      rw [if_pos hk, progress_comm.left]
      cases @progress_sync _ (s.node k) pr
      case inl h' => cases h.symm.trans h'.right
      case inr h' =>
        obtain ⟨_, _, hd, h'⟩ := h'
        cases h.symm.trans h'
        exact decides_steps.mpr (.inr ⟨hk, rfl, hd, rfl⟩)
  case begun =>
    intro k' r' q h
    rw [State.act_node, ht]
    split
    case isFalse hk =>
      exact hi.begun <| (suggests_steps.mp h).resolve_right fun h => hk h.left
    case isTrue hk =>
      have hne : ((s.node k).progress pr).sync ≠ .idle := by
        cases @progress_sync _ (s.node k) pr
        case inl h' => simp [h'.right]
        case inr h' =>
          obtain ⟨_, _, _, h'⟩ := h'
          simp [h']
      rw [progress_comm.left]
      subst hk
      cases suggests_steps.mp h
      case inl h => exact (hi.begun h).imp_right fun h => ⟨h.left, hne⟩
      case inr h => exact .inr ⟨h.right.left, hne⟩
  case «over» =>
    intro k' r' d round' h
    rw [State.act_node, ht]
    split
    case isFalse hk =>
      exact hi.over <| (decides_steps.mp h).resolve_right fun h => hk h.left
    case isTrue hk =>
      rw [progress_comm.left]
      subst hk
      cases decides_steps.mp h
      case inl h =>
        refine .inl ((hi.over h).resolve_right ?_)
        rintro ⟨_, _, ho⟩
        cases hs.symm.trans ho
      case inr h =>
        obtain ⟨_, hr', hd, he⟩ := h
        subst he
        refine .inr ⟨hr', ?_⟩
        cases @progress_sync _ (s.node k') pr
        case inl h' => cases hd.symm.trans h'.left
        case inr h' =>
          obtain ⟨_, rest, hd', h'⟩ := h'
          cases hd.symm.trans hd'
          exact ⟨rest, h'⟩
  case once =>
    intro k' r' d d' round₁ round₂ h h'
    have hold {d : Decision} {round' : Round S} (h : Decides as k (s.node k).comm.round_index d round') :
        False := by
      cases hi.over h
      case inl hlt => exact Nat.lt_irrefl _ hlt
      case inr ho =>
        obtain ⟨_, _, ho⟩ := ho
        cases hs.symm.trans ho
    cases decides_steps.mp h <;> cases decides_steps.mp h'
    case inl.inl h h' => exact hi.once h h'
    case inl.inr h h' => exact (hold (h'.left ▸ h'.right.left ▸ h)).elim
    case inr.inl h h' => exact (hold (h.left ▸ h.right.left ▸ h')).elim
    case inr.inr h h' =>
      cases h.right.right.left.symm.trans h'.right.right.left
      exact ⟨rfl, h.right.right.right.trans h'.right.right.right.symm⟩
  case tracks =>
    intro k' r' round' h
    have hc : ((t.act k ((s.node k).progress pr)
        (outbox (s.node k).comm.round_index pr.out)).node k').unphased = (s.node k').unphased := by
      rw [State.act_node, ht]
      split
      case isTrue hk => exact progress_comm.right.right.trans (hk ▸ rfl)
      case isFalse   => rfl
    rw [hc]
    cases hi.runs_steps ht hs h
    case inl h => exact hi.tracks h.left
    case inr h =>
      obtain ⟨hk, _, he⟩ := h
      subst hk he
      exact htracks.collects fun ids hsound => (heffect hsound).collects
  case supports =>
    intro k' r' q round' h hr'
    cases suggests_steps.mp h <;> cases hi.runs_steps ht hs hr'
    case inl.inl h hr' => exact hi.supports h hr'.left
    case inr.inl h hr' => exact absurd h.right.left (hr'.right h.left)
    case inl.inr h hr' =>
      obtain ⟨hk, hri, he⟩ := hr'
      rw [hk, hri] at h
      exact he ▸ hcollects.grows.supports (hi.supports h hrun)
    case inr.inr h hr' =>
      obtain ⟨_, _, he⟩ := hr'
      obtain ⟨_, _, _, hx⟩ := h
      exact he ▸ (htells.suggests hx).right
  case holds =>
    intro e r' p round' hr' hp
    apply suggests_steps.mpr
    cases hi.runs_steps ht hs hr'
    case inl hr' => exact .inl (hi.holds hr'.left hp)
    case inr hr' =>
      obtain ⟨hk, hri, he⟩ := hr'
      subst he
      cases hcollects.holds e.index p hp
      case inl hp =>
        subst hk
        exact .inl (hi.holds (hri ▸ hrun) hp)
      case inr hx => exact .inl (hri ▸ hi.suggested (htaken hk hx))
  case found =>
    intro k' r' q round' h hp
    cases decides_steps.mp h
    case inl h => exact hi.found h hp
    case inr h =>
      obtain ⟨hk, _, hd, he⟩ := h
      subst hk he
      cases htells.decides hd
      case inl h => exact h.right q rfl
      case inr h =>
        obtain ⟨_, hp', _⟩ := h
        rw [hi.neighborhood, hp] at hp'
        cases hp'
  case follows =>
    intro e r' d round' h hp
    cases decides_steps.mp h
    case inl h => exact (hi.follows h hp).imp fun _ h => decides_steps.mpr (.inl h)
    case inr h =>
      obtain ⟨hk, hri, hd, _⟩ := h
      cases htells.decides hd
      case inl h =>
        have hp' := hi.neighborhood k ▸ h.left
        rw [← hk, hp] at hp'
        cases hp'
      case inr h =>
        obtain ⟨i, hp', hx⟩ := h
        rw [hi.neighborhood, ← hk, hp] at hp'
        cases hp'
        obtain ⟨round₁, h⟩ := hi.announced (htaken hk hx)
        exact ⟨round₁, decides_steps.mpr (.inl (hri ▸ h))⟩

end Steps

theorem Inv.init (h : (session net neighborhoods pd).Init s) : Inv neighborhoods [] s := by
  obtain ⟨hn, hc⟩ := h
  have hpending {e : net.End} {m : CommMsg} (h : Pending s e (.commMsg m)) : False := by
    cases h
    case inl h =>
      obtain ⟨_, h⟩ := hc e _ h
      cases h
    case inr h =>
      obtain ⟨_, h⟩ := (hn e.node).right.right.right (e.index, .commMsg m) (List.mem_append.mpr h)
      cases h
  have hdecides {k : K} {r d} {round : Round S} : ¬Decides [] k r d round := by
    rintro ⟨_, _, _, h, _⟩
    exact List.not_mem_nil h
  have hsuggests {k : K} {r q} : ¬Suggests ([] : List (SessionAct K S)) k r q := by
    rintro ⟨_, _, _, _, h, _⟩
    exact List.not_mem_nil h
  have hruns {k : K} {r} {round : Round S} (h : Runs [] s k r round) : False := by
    cases h
    case inl h => cases (hn k).left.symm.trans h.right
    case inr h => exact h.elim fun _ h => hdecides h
  constructor
  case neighborhood => exact fun k => (hn k).right.right.left
  case announced    => exact fun h => (hpending h).elim
  case suggested    => exact fun h => (hpending h).elim
  case decided      => exact fun {k} _ _ _ h => nomatch (hn k).left.symm.trans h
  case begun        => exact fun h => (hsuggests h).elim
  case «over»       => exact fun h => (hdecides h).elim
  case once         => exact fun h => (hdecides h).elim
  case tracks       => exact fun h => (hruns h).elim
  case supports     => exact fun h => (hsuggests h).elim
  case holds        => exact fun h => (hruns h).elim
  case found        => exact fun h => (hdecides h).elim
  case follows      => exact fun h => (hdecides h).elim

theorem Inv.step (hi : Inv neighborhoods as s) (h : Step pd s a s') :
    Inv neighborhoods (as ++ [a]) s' := by
  have hsame {e : net.End} {k : K} {m} (hk : e.node = k)
      (h : Round.Waits (s.node k).comm.endpoint_manager (e.index, m)) : Pending s e m :=
    .inr (hk ▸ h)
  cases h
  case application hidle ha =>
    obtain ⟨hc, hcomm⟩ := application_cases ha
    refine (hi.append (by simp)).acts_silently rfl id (.same ?_ hidle.symm) ?_ hc ?_
    · rw [hcomm]
    · rw [hcomm]
    · intro e m hk h
      rw [hcomm] at h
      exact hsame hk h
  case delays e msg msgs hidle _ hm =>
    refine (hi.append (by simp)).acts_silently rfl mem_of_mem_pop (.same rfl rfl) rfl rfl ?_
    intro e' m hk h
    cases h
    case inr h => exact hsame hk (.inr h)
    case inl h =>
      cases List.mem_cons.mp h
      case inr h => exact hsame hk (.inl h)
      case inl h =>
        have he : e' = e := Endpoint.ext hk (congrArg Prod.fst h)
        cases congrArg Prod.snd h
        exact .inl (he ▸ hm ▸ .head _)
  case begins k timeout orders round hidle _ hb =>
    obtain ⟨ht, he⟩ := begin_round_tracks hb
    exact (hi.append (by simp)).acts_silently rfl id (.begins rfl hidle rfl ht he) rfl rfl hsame
  case inconsistent =>
    exact (hi.append (by simp)).acts_silently rfl id (.ends rfl rfl) rfl rfl hsame
  case steps hs hnet hr =>
    exact hi.steps rfl id hs hr fun _ hb => (hnet _ _ hb).elim
  case recv e msg msgs round pr hs hm hr =>
    refine hi.steps rfl mem_of_mem_pop hs hr fun {e' m} hk hb => ?_
    obtain ⟨hi, hmsg⟩ := Round.Act.net.inj hb
    have he : e' = e := Endpoint.ext hk hi.symm
    exact .inl (he ▸ hmsg ▸ hm ▸ .head _)
  case announces k round decision child rest hs =>
    refine Inv.acts (hi.append (by simp)) rfl id (.announces rfl hs rfl) rfl rfl hsame fun x hx => ?_
    cases List.mem_singleton.mp hx
    exact ⟨decision, round, rfl, (hi.append (by simp)).decided hs⟩
  case ends k round decision orders node hs hc =>
    obtain ⟨hindex, hsync, hn, hem, _, hid⟩ := SessionNode.commit_cases hc
    refine (hi.append (by simp)).acts_silently rfl id (.ends hindex hsync) hn hid fun hk h => hsame hk ?_
    rwa [hem] at h
  case breaks =>
    exact (hi.append (by simp)).acts_silently rfl id (.ends rfl rfl) rfl rfl hsame

end Acts

variable [DecidableEq K]

theorem Inv.run (h : (session net neighborhoods pd).Run as s) : Inv neighborhoods as s := by
  induction h with
  | init h      => exact .init h
  | step _ h ih => exact ih.step h

end

variable {K : Type} [DecidableEq K] {net : Topology K} {neighborhoods : K → Neighborhood} {root : K}
variable {pd : ProtocolDescription S} {as : List (SessionAct K S)} {s : net.Session S}

-- A protocol without any components.
def idle : ProtocolDescription Unit where
  sync _                   := .inconsistent
  nonsync _                := .exit
  component_polarities _ _ := .error .noSuchModule
  new_component _ _ _      := ()

end Topology.Session
end Reowolf
