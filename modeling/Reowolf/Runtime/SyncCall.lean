import Reowolf.Runtime.Nonsync
import Reowolf.Runtime.Session

namespace Reowolf

variable {S : Type}

namespace SessionNode

-- What can happen to one connector of a session, whatever the other connectors send to it.
inductive Act (S : Type)
  | application
  | delays (net_index : Nat) (msg : Msg)
  | begins (round : Round S)
  | inconsistent (cid : ComponentId)
  | steps (a : Round.Act) (pr : Progress S)
  | announces
  | ends (decision : Decision) (round : Round S)
  | breaks

inductive Step (pd : ProtocolDescription S) (node : SessionNode S) : Act S → SessionNode S → Prop
  | application {unphased comm} :
    node.sync = .idle →
    Connector.Application pd node.connector ⟨unphased, .communication comm⟩ →
    Step pd node .application ⟨unphased, comm, .idle⟩
  | delays {net_index msg} :
    node.sync = .idle →
    node.comm.round_index = 0 →
    Step pd node (.delays net_index msg) (node.delay net_index msg)
  | begins {timeout orders round} :
    node.sync = .idle →
    (∀ err, node.comm.round_result ≠ .error (.unrecoverable err)) →
    begin_round pd node.unphased node.comm timeout orders = .ok (.ok round) →
    Step pd node (.begins round) (node.begins round)
  | inconsistent {timeout orders cid} :
    node.sync = .idle →
    (∀ err, node.comm.round_result ≠ .error (.unrecoverable err)) →
    begin_round pd node.unphased node.comm timeout orders = .ok (.error cid) →
    Step pd node (.inconsistent cid) (node.end_round (.error (.inconsistentProtoComponent cid)))
  | steps {round a pr} :
    node.sync = .undecided round →
    Round.step pd node.unphased.native_component_id node.comm round a = .ok pr →
    Step pd node (.steps a pr) (node.progress pr)
  | announces {round decision child unannounced} :
    node.sync = .decided round decision (child :: unannounced) →
    Step pd node .announces { node with sync := .decided round decision unannounced }
  | ends {round decision orders node'} :
    node.sync = .decided round decision [] →
    node.commit round orders decision = .ok node' →
    Step pd node (.ends decision round) node'
  | breaks {err} :
    node.sync ≠ .idle →
    Step pd node .breaks (node.end_round (.error (.unrecoverable err)))

-- A call of `sync` that has not returned yet, and what happened in it.
inductive Syncing (pd : ProtocolDescription S) (node : SessionNode S) :
    List (Act S) → SessionNode S → Prop
  | begins {round node'} :
    Step pd node (.begins round) node' →
    Syncing pd node [.begins round] node'
  | continues {as n a n'} :
    Syncing pd node as n →
    Step pd n a n' →
    n'.sync ≠ .idle →
    Syncing pd node (as ++ [a]) n'

-- A call of `sync` that returns.
inductive Sync (pd : ProtocolDescription S) (node : SessionNode S) :
    List (Act S) → SessionNode S → Prop
  | unusable {err} :
    node.sync = .idle →
    node.comm.round_result = .error (.unrecoverable err) →
    Sync pd node [] node
  | inconsistent {cid node'} :
    Step pd node (.inconsistent cid) node' →
    Sync pd node [.inconsistent cid] node'
  | returns {as n a node'} :
    Syncing pd node as n →
    Step pd n a node' →
    node'.sync = .idle →
    Sync pd node (as ++ [a]) node'

variable {pd : ProtocolDescription S} {node node' n : SessionNode S} {a : Act S} {as : List (Act S)}

theorem progress_cases {pr : Progress S} :
    (node.progress pr).unphased = node.unphased ∧
    (node.progress pr).comm.native_batches = node.comm.native_batches ∧
    (node.progress pr).comm.round_result = node.comm.round_result ∧
    (node.progress pr).sync ≠ .idle := by
  unfold progress
  cases pr.decision
  case none   => exact ⟨rfl, rfl, rfl, nofun⟩
  case some d => exact ⟨rfl, rfl, rfl, nofun⟩

-- The components' states are those of ended branches that are consistent with the solution.
structure Commits (round : Round S) (predicate : Predicate)
    (proto_components : HashMap ComponentId S) : Prop where
  components : ∀ {cid}, (∃ state, proto_components.get? cid = some state) ↔
               ∃ component, round.branching_proto_components.get? cid = some component
  branches   : ∀ {cid state}, proto_components.get? cid = some state → ∃ component p branch,
               round.branching_proto_components.get? cid = some component ∧
               component.branches.get? p = some branch ∧ branch.ended ∧ p ⊆ predicate ∧
               branch.state = state

theorem collapse_with_cases {branches : Branches S} {order : List Predicate} {predicate : Predicate}
    {state : S} (h : BranchingProtoComponent.collapse_with branches order predicate = .ok state) :
    ∃ p branch, branches.get? p = some branch ∧ branch.ended ∧ p ⊆ predicate ∧
    branch.state = state := by
  simp only [BranchingProtoComponent.collapse_with, SyncResult.bind_eq_ok,
    SyncResult.unwrap_eq_ok] at h
  obtain ⟨_, _, branch, hf, h⟩ := h
  cases h
  obtain ⟨p, _, hp⟩ := List.exists_of_findSome?_eq_some hf
  obtain ⟨_, hb, hp⟩ := Option.bind_eq_some_iff.mp hp
  split at hp
  case isFalse => cases hp
  case isTrue he =>
    cases hp
    exact ⟨p, branch, hb, he.left, Predicate.assigns_subset_iff.mp he.right, rfl⟩

theorem collapse_components_cases {components : Components S} {predicate : Predicate}
    {orders : List (ComponentId × List Predicate)} {acc collapsed : HashMap ComponentId S}
    (h : collapse_components components predicate orders acc = .ok collapsed) :
    (∀ cid, (∃ state, collapsed.get? cid = some state) ↔
      cid ∈ orders.map (·.1) ∨ ∃ state, acc.get? cid = some state) ∧
    ∀ cid state, collapsed.get? cid = some state → acc.get? cid = some state ∨
      ∃ component p branch, components.get? cid = some component ∧
      component.branches.get? p = some branch ∧ branch.ended ∧ p ⊆ predicate ∧
      branch.state = state := by
  induction orders generalizing acc with
  | nil =>
    cases h
    exact ⟨by simp, fun _ _ h => .inl h⟩
  | cons o orders ih =>
    obtain ⟨cid₀, order⟩ := o
    unfold collapse_components at h
    split at h
    case h_1 => cases h
    case h_2 component hc =>
      obtain ⟨state₀, hs, h⟩ := SyncResult.bind_eq_ok.mp h
      obtain ⟨hmem, hstate⟩ := ih h
      constructor
      case left =>
        intro cid
        rw [hmem, HashMap.get?_insert]
        by_cases he : cid = cid₀ <;> simp [he]
      case right =>
        intro cid state hcol
        have hor := hstate cid state hcol
        rw [HashMap.get?_insert] at hor
        split at hor
        case isFalse => exact hor
        case isTrue he =>
          subst he
          refine .inr (hor.elim (fun hor => ?_) id)
          cases hor
          obtain ⟨p, branch, hb⟩ := collapse_with_cases hs
          exact ⟨component, p, branch, hc, hb⟩

theorem commit_success {round : Round S} {orders : CommitOrders} {predicate : Predicate}
    (h : node.commit round orders (.success predicate) = .ok node') :
    (∃ round_ok, node'.comm.round_result = .ok (some round_ok)) ∧
    node'.unphased.ips = round.rctx.ips ∧
    Commits round predicate node'.unphased.proto_components := by
  simp only [commit, SyncResult.bind_eq_ok, SyncResult.choose_eq_ok] at h
  obtain ⟨_, ho, collapsed, hc, round_ok, _, h⟩ := h
  cases h
  obtain ⟨hmem, hstate⟩ := collapse_components_cases hc
  refine ⟨⟨round_ok, rfl⟩, rfl, ⟨fun {cid} => ?_, fun {cid state} hs => ?_⟩⟩
  · have hk := hmem cid
    simp only [HashMap.get?_empty, reduceCtorEq, exists_false, or_false] at hk
    exact hk.trans (ho.mem_iff.trans HashMap.mem_keys_iff)
  · exact (hstate cid state hs).resolve_left (by simp)

-- Within a call nothing is committed, and the batches are reset.
theorem Syncing.invariant (h : Syncing pd node as n) :
    n.unphased = node.unphased ∧ n.comm.native_batches = [∅] ∧ n.sync ≠ .idle := by
  induction h with
  | begins h =>
    cases h
    exact ⟨rfl, rfl, nofun⟩
  | continues _ h hi ih =>
    obtain ⟨hu, hb, hs⟩ := ih
    cases h
    case application hn _    => exact (hs hn).elim
    case delays hn _         => exact (hs hn).elim
    case begins hn _ _       => exact (hs hn).elim
    case inconsistent hn _ _ => exact (hs hn).elim
    case steps               => exact ⟨progress_cases.left.trans hu, progress_cases.right.left.trans hb, hi⟩
    case announces           => exact ⟨hu, hb, hi⟩
    case ends hc             => exact (hi (commit_cases hc).right.left).elim
    case breaks              => exact (hi rfl).elim

-- A round that is committed leaves what it led to. Otherwise all is as before the call, and in any
-- case there is a new empty batch, unless the session is over.
structure Atomic (node : SessionNode S) (as : List (Act S)) (node' : SessionNode S) : Prop where
  batches  : (∀ err, node'.comm.round_result ≠ .error (.unrecoverable err)) →
             node'.comm.native_batches = [∅]
  rollback : ∀ {err}, node'.comm.round_result = .error err → node'.unphased = node.unphased
  commits  : ∀ {round_ok}, node'.comm.round_result = .ok round_ok → ∃ round predicate,
             .ends (.success predicate) round ∈ as ∧ node'.unphased.ips = round.rctx.ips ∧
             Commits round predicate node'.unphased.proto_components

theorem Sync.atomic (h : Sync pd node as node') (hn : ∀ cid, .inconsistent cid ∉ as) :
    Atomic node as node' := by
  cases h
  case unusable hr =>
    exact ⟨fun h => (h _ hr).elim, fun _ => rfl, fun h => nomatch hr.symm.trans h⟩
  case inconsistent => exact (hn _ (.head _)).elim
  case returns hs h hi =>
    obtain ⟨hu, hb, hne⟩ := hs.invariant
    cases h
    case application h _    => exact (hne h).elim
    case delays h _         => exact (hne h).elim
    case begins h _ _       => exact (hne h).elim
    case inconsistent h _ _ => exact (hne h).elim
    case steps              => exact (progress_cases.right.right.right hi).elim
    case announces          => cases hi
    case breaks             => exact ⟨fun h => (h _ rfl).elim, fun _ => hu, nofun⟩
    case ends round d orders hd hc =>
      have hb' : node'.comm.native_batches = [∅] := (commit_cases hc).right.right.right.right.left.trans hb
      cases d
      case failure =>
        cases hc
        exact ⟨fun _ => hb, fun _ => hu, nofun⟩
      case success predicate =>
        obtain ⟨⟨_, hok⟩, hips, hcommits⟩ := commit_success hc
        exact ⟨fun _ => hb', fun h => (nomatch hok.symm.trans h), fun _ =>
          ⟨round, predicate, List.mem_append_right _ (.head _), hips, hcommits⟩⟩

-- Only with the beginning of a round an idle connector enters a call.
theorem Step.syncing (h : Step pd node a node') (hs : node.sync = .idle) (hs' : node'.sync ≠ .idle) :
    Syncing pd node [a] node' := by
  cases h
  case application        => exact (hs' rfl).elim
  case delays             => exact (hs' hs).elim
  case begins hi hr hb    => exact .begins (.begins hi hr hb)
  case inconsistent       => exact (hs' rfl).elim
  case steps hu _         => cases hs.symm.trans hu
  case announces hd       => cases hs.symm.trans hd
  case ends hd _          => cases hs.symm.trans hd
  case breaks             => exact (hs' rfl).elim

-- A component can only be found inconsistent before the round begins.
theorem Syncing.consistent {cid : ComponentId} (h : Syncing pd node as n) : .inconsistent cid ∉ as := by
  induction h with
  | begins h => exact fun hm => nomatch List.mem_singleton.mp hm
  | continues hs h hi ih =>
    intro hm
    cases List.mem_append.mp hm
    case inl hm => exact ih hm
    case inr hm =>
      cases List.mem_singleton.mp hm
      cases h
      exact hi rfl

-- Then the call returns at once, and leaves the batches as they are.
theorem Sync.of_inconsistent {cid : ComponentId} (h : Sync pd node as node')
    (hm : .inconsistent cid ∈ as) :
    node' = node.end_round (.error (.inconsistentProtoComponent cid)) := by
  cases h
  case unusable => cases hm
  case inconsistent h =>
    cases h
    cases List.mem_singleton.mp hm
    rfl
  case returns hs h hi =>
    cases List.mem_append.mp hm
    case inl hm => exact (hs.consistent hm).elim
    case inr hm =>
      cases List.mem_singleton.mp hm
      cases h
      case inconsistent hn _ _ => exact (hs.invariant.right.right hn).elim

theorem sync_atomic_iff (h : Sync pd node as node') : Atomic node as node' ↔
    (∀ cid, .inconsistent cid ∉ as) ∨ node.comm.native_batches = [∅] := by
  constructor
  case mp =>
    intro ha
    by_cases hn : ∀ cid, .inconsistent cid ∉ as
    case pos => exact .inl hn
    case neg =>
      obtain ⟨cid, hm⟩ := not_forall_not.mp hn
      have hb := ha.batches
      cases h.of_inconsistent hm
      exact .inr (hb nofun)
  case mpr =>
    intro hor
    by_cases hn : ∀ cid, .inconsistent cid ∉ as
    case pos => exact h.atomic hn
    case neg =>
      obtain ⟨cid, hm⟩ := not_forall_not.mp hn
      cases h.of_inconsistent hm
      exact ⟨fun _ => hor.resolve_left hn, fun _ => rfl, nofun⟩

-- A protocol whose components are inconsistent at once.
def inconsistent : ProtocolDescription Unit where
  sync _                   := .inconsistent
  nonsync _                := .inconsistent
  component_polarities _ _ := .ok []
  new_component _ _ _      := ()

-- A connector without any ports, which is connected to no other.
def alone (proto_components : HashMap ComponentId Unit) (native_batches : List NativeBatch) :
    SessionNode Unit where
  unphased := ⟨proto_components, ⟨⟨∅, ∅⟩, ⟨0, ⟨0⟩, ⟨2⟩⟩⟩, ⟨0, 0⟩⟩
  comm     := ⟨0, ⟨[], [], [], []⟩, ⟨none, []⟩, native_batches, .ok none⟩
  sync     := .idle

theorem sync_atomic_iff_alone : ∃ as node', Sync inconsistent (alone ∅ [∅]) as node' ∧
    Atomic (alone ∅ [∅]) as node' := by
  have h₀ : Syncing inconsistent (alone ∅ [∅]) _ _ := .begins <| .begins rfl nofun
    (rfl : begin_round inconsistent _ _ false ⟨0, [], [], [⟨[], [], []⟩]⟩ = .ok (.ok _))
  have h₁ := h₀.continues (.steps rfl (rfl : Round.step _ _ _ _ (.checkNative []) = .ok _)) nofun
  have h₂ := h₁.continues (.steps rfl (rfl : Round.step _ _ _ _ .enterLoop = .ok _)) nofun
  have h₃ := h₂.continues (.steps rfl (rfl : Round.step _ _ _ _ .routed = .ok _)) nofun
  have h₄ := h₃.continues (.steps rfl
    (rfl : Round.step _ _ _ _ (.forward (.singleton ⟨0, 100⟩ (.iter_domain 0))) = .ok _)) nofun
  have h : Sync inconsistent (alone ∅ [∅]) _ _ := .returns h₄ (.ends rfl
    (rfl : SessionNode.commit _ _ ⟨[], [.singleton ⟨0, 100⟩ (.iter_domain 0)]⟩ _ = .ok _)) rfl
  exact ⟨_, _, h, (sync_atomic_iff h).mpr (.inr rfl)⟩

theorem inconsistent_not_atomic : ∃ as node',
    Sync inconsistent (alone (HashMap.insert ∅ ⟨0, 1⟩ ()) [∅, ∅]) as node' ∧
    ¬Atomic (alone (HashMap.insert ∅ ⟨0, 1⟩ ()) [∅, ∅]) as node' := by
  have h : Sync inconsistent (alone (HashMap.insert ∅ ⟨0, 1⟩ ()) [∅, ∅]) _ _ :=
    .inconsistent <| .inconsistent rfl nofun
      (rfl : begin_round inconsistent _ _ false ⟨2, [⟨0, 1⟩], [], []⟩ = .ok (.error ⟨0, 1⟩))
  exact ⟨_, _, h, fun ha => nomatch ha.batches nofun⟩

end SessionNode

namespace Topology.Session

variable {K : Type} [DecidableEq K] {net : Topology K} {pd : ProtocolDescription S}
variable {neighborhoods : K → Neighborhood} {s s' : net.Session S} {a : SessionAct K S} {k : K}

-- A step of a session is a step of one of its connectors.
theorem Step.node (h : Step pd s a s') : ∃ k b, SessionNode.Step pd (s.node k) b (s'.node k) ∧
    ∀ k' ≠ k, s'.node k' = s.node k' := by
  cases h
  case application k unphased comm hs ha =>
    exact ⟨k, _, by rw [State.act_node_self]; exact .application hs ha, fun _ => State.act_node_ne⟩
  case delays e msg msgs hs hi _ =>
    exact ⟨e.node, _, by rw [State.act_node_self]; exact .delays hs hi, fun _ => State.act_node_ne⟩
  case begins k timeout orders round hs hr hb =>
    exact ⟨k, _, by rw [State.act_node_self]; exact .begins hs hr hb, fun _ => State.act_node_ne⟩
  case inconsistent k timeout orders cid hs hr hb =>
    exact ⟨k, _, by rw [State.act_node_self]; exact .inconsistent hs hr hb,
      fun _ => State.act_node_ne⟩
  case steps k round a pr hs _ hr =>
    exact ⟨k, _, by rw [State.act_node_self]; exact .steps hs hr, fun _ => State.act_node_ne⟩
  case recv e msg msgs round pr hs _ hr =>
    exact ⟨e.node, _, by rw [State.act_node_self]; exact .steps hs hr, fun _ => State.act_node_ne⟩
  case announces k round decision child unannounced hs =>
    exact ⟨k, _, by rw [State.act_node_self]; exact .announces hs, fun _ => State.act_node_ne⟩
  case ends k round decision orders node hs hc =>
    exact ⟨k, _, by rw [State.act_node_self]; exact .ends hs hc, fun _ => State.act_node_ne⟩
  case breaks k err hs =>
    exact ⟨k, _, by rw [State.act_node_self]; exact .breaks hs, fun _ => State.act_node_ne⟩

-- A connector of a session that is not idle is in a call of `sync`.
theorem syncing_of_reachable (h : (session net neighborhoods pd).Reachable s)
    (hs : (s.node k).sync ≠ .idle) : ∃ node as, SessionNode.Syncing pd node as (s.node k) := by
  revert hs
  refine TransitionSystem.Reachable.invariant (I := fun s => (s.node k).sync ≠ .idle →
    ∃ node as, SessionNode.Syncing pd node as (s.node k)) (fun hi hs => ?_) (fun _ ih hst hs => ?_) h
  case refine_1 => exact (hs (hi.left k).left).elim
  case refine_2 s a s' _ =>
    obtain ⟨k', b, hn, hne⟩ := Step.node hst
    by_cases hk : k = k'
    case neg =>
      have he := hne k hk
      rw [he] at hs ⊢
      exact ih hs
    case pos =>
      subst hk
      by_cases hidle : (s.node k).sync = .idle
      case pos => exact ⟨_, _, hn.syncing hidle hs⟩
      case neg =>
        obtain ⟨node, as, hs'⟩ := ih hidle
        exact ⟨node, _, hs'.continues hn hs⟩

end Topology.Session
end Reowolf
