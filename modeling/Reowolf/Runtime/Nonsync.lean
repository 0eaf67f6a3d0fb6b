import Mathlib.Logic.Relation
import Reowolf.Runtime.Solutions

namespace Reowolf

-- The nonsync phase of a round, one action of a component at a time. The component that runs comes
-- first.
structure NonsyncPhase (S : Type) where
  ips        : IdAndPortState
  components : List (ComponentId × S)
  blocked    : Components S

namespace NonsyncPhase

variable {S : Type}

inductive Step (pd : ProtocolDescription S) : NonsyncPhase S → NonsyncPhase S → Prop
  | step {ips cid state next unrun blocked} :
    pd.nonsync state = .step next →
    Step pd ⟨ips, (cid, state) :: unrun, blocked⟩ ⟨ips, (cid, next) :: unrun, blocked⟩
  | newChannel {ips cid state next unrun blocked ips' o i} :
    pd.nonsync state = .newChannel next →
    NonsyncProtoContext.new_port_pair ips cid = some (ips', o, i) →
    Step pd ⟨ips, (cid, state) :: unrun, blocked⟩ ⟨ips', (cid, next o i) :: unrun, blocked⟩
  | newComponent {ips cid state moved_ports init next unrun blocked ips' new_cid} :
    pd.nonsync state = .newComponent moved_ports init next →
    NonsyncProtoContext.new_component ips cid moved_ports.sort = some (ips', new_cid) →
    Step pd ⟨ips, (cid, state) :: unrun, blocked⟩
      ⟨ips', (cid, next) :: (new_cid, init) :: unrun, blocked⟩
  | exit {ips cid state unrun blocked} :
    pd.nonsync state = .exit →
    Step pd ⟨ips, (cid, state) :: unrun, blocked⟩ ⟨ips, unrun, blocked⟩
  | syncBlockStart {ips cid state next unrun blocked} :
    pd.nonsync state = .syncBlockStart next →
    blocked.get? cid = none →
    Step pd ⟨ips, (cid, state) :: unrun, blocked⟩
      ⟨ips, unrun, blocked.insert cid (.initial next)⟩

abbrev Steps (pd : ProtocolDescription S) : NonsyncPhase S → NonsyncPhase S → Prop :=
  Relation.ReflTransGen (Step pd)

variable {pd : ProtocolDescription S} {fuel : Nat} {ctx ctx' : NonsyncProtoContext S} {state state' : S}
variable {blocker : NonsyncBlocker} {blocked blocked' : Components S} {ips ips' : IdAndPortState}
variable {unrun : List (ComponentId × S)} {cid : ComponentId}

-- The action that leads to the blocker.
def Blocks (pd : ProtocolDescription S) (state : S) : NonsyncBlocker → S → Prop
  | .inconsistent, _      => pd.nonsync state = .inconsistent
  | .componentExit, _     => pd.nonsync state = .exit
  | .syncBlockStart, next => pd.nonsync state = .syncBlockStart next

theorem steps_of_nonsync_run (h : nonsync_run pd fuel ctx state = .ok (blocker, ctx', state')) :
    ∃ last, Blocks pd last blocker state' ∧
    Steps pd ⟨ctx.ips, (ctx.proto_component_id, state) :: ctx.unrun_components, blocked⟩
      ⟨ctx'.ips, (ctx.proto_component_id, last) :: ctx'.unrun_components, blocked⟩ := by
  induction fuel generalizing ctx state with
  | zero => cases h
  | succ fuel ih =>
    unfold nonsync_run at h
    split at h
    case h_1 next hn =>
      obtain ⟨last, hb, hs⟩ := ih h
      exact ⟨last, hb, .head (.step hn) hs⟩
    case h_2 next hn =>
      obtain ⟨⟨ips, o, i⟩, hp, h⟩ := SyncResult.bind_eq_ok.mp h
      obtain ⟨last, hb, hs⟩ := ih h
      exact ⟨last, hb, .head (.newChannel hn (SyncResult.unwrap_eq_ok.mp hp)) hs⟩
    case h_3 moved_ports init next hn =>
      obtain ⟨⟨ips, new_cid⟩, hc, h⟩ := SyncResult.bind_eq_ok.mp h
      obtain ⟨last, hb, hs⟩ := ih h
      exact ⟨last, hb, .head (.newComponent hn (SyncResult.unwrap_eq_ok.mp hc)) hs⟩
    case h_4 hn =>
      cases h
      exact ⟨_, hn, .refl⟩
    case h_5 hn =>
      cases h
      exact ⟨_, hn, .refl⟩
    case h_6 hn =>
      cases h
      exact ⟨_, hn, .refl⟩

theorem steps_of_nonsync_run_all
    (h : nonsync_run_all pd fuel (ips, unrun, blocked) = .ok (.ok (ips', blocked'))) :
    Steps pd ⟨ips, unrun, blocked⟩ ⟨ips', [], blocked'⟩ := by
  induction fuel generalizing ips unrun blocked with
  | zero =>
    cases unrun
    case cons => cases h
    case nil =>
      cases h
      exact .refl
  | succ fuel ih =>
    cases unrun
    case nil =>
      cases h
      exact .refl
    case cons component unrun =>
      have (cid, state) := component
      obtain ⟨⟨blocker, ctx, state'⟩, hr, h⟩ := SyncResult.bind_eq_ok.mp h
      obtain ⟨last, hb, hs⟩ := @steps_of_nonsync_run _ _ _ _ _ _ _ _ blocked hr
      cases blocker
      case inconsistent   => cases h
      case componentExit  => exact hs.trans (.head (.exit hb) (ih h))
      case syncBlockStart =>
        obtain ⟨_, hn, h⟩ := SyncResult.bind_eq_ok.mp h
        exact hs.trans (.head (.syncBlockStart hb (SyncResult.assert_eq_ok.mp hn)) (ih h))

end NonsyncPhase

-- What a round begins with: the ports and the components that the nonsync phase leads to, and a
-- variable for the native that comes from the ports before that phase.
theorem begin_round_cases {S : Type} {pd : ProtocolDescription S} {cu : ConnectorUnphased S}
    {comm : ConnectorCommunication} {timeout : Bool} {orders : RoundOrders} {round : Round S}
    (h : begin_round pd cu comm timeout orders = .ok (.ok round)) : ∃ unrun native_spec_var stream,
    (∀ cid state, (cid, state) ∈ unrun → cu.proto_components.get? cid = some state) ∧
    NonsyncPhase.Steps pd ⟨cu.ips, unrun, ∅⟩
      ⟨round.rctx.ips, [], round.branching_proto_components⟩ ∧
    cu.ips.id_manager.new_spec_var_stream.next = some (native_spec_var, stream) ∧
    ∃ rctx, rctx.payload_inbox = [] ∧
    BranchingNative.start_batches cu.ips.port_info cu.native_component_id native_spec_var 0
      (comm.native_batches.zip orders.batches) (rctx, ⟨∅⟩) =
      .ok (round.rctx, round.branching_native) := by
  simp only [begin_round, SyncResult.bind_eq_ok, SyncResult.choose_eq_ok] at h
  obtain ⟨_, _, r, hall, h⟩ := h
  cases r
  case error => cases h
  case ok r =>
    simp only [SyncResult.bind_eq_ok, SyncResult.choose_eq_ok, SyncResult.unwrap_eq_ok] at h
    obtain ⟨_, _, _, _, ⟨var, stream⟩, hv, ⟨rctx, native⟩, hb, h⟩ := h
    cases h
    refine ⟨orders.unrun.filterMap fun cid => (cu.proto_components.get? cid).map (cid, ·), var, stream,
      fun cid state hm => ?_, ?_, hv, _, rfl, hb⟩
    · obtain ⟨_, _, he⟩ := List.mem_filterMap.mp hm
      obtain ⟨_, hc, he⟩ := Option.map_eq_some_iff.mp he
      cases he
      exact hc
    · have hips := (BranchingNative.start_batches_cases hb).left
      exact hips ▸ NonsyncPhase.steps_of_nonsync_run_all hall

end Reowolf
