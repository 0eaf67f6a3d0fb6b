import Reowolf.Runtime.BatchPredicates
import Reowolf.Runtime.Life

namespace Reowolf

variable {S : Type}

namespace BranchingNative

variable {cu_ports : PortInfoMap} {cid : ComponentId} {native_spec_var : SpecVar} {index : Nat}
variable {rctx rctx' : RoundCtx} {native native' : BranchingNative} {batch : NativeBatch} {order : BatchOrder}
variable {p : Predicate} {ports : List PortId} {b : NativeBranch} {x : PortId × SendPayloadMsg}
variable {all : List (NativeBatch × BatchOrder)} {init : HashMap Predicate NativeBranch} {ds : List Delivery}

-- The message for a put of the batch.
def Sends (port_info : PortInfoMap) (p : Predicate) (to_put : HashMap PortId Payload)
    (x : PortId × SendPayloadMsg) : Prop :=
  x.2.predicate = p ∧ ∃ putter, to_put.get? putter = some x.2.payload ∧
    (port_info.map.get? putter).bind (·.peer) = some x.1

theorem send_puts_iff {to_put : HashMap PortId Payload} (h : send_puts p to_put ports rctx = .ok rctx')
    (hp : ∀ putter payload, to_put.get? putter = some payload → putter ∈ ports) :
    x ∈ rctx'.payload_inbox ↔ x ∈ rctx.payload_inbox ∨ Sends rctx.ips.port_info p to_put x := by
  have hloop : x ∈ rctx'.payload_inbox ↔ x ∈ rctx.payload_inbox ∨ x.2.predicate = p ∧ ∃ putter ∈ ports,
      to_put.get? putter = some x.2.payload ∧ (rctx.ips.port_info.map.get? putter).bind (·.peer) = some x.1 := by
    clear hp
    induction ports generalizing rctx with
    | nil =>
      cases h
      simp
    | cons putter putters ih =>
      simp only [send_puts] at h
      split at h
      case h_1 => cases h
      case h_2 payload hp =>
        simp only [SyncResult.bind_eq_ok, RoundCtx.putter_push, RoundCtx.getter_push,
          SyncResult.pure_eq_ok, SyncResult.unwrap_eq_ok] at h
        obtain ⟨_, _, _, _, rctx₁, ⟨info, hi, getter, hg, hr⟩, h⟩ := h
        subst hr
        rw [ih h, List.mem_cons, List.exists_mem_cons_iff, hp, hi]
        simp only [Option.bind_some, hg, Option.some.injEq]
        obtain ⟨g, q, v⟩ := x
        simp only [Prod.mk.injEq, SendPayloadMsg.mk.injEq]
        grind
  rw [hloop]
  refine or_congr_right (and_congr_right fun _ => ⟨?_, ?_⟩)
  · rintro ⟨putter, _, h⟩
    exact ⟨putter, h⟩
  · rintro ⟨putter, hput, h⟩
    exact ⟨putter, hp putter _ hput, hput, h⟩

theorem start_batch_some
    (h : start_batch cu_ports cid native_spec_var index batch order rctx native = .ok (rctx', native'))
    (hp : batch_predicate cu_ports cid native_spec_var (.iter_domain index) batch order = .ok (some p)) :
    native.branches.get? p = none ∧ native'.branches = native.branches.insert p ⟨index, ∅, batch.to_get⟩ ∧
    ∀ x, x ∈ rctx'.payload_inbox ↔ x ∈ rctx.payload_inbox ∨ Sends rctx.ips.port_info p batch.to_put x := by
  simp only [start_batch, hp, SyncResult.ok_bind, SyncResult.bind_eq_ok, SyncResult.choose_eq_ok,
    SyncResult.assert_eq_ok] at h
  obtain ⟨_, ho, rctx₁, hsend, rctx₂, hsubmit, _, hn, h⟩ := h
  cases h
  obtain ⟨_, hs⟩ := submit_if_ended_cases hsubmit
  refine ⟨hn, rfl, fun x => ?_⟩
  have hinbox : rctx'.payload_inbox = rctx₁.payload_inbox := by rw [hs.rest]
  rw [hinbox]
  exact send_puts_iff hsend fun putter payload hput => ho.mem_iff.mpr (HashMap.mem_keys_iff.mpr ⟨payload, hput⟩)

theorem start_batch_none
    (h : start_batch cu_ports cid native_spec_var index batch order rctx native = .ok (rctx', native'))
    (hp : batch_predicate cu_ports cid native_spec_var (.iter_domain index) batch order = .ok none) :
    rctx' = rctx ∧ native' = native := by
  simp only [start_batch, hp, SyncResult.ok_bind] at h
  cases h
  exact ⟨rfl, rfl⟩

-- The messages that the native sends as the round begins are those for the puts of its branches' batches.
theorem start_batches_sends
    (h : start_batches cu_ports cid native_spec_var index all (rctx, native) = .ok (rctx', native')) :
    (∀ p b, native.branches.get? p = some b → native'.branches.get? p = some b) ∧
    ∀ x, x ∈ rctx'.payload_inbox ↔ x ∈ rctx.payload_inbox ∨ ∃ k batch order p, all[k]? = some (batch, order) ∧
      native'.branches.get? p = some ⟨index + k, ∅, batch.to_get⟩ ∧
      batch_predicate cu_ports cid native_spec_var (.iter_domain (index + k)) batch order = .ok (some p) ∧
      Sends rctx.ips.port_info p batch.to_put x := by
  induction all generalizing index rctx native with
  | nil =>
    cases h
    exact ⟨fun _ _ h => h, fun x => by simp⟩
  | cons y all ih =>
    obtain ⟨batch, order⟩ := y
    obtain ⟨⟨rctx₁, native₁⟩, h₁, h⟩ := SyncResult.bind_eq_ok.mp h
    obtain ⟨hkeep, hinbox⟩ := ih h
    have hips := (start_batch_cases h₁).1
    have htail (x : PortId × SendPayloadMsg) : (∃ k batch order p, all[k]? = some (batch, order) ∧
        native'.branches.get? p = some ⟨index + 1 + k, ∅, batch.to_get⟩ ∧
        batch_predicate cu_ports cid native_spec_var (.iter_domain (index + 1 + k)) batch order = .ok (some p) ∧
        Sends rctx₁.ips.port_info p batch.to_put x) ↔ ∃ k batch' order' p, ((batch, order) :: all)[k + 1]? =
          some (batch', order') ∧ native'.branches.get? p = some ⟨index + (k + 1), ∅, batch'.to_get⟩ ∧
        batch_predicate cu_ports cid native_spec_var (.iter_domain (index + (k + 1))) batch' order' =
          .ok (some p) ∧ Sends rctx.ips.port_info p batch'.to_put x := by
      simp only [List.getElem?_cons_succ, hips, Nat.add_assoc, Nat.add_comm 1]
    obtain ⟨maybe, hp, -⟩ := SyncResult.bind_eq_ok.mp h₁
    cases maybe with
    | none =>
      obtain ⟨rfl, rfl⟩ := start_batch_none h₁ hp
      refine ⟨hkeep, fun x => ?_⟩
      rw [hinbox, htail]
      refine or_congr_right ⟨?_, ?_⟩
      · rintro ⟨k, h⟩
        exact ⟨k + 1, h⟩
      · rintro ⟨k, batch', order', p, hk, hb, hp', hs⟩
        cases k with
        | zero =>
          cases hk
          cases hp.symm.trans hp'
        | succ k => exact ⟨k, batch', order', p, hk, hb, hp', hs⟩
    | some p =>
      obtain ⟨hn, hnative, hputs⟩ := start_batch_some h₁ hp
      have hhead : native'.branches.get? p = some ⟨index, ∅, batch.to_get⟩ :=
        hkeep p _ (by rw [hnative, HashMap.get?_insert_self])
      refine ⟨fun q b hq => hkeep q b ?_, fun x => ?_⟩
      · rw [hnative, HashMap.get?_insert_ne fun he => ?_]
        · exact hq
        · rw [he, hn] at hq
          cases hq
      · rw [hinbox, hputs, htail, or_assoc]
        refine or_congr_right ⟨?_, ?_⟩
        · rintro (hs | ⟨k, h⟩)
          · exact ⟨0, batch, order, p, rfl, hhead, hp, hs⟩
          · exact ⟨k + 1, h⟩
        · rintro ⟨k, batch', order', p', hk, hb, hp', hs⟩
          cases k with
          | zero =>
            cases hk
            cases hp.symm.trans hp'
            exact .inl hs
          | succ k => exact .inr ⟨k, batch', order', p', hk, hb, hp', hs⟩

-- Every predicate that is assigned ends up with the branch of its batch.
theorem start_batches_assigned {k : Nat}
    (h : start_batches cu_ports cid native_spec_var index all (rctx, native) = .ok (rctx', native'))
    (hk : all[k]? = some (batch, order))
    (hp : batch_predicate cu_ports cid native_spec_var (.iter_domain (index + k)) batch order = .ok (some p)) :
    native'.branches.get? p = some ⟨index + k, ∅, batch.to_get⟩ := by
  induction all generalizing index rctx native k with
  | nil => cases hk
  | cons y all ih =>
    obtain ⟨batch', order'⟩ := y
    obtain ⟨⟨rctx₁, native₁⟩, h₁, h₂⟩ := SyncResult.bind_eq_ok.mp h
    cases k with
    | succ k =>
      rw [← Nat.add_assoc, Nat.add_right_comm] at hp ⊢
      exact ih h₂ hk hp
    | zero =>
      cases hk
      obtain ⟨_, hnative, _⟩ := start_batch_some h₁ hp
      exact (start_batches_sends h₂).1 p _ (by rw [hnative, HashMap.get?_insert_self]; rfl)

-- Whatever messages are fed, the branches stem from batches.
theorem sound_feed_msg {d : Delivery} {predicates : List Predicate} (hi : Initial init) (hd : Decides init d.1)
    (hs : ∀ p b, native.branches.get? p = some b → Sound init ds p b)
    (h : feed_msg cid d.1 d.2 rctx native predicates = .ok (rctx', native')) :
    ∀ p b, native'.branches.get? p = some b → Sound init (d :: ds) p b := by
  obtain ⟨he, _, ho, _⟩ := feed_msg_cases h
  rw [he]
  have hmerge : HashMap.LawfulMerge NativeBranch.merge (Sound init (d :: ds)) fun _ _ => True :=
    ⟨fun _ => trivial, fun _ _ => trivial, fun ho hb => ho.merge hi hb, fun _ _ => trivial, fun _ _ => trivial⟩
  refine HashMap.good_insertAll hmerge ?_ ?_
  · intro p b hb
    rw [HashMap.get?_empty] at hb
    cases hb
  · intro e he
    obtain ⟨p, b, hb, he⟩ := (Delivers.mem_contributed ho).mp he
    exact (hs p b hb).contributions hd he

theorem feed_msg_polarity {getter : PortId} {msg : SendPayloadMsg} {predicates : List Predicate}
    (h : feed_msg cid getter msg rctx native predicates = .ok (rctx', native')) :
    ∃ info, rctx.ips.port_info.map.get? getter = some info ∧ info.polarity = .getter := by
  simp only [feed_msg, SyncResult.bind_eq_ok, RoundCtx.polarity, SyncResult.unwrap_eq_ok,
    SyncResult.pure_eq_ok, SyncResult.assert_eq_ok] at h
  obtain ⟨_, _, _, ⟨info, hi, hpol⟩, _, hp, _⟩ := h
  exact ⟨info, hi, hpol.trans hp⟩

end BranchingNative

-- What components do before the round leaves the native's ports as they are.
namespace NonsyncPhase

variable {pd : ProtocolDescription S} {s s' : NonsyncPhase S} {native_component_id : ComponentId}
variable {port : PortId} {info : PortInfo}

theorem Step.native_info (h : Step pd s s') (hk : s.Kept native_component_id)
    (ho : info.owner = native_component_id) :
    s'.ips.port_info.map.get? port = some info ↔ s.ips.port_info.map.get? port = some info := by
  have ha := hk.allotted
  cases h
  case newChannel ips cid state next unrun _ ips' o i _ hp =>
    have hne := (ha.live (.inl ⟨state, .head _⟩)).right
    obtain ⟨ho', hi', _⟩ := IdAndPortState.new_port_pair_eq_some hp
    have hno : ips.port_info.map.get? o = none := by
      rw [ho']
      exact Option.map_eq_none_iff.mp (ha.port_fresh (n := 0))
    have hni : ips.port_info.map.get? i = none := by
      rw [hi']
      exact Option.map_eq_none_iff.mp (ha.port_fresh (n := 1))
    simp only [NonsyncProtoContext.new_port_pair, IdAndPortState.new_port_pair, Option.bind_eq_bind,
      Option.bind_eq_some_iff, Option.pure_def, Option.some.injEq, Prod.mk.injEq] at hp
    obtain ⟨_, _, _, _, hips, ho'', hi''⟩ := hp
    subst hips ho'' hi''
    rw [PortInfoMap.extend_owned_map, HashMap.get?_insert, HashMap.get?_insert]
    split
    case isTrue he =>
      rw [he, hni]
      exact iff_of_false (fun h => hne ((congrArg PortInfo.owner (Option.some.inj h)).trans ho)) (by rintro ⟨⟩)
    case isFalse =>
      split
      case isFalse => exact Iff.rfl
      case isTrue he =>
        rw [he, hno]
        exact iff_of_false (fun h => hne ((congrArg PortInfo.owner (Option.some.inj h)).trans ho)) (by rintro ⟨⟩)
  case newComponent cid state moved_ports init next unrun _ ips' new_cid _ hc =>
    obtain ⟨hm, ids, hid, hips⟩ := new_component_cases hc
    subst hips
    have hne := (ha.live (.inl ⟨state, .head _⟩)).right
    obtain ⟨_, _, _, hnew⟩ := ha.new_component_id hid
    rw [PortInfoMap.move_ports, PortInfoMap.get?_change_owner]
    by_cases hmoved : port ∈ moved_ports.sort
    case neg => simp only [if_neg hmoved, Option.map_id']
    case pos =>
      obtain ⟨info', hi', ho'⟩ := PortInfoMap.owner_eq_some.mp (hm port hmoved)
      simp only [if_pos hmoved, hi', Option.map_some, Option.some.injEq]
      refine iff_of_false (fun he => hnew ?_) fun he => hne ?_
      · rw [← ho, ← he]
      · rw [← ho', he, ho]
  all_goals exact Iff.rfl

theorem Steps.native_info (h : Steps pd s s') (hk : s.Kept native_component_id)
    (ho : info.owner = native_component_id) :
    s'.ips.port_info.map.get? port = some info ↔ s.ips.port_info.map.get? port = some info := by
  induction h with
  | refl         => exact Iff.rfl
  | tail hs h ih => exact (h.native_info (NonsyncPhase.Steps.kept hs hk) ho).trans ih

end NonsyncPhase

namespace Round

-- What a step of a round does to the native's branches.
inductive NativeStepped (native_component_id : ComponentId) (round : Round S) : BranchingNative → Prop
  | same : NativeStepped _ _ round.branching_native
  | feeds {getter msg rctx order rctx' native'} :
    rctx.ips = round.rctx.ips →
    (round.rctx.ips.port_info.map.get? getter).map (·.owner) = some native_component_id →
    round.branching_native.feed_msg native_component_id getter msg rctx order = .ok (rctx', native') →
    NativeStepped _ _ native'

variable {pd : ProtocolDescription S} {comm : ConnectorCommunication} {round round' : Round S}
variable {pr : Progress S} {native_component_id cid : ComponentId} {next : SyncStage}

theorem Continues.native (h : Continues comm round pr) : pr.round.branching_native = round.branching_native := by
  cases h
  case on => rfl
  case fails =>
    unfold fail_round
    split
    case h_1 => rfl
    case h_2 => split <;> rfl

theorem ComponentStepped.native {b : BranchingProtoComponent.Act}
    (h : ComponentStepped pd comm round cid next b pr) :
    pr.round.branching_native = round.branching_native := by
  cases h
  case mk hcont => exact hcont.native

theorem Received.native {net_index : Nat} {msg : Msg} (h : Received comm round net_index msg pr) :
    pr.round.branching_native = round.branching_native := by
  cases h
  case failed => exact Continues.fails.native
  all_goals rfl

theorem Stepped.native {a : Act} (h : Stepped pd native_component_id comm round a pr) :
    NativeStepped native_component_id round pr.round.branching_native := by
  have hsame (he : pr.round.branching_native = round.branching_native) :
      NativeStepped native_component_id round pr.round.branching_native := he ▸ .same
  cases h
  case checkNative h => exact hsame h.native
  case start h       => exact hsame h.native
  case feed h        => exact hsame h.native
  case undelayed h   => exact hsame h.native
  case net h         => exact hsame h.native
  case timeout pr _ _ h =>
    subst h
    exact hsame Continues.fails.native
  case route h =>
    cases h
    case component h => exact hsame h.native
    case native hi ho hf =>
      refine .feeds ?_ ?_ hf
      · rfl
      · show Option.map _ (round.rctx.ips.port_info.map.get? _) = _
        rw [hi, Option.map_some, ho]
    all_goals exact .same
  all_goals exact .same

end Round

namespace SessionNode

variable {pd : ProtocolDescription S} {node node' n : SessionNode S} {as : List (Act S)}
variable {round round₀ : Round S}

-- The branches of a round stem from those that it began with, and they have payloads for inputs of the
-- native.
structure NativeSound (node : SessionNode S) (round₀ round : Round S) : Prop where
  ips   : round.rctx.ips = round₀.rctx.ips
  sound : ∃ ds : List Delivery, (∀ d ∈ ds, Connector.NativePort node.unphased d.1 .getter) ∧
          ∀ p b, round.branching_native.branches.get? p = some b →
            BranchingNative.Sound round₀.branching_native.branches ds p b

-- What the branches of a round are as it begins.
structure Begun (node : SessionNode S) (native_spec_var : SpecVar) (round₀ : Round S) : Prop where
  initial  : BranchingNative.Initial round₀.branching_native.branches
  assigns  : ∀ {p b port var}, round₀.branching_native.branches.get? p = some b →
             port ∈ node.unphased.ips.port_info.ports_owned_by node.unphased.native_component_id →
             node.unphased.ips.port_info.spec_var_for port = some var → ∃ val, p.query var = some val
  infos    : ∀ port info, info.owner = node.unphased.native_component_id →
             (round₀.rctx.ips.port_info.map.get? port = some info ↔
               node.unphased.ips.port_info.map.get? port = some info)
  branches : ∀ p b, round₀.branching_native.branches.get? p = some b → ∃ batch order,
             node.comm.native_batches[b.index]? = some batch ∧ b = ⟨b.index, ∅, batch.to_get⟩ ∧
             BranchingNative.batch_predicate node.unphased.ips.port_info node.unphased.native_component_id
               native_spec_var (.iter_domain b.index) batch order = .ok (some p)
  sends    : ∀ x, x ∈ round₀.rctx.payload_inbox ↔ ∃ p b batch,
             round₀.branching_native.branches.get? p = some b ∧
             node.comm.native_batches[b.index]? = some batch ∧
             BranchingNative.Sends node.unphased.ips.port_info p batch.to_put x

theorem NativePort.mem_owned {port : PortId} {pol : Polarity} (hk : node.Kept)
    (h : Connector.NativePort node.unphased port pol) :
    port ∈ node.unphased.ips.port_info.ports_owned_by node.unphased.native_component_id := by
  obtain ⟨info, hi, ho, _⟩ := h
  exact hk.allotted.consistent.owner_iff.mpr (PortInfoMap.owner_eq_some.mpr ⟨info, hi, ho⟩)

theorem NativePort.getter_var {port : PortId} (h : Connector.NativePort node.unphased port .getter) :
    node.unphased.ips.port_info.spec_var_for port = some port := by
  obtain ⟨info, hi, _, hpol⟩ := h
  simp [PortInfoMap.spec_var_for, hi, hpol]

theorem Kept.firing_ports_subset (hk : node.Kept) : ∀ batch ∈ node.comm.native_batches,
    BranchingNative.firing_ports batch ⊆
      node.unphased.ips.port_info.ports_owned_by node.unphased.native_component_id := by
  intro batch hb port hm
  rcases Finset.mem_union.mp hm with hm | hm
  · exact NativePort.mem_owned hk (hk.batches.gets hb hm)
  · exact NativePort.mem_owned hk (hk.batches.puts hb hm)

-- The variable for the native is not one of its ports' variables.
theorem Kept.native_spec_var_ne {native_spec_var : SpecVar} {stream : SpecVarStream} (hk : node.Kept)
    (hv : node.unphased.ips.id_manager.new_spec_var_stream.next = some (native_spec_var, stream)) (port : PortId) :
    node.unphased.ips.port_info.spec_var_for port ≠ some native_spec_var := by
  intro hp
  have hknown : node.unphased.ips.Known none := hk.known
  have heq := IdManager.native_spec_var_eq hv
  subst heq
  have hodd := hknown.drawn.vars hp rfl
  simp only [IdManager.SKIP_N] at hodd
  omega

theorem Kept.begun {timeout : Bool} {orders : RoundOrders} (hk : node.Kept)
    (h : begin_round pd node.unphased node.comm timeout orders = .ok (.ok round)) :
    ∃ native_spec_var stream,
      node.unphased.ips.id_manager.new_spec_var_stream.next = some (native_spec_var, stream) ∧
      node.Begun native_spec_var round := by
  obtain ⟨unrun, native_spec_var, stream, hu, hs, hv, rctx, hinbox, hbatches⟩ := begin_round_cases h
  have hinfos (port : PortId) (info : PortInfo) (ho : info.owner = node.unphased.native_component_id) :
      round.rctx.ips.port_info.map.get? port = some info ↔
        node.unphased.ips.port_info.map.get? port = some info :=
    hs.native_info (hk.nonsync hu (.refl : NonsyncPhase.Steps pd _ _)) ho
  have hips : rctx.ips = round.rctx.ips := (BranchingNative.start_batches_cases hbatches).left.symm
  have htraces (p : Predicate) (b : NativeBranch) (hb : round.branching_native.branches.get? p = some b) :
      ∃ batch order, (node.comm.native_batches.zip orders.batches)[b.index]? = some (batch, order) ∧
      b = ⟨b.index, ∅, batch.to_get⟩ ∧ BranchingNative.batch_predicate node.unphased.ips.port_info
        node.unphased.native_component_id native_spec_var (.iter_domain b.index) batch order = .ok (some p) := by
    rcases BranchingNative.start_batches_traces hbatches hb with hb | ⟨k, batch, order, hx, hbr, hp⟩
    · rw [HashMap.get?_empty] at hb
      cases hb
    · rw [Nat.zero_add] at hbr hp
      subst hbr
      exact ⟨batch, order, hx, rfl, hp⟩
  have hbatch {k : Nat} {batch : NativeBatch} {order : BranchingNative.BatchOrder}
      (hx : (node.comm.native_batches.zip orders.batches)[k]? = some (batch, order)) :
      node.comm.native_batches[k]? = some batch := (List.getElem?_zip_eq_some.mp hx).1
  have hassigns {p : Predicate} {b : NativeBranch} {var : SpecVar}
      (hb : round.branching_native.branches.get? p = some b) : (p.query var).isSome ↔ var = native_spec_var ∨
      ∃ port ∈ node.unphased.ips.port_info.ports_owned_by node.unphased.native_component_id,
        node.unphased.ips.port_info.spec_var_for port = some var := by
    obtain ⟨batch, order, hx, _, hp⟩ := htraces p b hb
    exact BranchingNative.batch_predicate_query
      (hk.firing_ports_subset batch (List.mem_of_getElem? (hbatch hx))) hp
  have hsends {p : Predicate} {batch : NativeBatch} {k : Nat} (hget : node.comm.native_batches[k]? = some batch)
      (x : PortId × SendPayloadMsg) : BranchingNative.Sends rctx.ips.port_info p batch.to_put x ↔
      BranchingNative.Sends node.unphased.ips.port_info p batch.to_put x := by
    refine and_congr_right fun _ => exists_congr fun putter => and_congr_right fun hput => ?_
    obtain ⟨info, hi, ho, _⟩ := hk.batches.puts (List.mem_of_getElem? hget) (HashMap.mem_keys_iff.mpr ⟨_, hput⟩)
    rw [hips, hi, (hinfos putter info ho).mpr hi]
  refine ⟨native_spec_var, stream, hv, ?_, ?_, hinfos, ?_, fun x => ?_⟩
  · refine .of_assigns (fun {p b} hb => ?_) hassigns
    obtain ⟨_, _, _, hbr, _⟩ := htraces p b hb
    rw [hbr]
  · intro p b port var hb hport hv
    exact Option.isSome_iff_exists.mp (hassigns hb |>.mpr (.inr ⟨port, hport, hv⟩))
  · intro p b hb
    obtain ⟨batch, order, hx, hbr, hp⟩ := htraces p b hb
    exact ⟨batch, order, hbatch hx, hbr, hp⟩
  · rw [(BranchingNative.start_batches_sends hbatches).2, hinbox]
    constructor
    · rintro (hx | ⟨k, batch, order, p, hx, hb, _, hs⟩)
      · exact absurd hx List.not_mem_nil
      · rw [Nat.zero_add] at hb
        exact ⟨p, _, batch, hb, hbatch hx, (hsends (hbatch hx) x).mp hs⟩
    · rintro ⟨p, b, batch, hb, hget, hs⟩
      obtain ⟨batch', order, hx, hbr, hp⟩ := htraces p b hb
      cases hget.symm.trans (hbatch hx)
      refine .inr ⟨b.index, batch, order, p, hx, ?_, ?_, (hsends hget x).mpr hs⟩
      · rw [Nat.zero_add, ← hbr]
        exact hb
      · rw [Nat.zero_add]
        exact hp

-- The native's ports are those before the round.
theorem Begun.native_port {native_spec_var : SpecVar} (hb : node.Begun native_spec_var round₀) {port : PortId}
    (ho : (round₀.rctx.ips.port_info.map.get? port).map (·.owner) = some node.unphased.native_component_id)
    {info : PortInfo} (hi : round₀.rctx.ips.port_info.map.get? port = some info) :
    Connector.NativePort node.unphased port info.polarity := by
  rw [hi] at ho
  have ho := Option.some.inj ho
  exact ⟨info, (hb.infos port info ho).mp hi, ho, rfl⟩

theorem NativeSound.step {native_spec_var : SpecVar} {comm : ConnectorCommunication} {pr : Progress S}
    {a : Round.Act} (hk : node.Kept) (hb : node.Begun native_spec_var round₀) (hs : node.NativeSound round₀ round)
    (h : Round.step pd node.unphased.native_component_id comm round a = .ok pr) :
    node.NativeSound round₀ pr.round := by
  have hsteps := Round.step_cases h
  obtain ⟨ds, hds, hsound⟩ := hs.sound
  refine ⟨hsteps.keeps.ips.trans hs.ips, ?_⟩
  have hnative := hsteps.native
  generalize pr.round.branching_native = native' at hnative
  cases hnative with
  | same => exact ⟨ds, hds, hsound⟩
  | @feeds getter msg rctx order rctx' _ hips ho hf =>
    obtain ⟨info, hi, hpol⟩ := BranchingNative.feed_msg_polarity hf
    rw [hips, hs.ips] at hi
    rw [hs.ips] at ho
    have hport := hpol ▸ hb.native_port ho hi
    have hdecides : BranchingNative.Decides round₀.branching_native.branches getter := fun p₀ b₀ hp₀ =>
      hb.assigns hp₀ (NativePort.mem_owned hk hport) (NativePort.getter_var hport)
    exact ⟨(getter, msg) :: ds, List.forall_mem_cons.mpr ⟨hport, hds⟩,
      BranchingNative.sound_feed_msg (d := (getter, msg)) hb.initial hdecides hsound hf⟩

-- The round that is in progress in a call stems from the one that the call began.
theorem Syncing.native (hk : node.Kept) (h : Syncing pd node as n) :
    ∃ round₀ native_spec_var stream, .begins round₀ ∈ as ∧
      node.unphased.ips.id_manager.new_spec_var_stream.next = some (native_spec_var, stream) ∧
      node.Begun native_spec_var round₀ ∧
      ∀ round, n.sync.round = some round → node.NativeSound round₀ round := by
  induction h with
  | @begins round₀ node' h =>
    cases h
    case begins hr hidle hbegin =>
      obtain ⟨native_spec_var, stream, hv, hb⟩ := hk.begun hbegin
      refine ⟨round₀, native_spec_var, stream, .head _, hv, hb, fun round hround => ?_⟩
      cases hround
      refine ⟨rfl, [], fun _ hd => absurd hd List.not_mem_nil, fun p b hp => ?_⟩
      refine ⟨p, b, hp, .self, rfl, ?_, ?_⟩ <;> simp [hb.initial.gotten hp]
  | @continues as n a n' hs h hi ih =>
    obtain ⟨round₀, native_spec_var, stream, hm, hv, hb, hsound⟩ := ih
    obtain ⟨hu, _, hn⟩ := hs.invariant
    refine ⟨round₀, native_spec_var, stream, List.mem_append_left _ hm, hv, hb, fun round hround => ?_⟩
    cases h
    case application h _    => exact absurd h hn
    case delays h _         => exact absurd h hn
    case begins h _ _       => exact absurd h hn
    case inconsistent h _ _ => exact absurd h hn
    case breaks             => exact absurd rfl hi
    case ends hc            => exact absurd (commit_cases hc).right.left hi
    case announces hd =>
      cases hround
      exact hsound _ (by rw [hd]; rfl)
    case steps round' a pr hd h =>
      rw [hu] at h
      have hstep := (hsound round' (by rw [hd]; rfl)).step hk hb h
      have he : round = pr.round := by
        unfold SessionNode.progress at hround
        split at hround <;> exact (Option.some.inj hround).symm
      exact he ▸ hstep

-- The port operations that the native performed in a round are those of the batch: the payloads that it got,
-- the ports that fire in the solution, and the messages that it sent and that the solution covers.
structure Performs (node : SessionNode S) (round₀ : Round S) (predicate : Predicate) (round_ok : RoundEndedNative)
    (batch : NativeBatch) : Prop where
  gets  : ∀ port, (∃ payload, round_ok.gotten.get? port = some payload) ↔ port ∈ batch.to_get
  fires : ∀ port ∈ node.unphased.ips.port_info.ports_owned_by node.unphased.native_component_id, ∀ var,
          node.unphased.ips.port_info.spec_var_for port = some var →
          (predicate.query var = some .FIRING ↔ port ∈ BranchingNative.firing_ports batch)
  puts  : ∀ getter payload, (∃ p, (getter, ⟨p, payload⟩) ∈ round₀.rctx.payload_inbox ∧ p ⊆ predicate) ↔
          ∃ putter, batch.to_put.get? putter = some payload ∧
            (node.unphased.ips.port_info.map.get? putter).bind (·.peer) = some getter

theorem NativeSound.performs {native_spec_var : SpecVar} {p predicate : Predicate} {b : NativeBranch}
    (hk : node.Kept) (hb : node.Begun native_spec_var round₀)
    (hfresh : ∀ port, node.unphased.ips.port_info.spec_var_for port ≠ some native_spec_var)
    (hs : node.NativeSound round₀ round) (hp : round.branching_native.branches.get? p = some b)
    (he : b.is_ended) (hsub : p ⊆ predicate) : ∃ batch, node.comm.native_batches[b.index]? = some batch ∧
    node.Performs round₀ predicate ⟨b.index, b.gotten⟩ batch := by
  obtain ⟨ds, hds, hsound⟩ := hs.sound
  obtain ⟨p₀, b₀, hp₀, hgen, hindex, hto, hgot⟩ := hsound p b hp
  obtain ⟨batch, order, hget, hbr, hpred⟩ := hb.branches p₀ b₀ hp₀
  obtain ⟨_, hc, hfires⟩ := BranchingNative.batch_predicate_value hpred
  have hmem := List.mem_of_getElem? hget
  have hown := hk.firing_ports_subset batch hmem
  have hsub₀ := Predicate.Subset.trans hgen.base hsub
  have hto_get : b₀.to_get = batch.to_get := by rw [hbr]
  have hfire (port : PortId) (var : SpecVar)
      (hport : port ∈ node.unphased.ips.port_info.ports_owned_by node.unphased.native_component_id)
      (hv : node.unphased.ips.port_info.spec_var_for port = some var) :
      p₀.query var = some .FIRING ↔ port ∈ BranchingNative.firing_ports batch := by
    rw [hfires var fun he => hfresh port (he ▸ hv)]
    constructor
    · rintro ⟨port', hm, hv'⟩
      exact hc.closed port' hm port hport (hv.trans hv'.symm)
    · exact fun hm => ⟨port, hm, hv⟩
  rw [hindex]
  refine ⟨batch, hget, fun port => ⟨?_, fun hm => ?_⟩, fun port hport var hv => ?_, fun getter payload => ⟨?_, ?_⟩⟩
  · rintro ⟨payload, hpayload⟩
    obtain ⟨msg, hm, hf, _⟩ := hgot port payload hpayload
    have hnative := hds (port, msg) hm
    have hfiring := (hfire port port (NativePort.mem_owned hk hnative) (NativePort.getter_var hnative)).mp hf
    rcases Finset.mem_union.mp hfiring with hm | hm
    · exact hm
    · obtain ⟨info, hi, _, hpol⟩ := hnative
      obtain ⟨info', hi', _, hpol'⟩ := hk.batches.puts hmem hm
      cases hi.symm.trans hi'
      cases hpol.symm.trans hpol'
  · cases hg : b.gotten.get? port with
    | some payload => exact ⟨payload, rfl⟩
    | none =>
      have hin := (hto port).mpr ⟨hto_get ▸ hm, hg⟩
      rw [he] at hin
      exact absurd hin (Finset.notMem_empty port)
  · rw [← hfire port var hport hv]
    obtain ⟨val, hval⟩ := hb.assigns hp₀ hport hv
    have hval' : predicate.query var = some val := hsub₀ var val hval
    rw [hval, hval']
  · rintro ⟨q, hq, hqs⟩
    obtain ⟨p', b', batch', hp', hget', heq, hputs⟩ := (hb.sends _).mp hq
    cases heq
    obtain ⟨_, hbe⟩ := hb.initial.unique hp₀ hp' hsub₀ hqs
    subst hbe
    cases hget.symm.trans hget'
    exact hputs
  · rintro ⟨putter, hput, hpeer⟩
    exact ⟨p₀, (hb.sends _).mpr ⟨p₀, b₀, batch, hp₀, hget, rfl, putter, hput, hpeer⟩, hsub₀⟩

-- The batch with the index gets the predicate as a round begins.
def Assigned (node : SessionNode S) (native_spec_var : SpecVar) : Nat → Predicate → Prop :=
  BranchingNative.Assigned node.unphased.ips.port_info node.unphased.native_component_id native_spec_var
    node.comm.native_batches

-- The predicates tell the batches apart, so that the panic is not reached. Every branch has the index of
-- the batch that it stems from, and a call that succeeds returns the index of the batch that was performed.
structure Identity (pd : ProtocolDescription S) (node : SessionNode S) (native_spec_var : SpecVar) : Prop where
  distinct : ∀ i j p, node.Assigned native_spec_var i p → node.Assigned native_spec_var j p → i = j
  reached  : ∀ timeout orders,
             begin_round pd node.unphased node.comm timeout orders ≠ .error (.panic .duplicateBatch)
  keeps    : ∀ {as n round p b}, Syncing pd node as n → n.sync.round = some round →
             round.branching_native.branches.get? p = some b →
             ∃ p₀, node.Assigned native_spec_var b.index p₀ ∧ p₀ ⊆ p
  returns  : ∀ {as node' round_ok}, Sync pd node as node' →
             node'.comm.round_result = .ok (some round_ok) → ∃ round₀ round predicate batch,
             .begins round₀ ∈ as ∧ .ends (.success predicate) round ∈ as ∧
             node.comm.native_batches[round_ok.batch_index]? = some batch ∧
             node.Performs round₀ predicate round_ok batch

theorem Sync.native (hk : node.Kept) (h : Sync pd node as node') {round_ok : RoundEndedNative}
    (hr : node'.comm.round_result = .ok (some round_ok)) : ∃ round₀ round predicate batch,
    .begins round₀ ∈ as ∧ .ends (.success predicate) round ∈ as ∧
    node.comm.native_batches[round_ok.batch_index]? = some batch ∧
    node.Performs round₀ predicate round_ok batch := by
  cases h
  case unusable he => cases hr.symm.trans he
  case inconsistent h =>
    cases h
    cases hr
  case returns as n a hs h hi =>
    obtain ⟨round₀, native_spec_var, stream, hm, hv, hb, hsound⟩ := hs.native hk
    obtain ⟨_, _, hn⟩ := hs.invariant
    cases h
    case application h _    => exact absurd h hn
    case delays h _         => exact absurd h hn
    case begins h _ _       => exact absurd h hn
    case inconsistent h _ _ => exact absurd h hn
    case steps              => exact absurd hi progress_cases.right.right.right
    case announces          => cases hi
    case breaks             => cases hr
    case ends round decision orders hd hc =>
      cases decision with
      | failure =>
        cases hc
        cases hr
      | success predicate =>
        simp only [commit, SyncResult.bind_eq_ok] at hc
        obtain ⟨_, _, collapsed, _, round_ok', hcollapse, hc⟩ := hc
        cases hc
        cases hr
        obtain ⟨p, b, hp, he, hsub, rfl⟩ := BranchingNative.collapse_with_cases hcollapse
        obtain ⟨batch, hget, hperforms⟩ := (hsound round (by rw [hd]; rfl)).performs hk hb
          (hk.native_spec_var_ne hv) hp he hsub
        exact ⟨round₀, round, predicate, batch, List.mem_append_left _ hm, List.mem_append_right _ (.head _), hget,
          hperforms⟩

theorem Syncing.index_kept (hk : node.Kept) {native_spec_var : SpecVar} {stream : SpecVarStream}
    (hv : node.unphased.ips.id_manager.new_spec_var_stream.next = some (native_spec_var, stream))
    (h : Syncing pd node as n) (hr : n.sync.round = some round) {p : Predicate} {b : NativeBranch}
    (hp : round.branching_native.branches.get? p = some b) :
    ∃ p₀, node.Assigned native_spec_var b.index p₀ ∧ p₀ ⊆ p := by
  obtain ⟨round₀, native_spec_var', stream', -, hv', hb, hsound⟩ := h.native hk
  cases hv.symm.trans hv'
  obtain ⟨ds, -, hs⟩ := (hsound round hr).sound
  obtain ⟨p₀, b₀, hp₀, hgen, hindex, -⟩ := hs p b hp
  obtain ⟨batch, order, hget, -, hpred⟩ := hb.branches p₀ b₀ hp₀
  rw [hindex]
  exact ⟨p₀, ⟨batch, order, hget, hpred⟩, hgen.base⟩

end SessionNode

namespace Life

variable {pd : ProtocolDescription S} {node : SessionNode S} {native_spec_var : SpecVar} {stream : SpecVarStream}

-- There are as many values as the native's variable can take. After them the first ones are used again.
theorem batch_identity_iff (h : (life pd).Reachable (.session node))
    (hv : node.unphased.ips.id_manager.new_spec_var_stream.next = some (native_spec_var, stream)) :
    node.Identity pd native_spec_var ↔ BranchingNative.Separate node.unphased.ips.port_info
      node.unphased.native_component_id node.comm.native_batches := by
  have hk : node.Kept := kept h
  have hdistinct := BranchingNative.distinct_iff_separate (fun port _ => hk.native_spec_var_ne hv port)
    hk.firing_ports_subset
  constructor
  case mp => exact fun hi => hdistinct.mp hi.distinct
  case mpr =>
    intro hs
    have hd := hdistinct.mpr hs
    refine ⟨hd, fun timeout orders => ?_, fun hs' hr hp => hs'.index_kept hk hv hr hp, fun hs' hr => hs'.native hk hr⟩
    refine begin_round_noDuplicate fun native_spec_var' stream' rctx hv' hlen => ?_
    cases hv.symm.trans hv'
    refine BranchingNative.start_batches_noDuplicate hd (fun k batch order hx => ?_) fun p b hb => ?_
    · rw [Nat.zero_add]
      exact (List.getElem?_zip_eq_some.mp hx).1
    · rw [HashMap.get?_empty] at hb
      cases hb

-- Two batches are the same.
theorem batch_identity_two : ∃ (node : SessionNode Unit) (native_spec_var : SpecVar),
    (life emptyProtocol).Reachable (.session node) ∧ node.comm.native_batches = [∅, ∅] ∧
    node.Identity emptyProtocol native_spec_var := by
  have hinit : (life emptyProtocol).Init (.setup _ _) := ⟨0, rfl⟩
  have hpair := TransitionSystem.Reachable.step (.init hinit) (.application (.newPortPair rfl))
  have hconnect := hpair.step <| Step.connect .nil .nil
    (rfl : Connector.connect _ [] ⟨none, []⟩ [] [] = .ok _)
  have hnext := hconnect.step <| .session <| .application rfl <| .nextBatch (rfl : Connector.next_batch _ = .ok _)
  exact ⟨_, _, hnext, rfl, (batch_identity_iff hnext rfl).mpr (BranchingNative.separate_of_length_le (by decide))⟩

-- A connector without ports, and the batches that `next_batch` adds to it.
def portless : ConnectorUnphased Unit :=
  ⟨∅, ⟨⟨∅, ∅⟩, ⟨0, ⟨0⟩, ⟨1⟩⟩⟩, ⟨0, 0⟩⟩

def portlessNode (native_batches : List NativeBatch) : SessionNode Unit :=
  ⟨portless, ⟨0, ⟨[], [], [], []⟩, ⟨none, []⟩, native_batches, .ok none⟩, .idle⟩

theorem reachable_portlessNode (n : Nat) :
    (life emptyProtocol).Reachable (.session (portlessNode (List.replicate (n + 1) ∅))) := by
  induction n with
  | zero =>
    have hinit : (life emptyProtocol).Init (.setup portless ⟨[], []⟩) := ⟨0, rfl⟩
    exact TransitionSystem.Reachable.step (.init hinit) <| Step.connect .nil .nil
      (rfl : Connector.connect _ [] ⟨none, []⟩ [] [] = .ok _)
  | succ n ih =>
    have hnext := ih.step <| .session <| .application rfl <| .nextBatch (rfl : Connector.next_batch _ = .ok _)
    rw [List.replicate_succ']
    exact hnext

theorem start_batches_portless {native_spec_var : SpecVar} {index : Nat} {rctx : RoundCtx}
    {native : BranchingNative} (hk : rctx.solution_storage.Knows (.localComponent ⟨0, 0⟩)) (n : Nat) :
    (∃ r, BranchingNative.start_batches ⟨∅, ∅⟩ ⟨0, 0⟩ native_spec_var index
      (List.replicate n (∅, ⟨[], [], []⟩)) (rctx, native) = .ok r) ∨
    BranchingNative.start_batches ⟨∅, ∅⟩ ⟨0, 0⟩ native_spec_var index
      (List.replicate n (∅, ⟨[], [], []⟩)) (rctx, native) = .error (.panic .duplicateBatch) := by
  induction n generalizing index rctx native with
  | zero => exact .inl ⟨_, rfl⟩
  | succ n ih =>
    let p := (∅ : Predicate).inserted native_spec_var (.iter_domain index)
    obtain ⟨rctx', ps, hsubmit, hs, -⟩ := @BranchingNative.submit_if_ended_ok p ⟨index, ∅, ∅⟩ ⟨0, 0⟩ rctx hk
    have hstart : BranchingNative.start_batch ⟨∅, ∅⟩ ⟨0, 0⟩ native_spec_var index ∅ ⟨[], [], []⟩ rctx native = (do
        SyncResult.assert .duplicateBatch (native.branches.get? p = none)
        return (rctx', ⟨native.branches.insert p ⟨index, ∅, ∅⟩⟩)) := by
      have hpred : BranchingNative.batch_predicate ⟨∅, ∅⟩ ⟨0, 0⟩ native_spec_var (.iter_domain index) ∅
          ⟨[], [], []⟩ = .ok (some p) := rfl
      rw [BranchingNative.start_batch, hpred, SyncResult.ok_bind]
      show (BranchingNative.submit_if_ended ⟨0, 0⟩ rctx p ⟨index, ∅, ∅⟩ >>= fun rctx => do
        SyncResult.assert .duplicateBatch (native.branches.get? p = none)
        return (rctx, (⟨native.branches.insert p ⟨index, ∅, ∅⟩⟩ : BranchingNative))) = _
      rw [hsubmit]
      rfl
    rw [List.replicate_succ, BranchingNative.start_batches, hstart]
    by_cases hn : native.branches.get? p = none
    case pos =>
      rw [SyncResult.assert_pos hn]
      exact ih (hs.knows hk)
    case neg =>
      right
      rw [SyncResult.assert, if_neg hn]
      rfl

theorem begin_round_portless {n : Nat} (h : ∀ rctx r, BranchingNative.start_batches ⟨∅, ∅⟩ ⟨0, 0⟩ ⟨0, 100⟩ 0
      (List.replicate n (∅, ⟨[], [], []⟩)) (rctx, ⟨∅⟩) ≠ .ok r) :
    begin_round emptyProtocol portless (portlessNode (List.replicate n ∅)).comm false
      ⟨0, [], [], List.replicate n ⟨[], [], []⟩⟩ = .error (.panic .duplicateBatch) := by
  let rctx : RoundCtx := ⟨.new [.localComponent ⟨0, 0⟩], ⟨0, ⟨101⟩⟩, [], false, portless.ips⟩
  have hlen : (List.replicate n (⟨[], [], []⟩ : BranchingNative.BatchOrder)).length =
      (List.replicate n (∅ : NativeBatch)).length := by
    rw [List.length_replicate, List.length_replicate]
  have hk : rctx.solution_storage.Knows (.localComponent ⟨0, 0⟩) := ⟨0, rfl, Nat.zero_lt_one⟩
  have hstart := (start_batches_portless hk n).resolve_left fun hr => hr.elim (h rctx)
  show (SyncResult.choose ((List.replicate n (⟨[], [], []⟩ : BranchingNative.BatchOrder)).length =
    (List.replicate n (∅ : NativeBatch)).length) >>= fun _ => BranchingNative.start_batches ⟨∅, ∅⟩ ⟨0, 0⟩ ⟨0, 100⟩ 0
    ((List.replicate n ∅).zip (List.replicate n ⟨[], [], []⟩)) (rctx, ⟨∅⟩) >>= _) = _
  rw [SyncResult.choose_pos hlen, SyncResult.ok_bind, List.zip_replicate', hstart]
  rfl

-- More batches than that, which are all empty.
theorem many_batches_collide : ∃ (node : SessionNode Unit) (native_spec_var : SpecVar) (stream : SpecVarStream)
    (orders : RoundOrders), (life emptyProtocol).Reachable (.session node) ∧
    node.unphased.ips.id_manager.new_spec_var_stream.next = some (native_spec_var, stream) ∧
    node.comm.native_batches = List.replicate 65537 ∅ ∧
    begin_round emptyProtocol node.unphased node.comm false orders = .error (.panic .duplicateBatch) ∧
    ¬ node.Identity emptyProtocol native_spec_var := by
  have hbegin : begin_round emptyProtocol portless (portlessNode (List.replicate 65537 ∅)).comm false
      ⟨0, [], [], List.replicate 65537 ⟨[], [], []⟩⟩ = .error (.panic .duplicateBatch) := by
    refine begin_round_portless fun rctx r h => ?_
    obtain ⟨rctx', native'⟩ := r
    have hget {k : Nat} (hk : k < 65537) : (List.replicate 65537 ((∅ : NativeBatch),
        (⟨[], [], []⟩ : BranchingNative.BatchOrder)))[k]? = some (∅, ⟨[], [], []⟩) := by
      rw [List.getElem?_replicate, if_pos hk]
    have hfirst := BranchingNative.start_batches_assigned h (hget (by decide : 0 < 65537)) rfl
    have hlast := BranchingNative.start_batches_assigned h (hget (by decide : 65536 < 65537)) rfl
    rw [BranchingNative.iter_domain_inj.mpr (by decide : (0 + 65536) % 2 ^ 16 = (0 + 0) % 2 ^ 16)] at hlast
    cases hfirst.symm.trans hlast
  exact ⟨_, _, _, _, reachable_portlessNode 65536, rfl, rfl, hbegin, fun hi => hi.reached _ _ hbegin⟩

end Life

end Reowolf
