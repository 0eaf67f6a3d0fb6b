import Reowolf.Runtime.Setup

namespace Reowolf

namespace SetupNode

variable {connector_id : ConnectorId} {num_net_endpoints : Nat} {node node' : SetupNode}
variable {index : Nat} {msg : Msg} {out : Outbox}

def IsInfo : Msg → Prop
  | .setupMsg (.myPortInfo _) => True
  | _                         => False

-- Only messages of the communication phase are delayed.
def Delays (node : SetupNode) : Prop :=
  ∀ e ∈ node.delayed_messages ++ node.undelayed_messages, ∃ msg, e.2 = .commMsg msg

theorem Delays.undelay_all (h : node.Delays) : node.undelay_all.Delays := by
  simpa [Delays, SetupNode.undelay_all] using h

theorem Delays.delay {msg : CommMsg} (h : node.Delays) :
    (node.delay index (.commMsg msg)).Delays := by
  intro e he
  cases List.mem_cons.mp he
  case inl he => exact ⟨msg, he ▸ rfl⟩
  case inr he => exact h e he

theorem not_info_start (hm : msg ∈ (node.start connector_id num_net_endpoints).2.through index) :
    ¬IsInfo msg := by
  unfold start at hm
  split at hm
  case isTrue => cases hm
  case isFalse =>
    simp only [do_wave, Outbox.through_map (List.nodup_range.filter _), others] at hm
    split at hm
    case isTrue  => cases List.mem_singleton.mp hm; exact id
    case isFalse => cases hm

theorem Delays.start (h : node.Delays) : (node.start connector_id num_net_endpoints).1.Delays := by
  unfold SetupNode.start
  split <;> exact h.undelay_all

theorem start_phase : (∃ nb, (node.start connector_id num_net_endpoints).1.phase = .returned nb) ∨
    ∃ b a, (node.start connector_id num_net_endpoints).1.phase = .election b a := by
  unfold start
  split
  case isTrue  => exact .inl ⟨_, rfl⟩
  case isFalse => exact .inr ⟨_, _, rfl⟩

theorem not_info_start_construction {ws : WaveState}
    (hm : msg ∈ (node.start_construction num_net_endpoints ws).2.through index) : ¬IsInfo msg := by
  simp only [start_construction, Outbox.through_map List.nodup_range, construction_msg] at hm
  split at hm
  case isFalse => cases hm
  case isTrue =>
    cases List.mem_singleton.mp hm
    split <;> exact id

theorem not_info_wave {i : Nat} {w : ConnectorId} {is : List Nat}
    (hm : msg ∈ Outbox.through (is.map (·, .setupMsg (.leaderWave w))) i) : ¬IsInfo msg := by
  simp only [Outbox.through, List.filterMap_map, List.mem_filterMap] at hm
  obtain ⟨i', _, hm⟩ := hm
  simp only [Function.comp] at hm
  split at hm
  case isTrue  => cases hm; exact id
  case isFalse => cases hm

namespace Reaction

theorem delays (h : Reaction connector_id num_net_endpoints node index msg node' out)
    (hd : node.Delays) (hm : (∃ u v, node.phase = .pairing u v) → IsInfo msg) : node'.Delays := by
  cases h
  case announced | wins => exact hd.undelay_all
  case comm => exact hd.delay
  case early hp hno =>
    have hm := hm ⟨_, _, hp⟩
    unfold IsInfo at hm
    split at hm
    case h_1 => exact absurd rfl (hno _)
    case h_2 => cases hm
  all_goals exact hd

theorem not_info (h : Reaction connector_id num_net_endpoints node index msg node' out) {i : Nat}
    {m : Msg} (hm : m ∈ out.through i) : ¬IsInfo m := by
  cases h
  case announced | wins => exact not_info_start_construction hm
  case joins w hp hlt =>
    rw [Outbox.through_append, List.mem_append] at hm
    cases hm
    case inl hm => exact not_info_wave hm
    case inr hm =>
      split at hm
      case isTrue  => exact @not_info_wave _ _ _ [index] hm
      case isFalse => cases hm
  case hears =>
    split at hm
    case isTrue  => exact not_info_wave hm
    case isFalse => cases hm
  all_goals cases hm

theorem not_pairing (h : Reaction connector_id num_net_endpoints node index msg node' out)
    (hp : ∀ {u v}, node.phase ≠ .pairing u v) {u v} : node'.phase ≠ .pairing u v := by
  cases h
  case paired h => exact absurd h hp
  case announced | joins | hears | wins | notChild | child => exact nofun
  all_goals exact hp

end Reaction
end SetupNode

namespace Network

open Topology Topology.State

open SetupNode

variable {K : Type} [DecidableEq K] {net : Network K}

namespace State

variable {s s' : State net} {e e' : net.End} {k : K} {node : SetupNode} {out : Outbox}

def Unsent (s : State net) (e : net.End) : Prop :=
  ∃ unsent waiting, (s.node e.node).phase = .pairing unsent waiting ∧ e.index ∈ unsent

def Waiting (s : State net) (e : net.End) : Prop :=
  ∃ unsent waiting, (s.node e.node).phase = .pairing unsent waiting ∧ e.index ∈ waiting

-- A port's info is the first message that arrives through an endpoint, and the only info.
structure InfoInv (s : State net) : Prop where
  delays  : ∀ k, (s.node k).Delays
  unsent  : ∀ {e}, s.Unsent (net.peer e) → s.chan e = [] ∧ s.Waiting e
  waiting : ∀ {e}, s.Waiting e → ¬s.Unsent (net.peer e) →
              ∃ info msgs, s.chan e = .setupMsg (.myPortInfo info) :: msgs ∧ ∀ m ∈ msgs, ¬IsInfo m
  paired  : ∀ {e}, ¬s.Waiting e → ∀ m ∈ s.chan e, ¬IsInfo m

theorem InfoInv.init (hs : net.setup.Init s) : s.InfoInv := by
  obtain ⟨hn, hc⟩ := hs
  have hw {e : net.End} : s.Waiting e := by
    refine ⟨_, _, by rw [hn], Finset.mem_range.mpr e.valid⟩
  have hu {e : net.End} : s.Unsent e := by
    refine ⟨_, _, by rw [hn], Finset.mem_range.mpr e.valid⟩
  constructor
  case delays  => intro k; simp [hn, Delays]
  case unsent  => exact fun _ => ⟨hc _, hw⟩
  case waiting => exact fun _ h => absurd hu h
  case paired  => exact fun h => absurd hw h

theorem unsent_act_ne (he : e.node ≠ k) : (s.act k node out).Unsent e ↔ s.Unsent e := by
  simp [Unsent, act_node_ne he]

theorem waiting_act_ne (he : e.node ≠ k) : (s.act k node out).Waiting e ↔ s.Waiting e := by
  simp [Waiting, act_node_ne he]

theorem mem_incoming {m : Msg} (h : m ∈ net.incoming k out e) :
    (net.peer e).node = k ∧ m ∈ out.through (net.peer e).index := by
  unfold incoming at h
  split at h
  case isTrue hk => exact ⟨hk, h⟩
  case isFalse   => cases h

theorem delays_act (hd : node.Delays) (hs : ∀ k, (s.node k).Delays) (k' : K) :
    ((s.act k node out).node k').Delays := by
  by_cases hk : k' = k
  case pos =>
    subst hk
    rwa [act_node_self]
  case neg =>
    rw [act_node_ne hk]
    exact hs k'

-- A step of a connector that exchanges no infos, as it does not any more.
theorem InfoInv.quiet {t : State net} (hi : s.InfoInv) (hd : node.Delays) (ht : t.node = s.node)
    (hc : ∀ e, t.chan e = s.chan e ∨ e.node = k ∧ ∀ m ∈ t.chan e, m ∈ s.chan e)
    (hk : ∀ {u v}, (s.node k).phase = .pairing u v → u = ∅ ∧ v = ∅)
    (hk' : ∀ {u v}, node.phase ≠ .pairing u v)
    (ho : ∀ i, ∀ m ∈ out.through i, ¬IsInfo m) : (t.act k node out).InfoInv := by
  have hu {e : net.End} : (t.act k node out).Unsent e ↔ s.Unsent e := by
    by_cases he : e.node = k
    case neg => simp [Unsent, act_node_ne he, ht]
    case pos =>
      subst he
      constructor
      · rintro ⟨_, _, hp, _⟩
        rw [act_node_self] at hp
        exact absurd hp hk'
      · rintro ⟨_, _, hp, hx⟩
        simp [(hk hp).left] at hx
  have hw {e : net.End} : (t.act k node out).Waiting e ↔ s.Waiting e := by
    by_cases he : e.node = k
    case neg => simp [Waiting, act_node_ne he, ht]
    case pos =>
      subst he
      constructor
      · rintro ⟨_, _, hp, _⟩
        rw [act_node_self] at hp
        exact absurd hp hk'
      · rintro ⟨_, _, hp, hx⟩
        simp [(hk hp).right] at hx
  have hnot {e : net.End} (he : e.node = k) : ¬s.Unsent e ∧ ¬s.Waiting e := by
    rw [← hu, ← hw]
    constructor <;>
    · rintro ⟨_, _, hp, _⟩
      rw [he, act_node_self] at hp
      exact hk' hp
  constructor
  case delays => exact delays_act hd (ht ▸ hi.delays)
  case unsent =>
    intro e he
    have he := hu.mp he
    obtain ⟨hnil, hwait⟩ := hi.unsent he
    have hne : (net.peer e).node ≠ k := fun h => (hnot h).left he
    have hne' : e.node ≠ k := fun h => (hnot h).right hwait
    have hce : t.chan e = [] := ((hc e).resolve_right fun h => hne' h.left).trans hnil
    exact ⟨by simp [act, Topology.State.act, incoming, hne, hce], hw.mpr hwait⟩
  case waiting =>
    intro e hwait hsent
    have hwait := hw.mp hwait
    have hne : e.node ≠ k := fun h => (hnot h).right hwait
    obtain ⟨info, msgs, hce, hm⟩ := hi.waiting hwait (hu.not.mp hsent)
    have hce : t.chan e = _ := ((hc e).resolve_right fun h => hne h.left).trans hce
    refine ⟨info, msgs ++ net.incoming k out e, by simp [act, Topology.State.act, hce], fun m h => ?_⟩
    cases List.mem_append.mp h
    case inl h => exact hm m h
    case inr h => exact ho _ m (mem_incoming h).right
  case paired =>
    intro e hpaired m h
    cases List.mem_append.mp h
    case inr h => exact ho _ m (mem_incoming h).right
    case inl h =>
      have h : m ∈ s.chan e := by
        cases hc e
        case inl hc => exact hc ▸ h
        case inr hc => exact hc.right m h
      exact hi.paired (hw.not.mp hpaired) m h

theorem InfoInv.sendInfo {u v index info} (hi : s.InfoInv)
    (hp : (s.node k).phase = .pairing u v) (hx : index ∈ u) :
    (s.act k { s.node k with phase := .pairing (u.erase index) v }
      [(index, .setupMsg (.myPortInfo info))]).InfoInv := by
  have hw {e : net.End} : (s.act k { s.node k with phase := .pairing (u.erase index) v }
      [(index, .setupMsg (.myPortInfo info))]).Waiting e ↔ s.Waiting e := by
    by_cases he : e.node = k
    case neg => exact waiting_act_ne he
    case pos => simp [Waiting, he, hp]
  have hu {e : net.End} : (s.act k { s.node k with phase := .pairing (u.erase index) v }
      [(index, .setupMsg (.myPortInfo info))]).Unsent e ↔
        s.Unsent e ∧ ¬(e.node = k ∧ e.index = index) := by
    by_cases he : e.node = k
    case neg => simp [unsent_act_ne he, he]
    case pos => simp [Unsent, he, hp, and_comm]
  have hchan {e : net.End} : net.incoming k [(index, .setupMsg (.myPortInfo info))] e =
      if (net.peer e).node = k ∧ (net.peer e).index = index then [.setupMsg (.myPortInfo info)]
      else [] := by
    by_cases hk : (net.peer e).node = k
    case neg => simp [incoming, hk]
    case pos => by_cases hx : index = (net.peer e).index <;>
      simp [incoming, hk, Outbox.through, hx, eq_comm]
  have hfirst {e : net.End} (h : (net.peer e).node = k ∧ (net.peer e).index = index) :
      s.chan e = [] ∧ s.Waiting e :=
    hi.unsent ⟨u, v, h.left ▸ hp, h.right ▸ hx⟩
  constructor
  case delays => exact delays_act (hi.delays k) hi.delays
  case unsent =>
    intro e he
    obtain ⟨he, hne⟩ := hu.mp he
    obtain ⟨hnil, hwait⟩ := hi.unsent he
    exact ⟨by simp [act, Topology.State.act, hchan, hnil, hne], hw.mpr hwait⟩
  case waiting =>
    intro e hwait hsent
    by_cases h : (net.peer e).node = k ∧ (net.peer e).index = index
    case pos =>
      exact ⟨info, [], by simp [act, Topology.State.act, hchan, h, (hfirst h).left],
        fun _ hm => by cases hm⟩
    case neg =>
      have hsent : ¬s.Unsent (net.peer e) := fun he => hsent (hu.mpr ⟨he, h⟩)
      obtain ⟨info, msgs, hc, hm⟩ := hi.waiting (hw.mp hwait) hsent
      exact ⟨info, msgs, by simp [act, Topology.State.act, hchan, h, hc], hm⟩
  case paired =>
    intro e hpaired m hm
    by_cases h : (net.peer e).node = k ∧ (net.peer e).index = index
    case pos => exact absurd (hfirst h).right (hw.not.mp hpaired)
    case neg =>
      simp only [act, Topology.State.act, hchan, h, if_false, List.append_nil] at hm
      exact hi.paired (hw.not.mp hpaired) m hm

theorem InfoInv.receives {u v info msgs} {e₀ : net.End} (hi : s.InfoInv)
    (hp : (s.node e₀.node).phase = .pairing u v) (hx : e₀.index ∈ v)
    (hc : s.chan e₀ = .setupMsg (.myPortInfo info) :: msgs) :
    ((s.pop e₀).act e₀.node { s.node e₀.node with phase := .pairing u (v.erase e₀.index) } []).InfoInv := by
  have hu {e : net.End} : ((s.pop e₀).act e₀.node
      { s.node e₀.node with phase := .pairing u (v.erase e₀.index) } []).Unsent e ↔ s.Unsent e := by
    by_cases he : e.node = e₀.node
    case neg => exact unsent_act_ne he
    case pos => simp [Unsent, he, hp]
  have hw {e : net.End} : ((s.pop e₀).act e₀.node
      { s.node e₀.node with phase := .pairing u (v.erase e₀.index) } []).Waiting e ↔
        s.Waiting e ∧ e ≠ e₀ := by
    by_cases he : e.node = e₀.node
    case neg =>
      have hne : e ≠ e₀ := by
        rintro rfl
        exact he rfl
      simp [waiting_act_ne he, hne]
      rfl
    case pos =>
      have hne : e = e₀ ↔ e.index = e₀.index := by
        simp [Endpoint.ext_iff, he]
      simp [Waiting, he, hp, hne, and_comm]
  have hchan {e : net.End} (hne : e ≠ e₀) : ((s.pop e₀).act e₀.node
      { s.node e₀.node with phase := .pairing u (v.erase e₀.index) } []).chan e = s.chan e := by
    simp [act, Topology.State.act, incoming, Outbox.through, pop, Topology.State.pop, hne]
  have hmsgs : ((s.pop e₀).act e₀.node
      { s.node e₀.node with phase := .pairing u (v.erase e₀.index) } []).chan e₀ = msgs := by
    simp [act, Topology.State.act, incoming, Outbox.through, pop, Topology.State.pop, hc]
  have hwait₀ : s.Waiting e₀ := ⟨u, v, hp, hx⟩
  have hsent₀ : ¬s.Unsent (net.peer e₀) := by
    intro h
    cases hc.symm.trans (hi.unsent h).left
  constructor
  case delays => exact delays_act (hi.delays e₀.node) hi.delays
  case unsent =>
    intro e he
    have hne : e ≠ e₀ := by
      rintro rfl
      exact hsent₀ (hu.mp he)
    obtain ⟨hnil, hwait⟩ := hi.unsent (hu.mp he)
    exact ⟨(hchan hne).trans hnil, hw.mpr ⟨hwait, hne⟩⟩
  case waiting =>
    intro e hwait hsent
    obtain ⟨hwait, hne⟩ := hw.mp hwait
    obtain ⟨info, msgs, hc, hm⟩ := hi.waiting hwait (hu.not.mp hsent)
    exact ⟨info, msgs, (hchan hne).trans hc, hm⟩
  case paired =>
    intro e hpaired m hm
    by_cases he : e = e₀
    case pos =>
      subst he
      obtain ⟨_, _, hc', hno⟩ := hi.waiting hwait₀ hsent₀
      cases hc.symm.trans hc'
      exact hno m (hmsgs ▸ hm)
    case neg =>
      rw [hchan he] at hm
      exact hi.paired (fun h => hpaired (hw.mpr ⟨h, he⟩)) m hm

omit [DecidableEq K] in
-- Before the election, a connector only reads infos.
theorem InfoInv.reads_info {u v msg msgs} (hi : s.InfoInv) (hp : (s.node e.node).phase = .pairing u v)
    (hr : (s.node e.node).Reads e.index) (hc : s.chan e = msg :: msgs) :
    e.index ∈ v ∧ ∃ info, msg = .setupMsg (.myPortInfo info) := by
  simp only [Reads, hp] at hr
  have hsent : ¬s.Unsent (net.peer e) := by
    intro hu
    cases hc.symm.trans (hi.unsent hu).left
  obtain ⟨info, msgs', hc', _⟩ := hi.waiting ⟨u, v, hp, hr⟩ hsent
  cases hc.symm.trans hc'
  exact ⟨hr, info, rfl⟩

theorem InfoInv.recv {e : net.End} {msg msgs} (hi : s.InfoInv)
    (hr : (s.node e.node).Reads e.index) (hc : s.chan e = msg :: msgs)
    (h : Reaction (net.connector_id e.node) (net.num_net_endpoints e.node) (s.node e.node) e.index
      msg node out) : ((s.pop e).act e.node node out).InfoInv := by
  by_cases hp : ∃ u v, (s.node e.node).phase = .pairing u v
  case pos =>
    obtain ⟨u, v, hp⟩ := hp
    obtain ⟨hx, info, hm⟩ := hi.reads_info hp hr hc
    subst hm
    cases h
    case paired hp' =>
      cases hp.symm.trans hp'
      exact hi.receives hp hx hc
    case early hno => exact absurd rfl (hno info)
    case discards hp' _ | returned hp' => cases hp.symm.trans hp'
  case neg =>
    have hp {u v} : (s.node e.node).phase ≠ .pairing u v := fun h => hp ⟨u, v, h⟩
    have hd := h.delays (hi.delays _) fun h => h.elim fun _ h => h.elim fun _ h => absurd h hp
    apply hi.quiet (t := s.pop e) hd rfl
    case hc =>
      intro e'
      by_cases he : e' = e
      case pos =>
        subst he
        exact .inr ⟨rfl, fun m hm => List.mem_of_mem_tail (by simpa [pop, Topology.State.pop] using hm)⟩
      case neg => exact .inl (by simp [pop, Topology.State.pop, he])
    case hk  => exact fun h => absurd h hp
    case hk' => exact h.not_pairing hp
    case ho  => exact fun _ _ => h.not_info

theorem InfoInv.step {a : SetupAct} (hi : s.InfoInv) (hs : s.Step a s') : s'.InfoInv := by
  cases hs
  case sendInfo hp hx => exact hi.sendInfo hp hx
  case recv hread _ hc hr => exact hi.recv hread hc (recv_cases hr)
  case start k hp =>
    apply hi.quiet (hi.delays k).start rfl (fun _ => .inl rfl)
    case hk =>
      intro u v hp'
      cases hp.symm.trans hp'
      exact ⟨rfl, rfl⟩
    case hk' =>
      intro u v hp'
      cases @start_phase (net.connector_id k) (net.num_net_endpoints k) (s.node k)
      case inl h =>
        obtain ⟨_, h⟩ := h
        cases h.symm.trans hp'
      case inr h =>
        obtain ⟨_, _, h⟩ := h
        cases h.symm.trans hp'
    case ho => exact fun _ _ => not_info_start
  case undelayed k index msg msgs node out hp hread hu hr =>
    have hr := recv_cases hr
    have hd : SetupNode.Delays { s.node k with undelayed_messages := msgs } := by
      intro e he
      apply hi.delays k e
      simp only [hu, List.mem_append, List.mem_cons] at he ⊢
      exact he.imp_right .inr
    have hd' := hr.delays hd fun h => h.elim fun _ h => h.elim fun _ h => absurd h hp
    apply hi.quiet hd' rfl (fun _ => .inl rfl)
    case hk  => exact fun h => absurd h hp
    case hk' => exact hr.not_pairing hp
    case ho  => exact fun _ _ => hr.not_info
  case finish k election_result children hp =>
    have hd : ((s.node k).finish election_result children).Delays := hi.delays k
    apply hi.quiet hd rfl (fun _ => .inl rfl)
    case hk  => exact fun h => by cases hp.symm.trans h
    case hk' => exact fun h => by cases h
    case ho  => exact fun _ _ hm => by cases hm
  case comm k neighborhood index msg hp =>
    apply hi.quiet (hi.delays k) rfl (fun _ => .inl rfl)
    case hk  => exact fun h => by cases hp.symm.trans h
    case hk' => exact fun h => by cases hp.symm.trans h
    case ho =>
      intro i m hm
      simp only [Outbox.through, List.filterMap_cons] at hm
      split at hm
      case h_1 => cases hm
      case h_2 h =>
        split at h
        case isFalse => cases h
        case isTrue =>
          cases h
          cases List.mem_singleton.mp hm
          exact id

end State
end Network
end Reowolf
