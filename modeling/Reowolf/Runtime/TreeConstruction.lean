import Mathlib.Data.Fintype.Lattice
import Reowolf.Runtime.Election

namespace Reowolf

namespace SetupPhase

-- The parent in the tree, once the connector has left the election.
def tree_parent : SetupPhase → Option (Option Nat)
  | .construction election_result _ _ => some election_result.parent
  | .returned neighborhood            => some neighborhood.parent
  | _                                 => none

-- The connector has received the message that constructs the tree through the endpoint.
def Heard : SetupPhase → Nat → Prop
  | .construction _ awaiting _, index => index ∉ awaiting
  | .returned _, _                    => True
  | _, _                              => False

def children : SetupPhase → List Nat
  | .construction _ _ children => children
  | .returned neighborhood     => neighborhood.children
  | _                          => []

end SetupPhase

namespace Network

open Topology Topology.State

open SetupNode

-- The messages that construct the tree.
def trees (msgs : List Msg) : List SetupMsg :=
  msgs.filterMap fun
    | .setupMsg (.leaderAnnounce leader) => some (.leaderAnnounce leader)
    | .setupMsg .youAreMyParent          => some .youAreMyParent
    | _                                  => none

variable {K : Type} {net : Network K}

namespace State

def tree_parent (s : State net) (k : K) : Option (Option Nat) :=
  (s.node k).phase.tree_parent

def Heard (s : State net) (e : net.End) : Prop :=
  (s.node e.node).phase.Heard e.index

theorem Heard.tree_parent {s : State net} {e : net.End} (h : s.Heard e) :
    s.tree_parent e.node ≠ none := by
  unfold State.Heard SetupPhase.Heard at h
  unfold State.tree_parent
  split at h
  case h_1 hp => exact hp ▸ nofun
  case h_2 hp => exact hp ▸ nofun
  case h_3    => cases h

-- The tree grows from the connector `m`. A connector that has a parent in it has been added later
-- than its parent.
structure TreeInv (m : K) (rank : K → Nat) (s : State net) : Prop where
  leader   : ∀ {k r a c}, (s.node k).phase = .construction r a c → r.leader = net.connector_id m
  root     : ∀ {k}, s.tree_parent k = some none → k = m
  won      : ∀ {k}, s.tree_parent k ≠ none → s.tree_parent m = some none
  child    : ∀ {k i}, s.tree_parent k = some (some i) → ∃ e : net.End, e.node = k ∧ e.index = i ∧
               s.Heard e ∧ rank (net.peer e).node < rank k ∧
               ∃ q, s.tree_parent (net.peer e).node = some q ∧ q ≠ some (net.peer e).index
  unsent   : ∀ {e}, s.tree_parent (net.peer e).node = none → trees (s.chan e) = [] ∧ ¬s.Heard e
  sent     : ∀ {e q}, s.tree_parent (net.peer e).node = some q → ¬s.Heard e →
               trees (s.chan e) = [construction_msg ⟨q, net.connector_id m⟩ (net.peer e).index]
  heard    : ∀ {e}, s.Heard e → trees (s.chan e) = []
  children : ∀ {e : net.End}, s.Heard e → (e.index ∈ (s.node e.node).phase.children ↔
               s.tree_parent (net.peer e).node = some (some (net.peer e).index))
  valid    : ∀ {k i}, i ∈ (s.node k).phase.children → ∃ e : net.End, e.node = k ∧ e.index = i ∧ s.Heard e

variable {m : K} {rank : K → Nat} {s s' : State net}

theorem TreeInv.init [DecidableEq K] (hs : net.setup.Init s) : s.TreeInv m rank := by
  obtain ⟨hn, hc⟩ := hs
  have hp {k} : s.tree_parent k = none := by simp [tree_parent, hn, SetupPhase.tree_parent]
  have hh {e} : ¬s.Heard e := by simp [Heard, hn, SetupPhase.Heard]
  constructor
  case leader   => simp [hn]
  case root     => simp [hp]
  case won      => simp [hp]
  case child    => simp [hp]
  case unsent   => exact fun _ => ⟨by simp [hc, trees], hh⟩
  case sent     => simp [hp]
  case heard    => exact fun h => absurd h hh
  case children => exact fun h => absurd h hh
  case valid    => simp [hn, SetupPhase.children]

-- A step that does not concern the tree.
theorem TreeInv.quiet (hi : s.TreeInv m rank)
    (hl : ∀ {k r a c}, (s'.node k).phase = .construction r a c →
      (s.node k).phase = .construction r a c)
    (hp : ∀ k, (s'.node k).phase.tree_parent = (s.node k).phase.tree_parent)
    (hh : ∀ k i, (s'.node k).phase.Heard i ↔ (s.node k).phase.Heard i)
    (hk : ∀ {k i}, i ∈ (s'.node k).phase.children ↔ i ∈ (s.node k).phase.children)
    (hc : ∀ e, trees (s'.chan e) = trees (s.chan e)) : s'.TreeInv m rank := by
  have hp k : s'.tree_parent k = s.tree_parent k := hp k
  have hh e : s'.Heard e ↔ s.Heard e := hh e.node e.index
  constructor
  case leader   => exact fun h => hi.leader (hl h)
  case root     => simp only [hp]; exact hi.root
  case won      => simp only [hp]; exact hi.won
  case child    => simp only [hp, hh]; exact hi.child
  case unsent   => simp only [hp, hh, hc]; exact hi.unsent
  case sent     => simp only [hp, hh, hc]; exact hi.sent
  case heard    => simp only [hh, hc]; exact hi.heard
  case children => simp only [hp, hh, hk]; exact hi.children
  case valid    => simp only [hh, hk]; exact hi.valid

variable [DecidableEq K] {t : State net} {k : K} {node : SetupNode} {out : Outbox} {e : net.End}

theorem tree_parent_act_ne {k' : K} (hk : k' ≠ k) :
    (s.act k node out).tree_parent k' = s.tree_parent k' := by
  simp [tree_parent, act_node_ne hk]

theorem heard_act_ne (hk : e.node ≠ k) : (s.act k node out).Heard e ↔ s.Heard e := by
  simp [Heard, act_node_ne hk]

theorem trees_append {l l' : List Msg} : trees (l ++ l') = trees l ++ trees l' :=
  List.filterMap_append

theorem trees_act_ne (hk : (net.peer e).node ≠ k) :
    trees ((t.act k node out).chan e) = trees (t.chan e) := by
  simp [act, Topology.State.act, incoming, hk]

theorem trees_act (hk : (net.peer e).node = k) : trees ((t.act k node out).chan e) =
    trees (t.chan e) ++ trees (out.through (net.peer e).index) := by
  simp [act, Topology.State.act, incoming, hk, trees_append]

-- A connector leaves the election: as the winner, or as it receives an announcement through `e₀`,
-- which it has taken from the channel.
theorem TreeInv.enters {p : Option Nat} {d : Nat} (hi : s.TreeInv m rank)
    (hk : s.tree_parent k = none)
    (hp : node.phase = .construction ⟨p, net.connector_id m⟩
      (others (net.num_net_endpoints k) p).toFinset [])
    (ht : t.node = s.node)
    (hc : ∀ e : net.End, ¬(e.node = k ∧ p = some e.index) → trees (t.chan e) = trees (s.chan e))
    (hroot : p = none → k = m)
    (hchild : ∀ {i}, p = some i → ∃ e : net.End, e.node = k ∧ e.index = i ∧
      trees (t.chan e) = [] ∧ rank (net.peer e).node < d ∧
      ∃ q, s.tree_parent (net.peer e).node = some q ∧ q ≠ some (net.peer e).index)
    (ho : ∀ e : net.End, e.node = k →
      trees (out.through e.index) = [construction_msg ⟨p, net.connector_id m⟩ e.index]) :
    (t.act k node out).TreeInv m (Function.update rank k d) := by
  have hself : (t.act k node out).tree_parent k = some p := by
    simp [tree_parent, hp, SetupPhase.tree_parent]
  have hne {k'} (hne : k' ≠ k) : (t.act k node out).tree_parent k' = s.tree_parent k' := by
    rw [tree_parent_act_ne hne, tree_parent, ht]
    rfl
  have hin {k' q} (h : s.tree_parent k' = some q) : k' ≠ k := by
    rintro rfl
    cases hk.symm.trans h
  have hmono {k' q} (h : s.tree_parent k' = some q) : (t.act k node out).tree_parent k' = some q :=
    (hne (hin h)).trans h
  have hheard {e : net.End} (he : e.node = k) : (t.act k node out).Heard e ↔ p = some e.index := by
    subst he
    simp [Heard, hp, SetupPhase.Heard, mem_others, e.valid, eq_comm]
  have hheard_ne {e : net.End} (he : e.node ≠ k) : (t.act k node out).Heard e ↔ s.Heard e := by
    rw [heard_act_ne he, Heard, ht]
    rfl
  -- the endpoint through which the announcement has arrived
  have harrived {e : net.End} (he : e.node = k) (hpe : p = some e.index) : trees (t.chan e) = [] ∧
      rank (net.peer e).node < d ∧
      ∃ q, s.tree_parent (net.peer e).node = some q ∧ q ≠ some (net.peer e).index := by
    obtain ⟨e', hn, hx, h⟩ := hchild hpe
    have he : e' = e := Endpoint.ext (hn.trans he.symm) hx
    exact he ▸ h
  have hkids {k' : K} (hk' : k' ≠ k) : ((t.act k node out).node k').phase.children =
      (s.node k').phase.children := by
    rw [act_node_ne hk', ht]
  constructor
  case leader =>
    intro k' r a c hp'
    by_cases hk' : k' = k
    case pos =>
      subst hk'
      rw [act_node_self, hp] at hp'
      cases hp'
      rfl
    case neg =>
      rw [act_node_ne hk', ht] at hp'
      exact hi.leader hp'
  case root =>
    intro k' hk'
    by_cases h : k' = k
    case pos =>
      subst h
      exact hroot (Option.some.inj (hself.symm.trans hk'))
    case neg => exact hi.root (hne h ▸ hk')
  case won =>
    intro k' hk'
    by_cases h : k' = k
    case neg => exact hmono (hi.won (hne h ▸ hk'))
    case pos =>
      cases hpp : p
      case none =>
        have hm := hroot hpp
        rw [← hm, hself, hpp]
      case some i =>
        obtain ⟨_, _, _, _, _, q, hq, _⟩ := hchild hpp
        have hq : s.tree_parent _ ≠ none := fun h => nomatch hq.symm.trans h
        exact hmono (hi.won hq)
  case child =>
    intro k' i hk'
    by_cases h : k' = k
    case pos =>
      subst h
      have hpi := Option.some.inj (hself.symm.trans hk')
      obtain ⟨e, hn, hx, _, hd, q, hq, hqx⟩ := hchild hpi
      refine ⟨e, hn, hx, (hheard hn).mpr (hx ▸ hpi), ?_, q, hmono hq, hqx⟩
      rwa [Function.update_self, Function.update_of_ne (hin hq)]
    case neg =>
      obtain ⟨e, hn, hx, hh, hd, q, hq, hqx⟩ := hi.child (hne h ▸ hk')
      refine ⟨e, hn, hx, (hheard_ne (hn ▸ h)).mpr hh, ?_, q, hmono hq, hqx⟩
      rwa [Function.update_of_ne h, Function.update_of_ne (hin hq)]
  case unsent =>
    intro e he
    have hek : (net.peer e).node ≠ k := by
      intro h
      rw [h, hself] at he
      cases he
    rw [hne hek] at he
    obtain ⟨htr, hh⟩ := hi.unsent he
    have hnot : ¬(e.node = k ∧ p = some e.index) := by
      rintro ⟨hn, hpe⟩
      obtain ⟨_, _, q, hq, _⟩ := harrived hn hpe
      cases he.symm.trans hq
    refine ⟨by rw [trees_act_ne hek, hc e hnot, htr], ?_⟩
    by_cases hn : e.node = k
    case pos => exact fun h => hnot ⟨hn, (hheard hn).mp h⟩
    case neg => exact fun h => hh ((hheard_ne hn).mp h)
  case sent =>
    intro e q hq hh
    have hnot : ¬(e.node = k ∧ p = some e.index) := fun h => hh ((hheard h.left).mpr h.right)
    have hold : ¬s.Heard e := by
      by_cases hn : e.node = k
      case neg => exact fun h => hh ((hheard_ne hn).mpr h)
      case pos => exact fun h => h.tree_parent (hn ▸ hk)
    by_cases hek : (net.peer e).node = k
    case pos =>
      rw [hek, hself] at hq
      cases hq
      have htr := (hi.unsent (hek ▸ hk)).left
      rw [trees_act hek, hc e hnot, htr, ho _ hek]
      rfl
    case neg =>
      rw [hne hek] at hq
      rw [trees_act_ne hek, hc e hnot, hi.sent hq hold]
  case heard =>
    intro e hh
    have hek : (net.peer e).node ≠ k := by
      by_cases hn : e.node = k
      case pos =>
        obtain ⟨_, _, q, hq, _⟩ := harrived hn ((hheard hn).mp hh)
        exact hin hq
      case neg =>
        rintro rfl
        exact (hi.unsent hk).right ((hheard_ne hn).mp hh)
    rw [trees_act_ne hek]
    by_cases hn : e.node = k
    case pos => exact (harrived hn ((hheard hn).mp hh)).left
    case neg => rw [hc e (fun h => hn h.left), hi.heard ((hheard_ne hn).mp hh)]
  case children =>
    intro e hh
    by_cases hn : e.node = k
    case pos =>
      obtain ⟨_, _, q, hq, hqx⟩ := harrived hn ((hheard hn).mp hh)
      rw [hmono hq]
      subst hn
      rw [act_node_self, hp]
      simp [SetupPhase.children, hqx]
    case neg =>
      have hold := (hheard_ne hn).mp hh
      have hek : (net.peer e).node ≠ k := by
        rintro rfl
        exact (hi.unsent hk).right hold
      rw [hkids hn, hne hek]
      exact hi.children hold
  case valid =>
    intro k' i hx
    by_cases h : k' = k
    case pos =>
      subst h
      rw [act_node_self, hp] at hx
      cases hx
    case neg =>
      obtain ⟨e, hn, hx, hh⟩ := hi.valid (hkids h ▸ hx)
      exact ⟨e, hn, hx, (hheard_ne (hn ▸ h)).mpr hh⟩

-- A connector receives the message of a neighbor that constructs the tree.
theorem TreeInv.hears {r : WaveState} {a : Finset Nat} {c c' : List Nat} {e₀ : net.End}
    {msg : SetupMsg} (hi : s.TreeInv m rank)
    (hp : (s.node e₀.node).phase = .construction r a c) (hx : e₀.index ∈ a)
    (hmsg : trees (s.chan e₀) = msg :: trees ((s.pop e₀).chan e₀))
    (hp' : node.phase = .construction r (a.erase e₀.index) c')
    (hc : ∀ i, i ∈ c' ↔ i ∈ c ∨ i = e₀.index ∧ msg = .youAreMyParent) :
    ((s.pop e₀).act e₀.node node []).TreeInv m rank := by
  have hparent k : ((s.pop e₀).act e₀.node node []).tree_parent k = s.tree_parent k := by
    by_cases hk : k = e₀.node
    case neg => exact tree_parent_act_ne hk
    case pos =>
      subst hk
      simp [tree_parent, hp, hp', SetupPhase.tree_parent]
  have hnot : ¬s.Heard e₀ := by
    simp [Heard, hp, SetupPhase.Heard, hx]
  have hheard e : ((s.pop e₀).act e₀.node node []).Heard e ↔ s.Heard e ∨ e = e₀ := by
    by_cases hk : e.node = e₀.node
    case neg =>
      have hne : e ≠ e₀ := by
        rintro rfl
        exact hk rfl
      rw [heard_act_ne hk, or_iff_left hne]
      rfl
    case pos =>
      have he : e = e₀ ↔ e.index = e₀.index := by simp [Endpoint.ext_iff, hk]
      simp only [Heard, hk, act_node_self, hp, hp', SetupPhase.Heard, he]
      rw [Finset.mem_erase, Classical.not_and_iff_not_or_not, not_not, or_comm]
  have hchan e (he : e ≠ e₀) : trees (((s.pop e₀).act e₀.node node []).chan e) =
      trees (s.chan e) := by
    simp [act, Topology.State.act, incoming, Outbox.through, pop, Topology.State.pop, he]
  -- the message is the one that the neighbor has sent when it left the election
  have hsent : ∃ q, s.tree_parent (net.peer e₀).node = some q ∧
      msg = construction_msg ⟨q, net.connector_id m⟩ (net.peer e₀).index ∧
      trees ((s.pop e₀).chan e₀) = [] := by
    cases hq : s.tree_parent (net.peer e₀).node
    case none => cases hmsg.symm.trans (hi.unsent hq).left
    case some q =>
      obtain ⟨hm, ht⟩ := List.cons.inj (hmsg.symm.trans (hi.sent hq hnot))
      exact ⟨q, rfl, hm, ht⟩
  obtain ⟨q₀, hq₀, hm₀, ht₀⟩ := hsent
  have hchan₀ : trees (((s.pop e₀).act e₀.node node []).chan e₀) = [] := by
    simp [act, Topology.State.act, incoming, Outbox.through, ht₀]
  have hkids {k i} : i ∈ (((s.pop e₀).act e₀.node node []).node k).phase.children ↔
      i ∈ (s.node k).phase.children ∨ k = e₀.node ∧ i = e₀.index ∧ msg = .youAreMyParent := by
    by_cases hk : k = e₀.node
    case neg =>
      rw [act_node_ne hk]
      simp [hk, pop, Topology.State.pop]
    case pos =>
      subst hk
      rw [act_node_self, hp', hp]
      simpa [SetupPhase.children] using hc i
  constructor
  case leader =>
    intro k r' a' c' hk'
    by_cases hk : k = e₀.node
    case neg =>
      rw [act_node_ne hk] at hk'
      exact hi.leader hk'
    case pos =>
      subst hk
      rw [act_node_self, hp'] at hk'
      cases hk'
      exact hi.leader hp
  case root => simp only [hparent]; exact hi.root
  case won  => simp only [hparent]; exact hi.won
  case child =>
    intro k i hk
    obtain ⟨e, hn, hx, hh, h⟩ := hi.child (hparent k ▸ hk)
    refine ⟨e, hn, hx, (hheard e).mpr (.inl hh), ?_⟩
    simpa only [hparent] using h
  case unsent =>
    intro e he
    rw [hparent] at he
    have hne : e ≠ e₀ := by
      rintro rfl
      cases he.symm.trans hq₀
    obtain ⟨ht, hh⟩ := hi.unsent he
    refine ⟨by rw [hchan e hne, ht], fun h => ?_⟩
    exact ((hheard e).mp h).elim hh hne
  case sent =>
    intro e q hq hh
    obtain ⟨hh, hne⟩ := not_or.mp ((hheard e).not.mp hh)
    rw [hparent] at hq
    rw [hchan e hne, hi.sent hq hh]
  case heard =>
    intro e hh
    by_cases hne : e = e₀
    case pos => exact hne ▸ hchan₀
    case neg => rw [hchan e hne, hi.heard (((hheard e).mp hh).resolve_right hne)]
  case children =>
    intro e hh
    rw [hkids, hparent]
    by_cases hne : e = e₀
    case neg =>
      have hh := ((hheard e).mp hh).resolve_right hne
      have hx : ¬(e.node = e₀.node ∧ e.index = e₀.index ∧ msg = .youAreMyParent) :=
        fun h => hne (Endpoint.ext h.left h.right.left)
      rw [or_iff_left hx]
      exact hi.children hh
    case pos =>
      subst hne
      have hold : e.index ∉ (s.node e.node).phase.children := by
        intro h
        obtain ⟨e', hn, hx, hh⟩ := hi.valid h
        have he : e' = e := Endpoint.ext hn hx
        exact hnot (he ▸ hh)
      rw [or_iff_right hold, hq₀, hm₀, construction_msg]
      by_cases hq : some (net.peer e).index = q₀
      case pos => simp [hq]
      case neg => simp [hq, Ne.symm hq]
  case valid =>
    intro k i hx
    cases hkids.mp hx
    case inl hx =>
      obtain ⟨e, hn, hx, hh⟩ := hi.valid hx
      exact ⟨e, hn, hx, (hheard e).mpr (.inl hh)⟩
    case inr h => exact ⟨e₀, h.left.symm, h.right.left.symm, (hheard e₀).mpr (.inr rfl)⟩

theorem TreeInv.quiet_act (hi : s.TreeInv m rank) (ht : t.node = s.node)
    (hc : ∀ e, trees (t.chan e) = trees (s.chan e)) (ho : ∀ i, trees (out.through i) = [])
    (hl : ∀ {r a c}, node.phase = .construction r a c → (s.node k).phase = .construction r a c)
    (hp : node.phase.tree_parent = (s.node k).phase.tree_parent)
    (hh : ∀ i, node.phase.Heard i ↔ (s.node k).phase.Heard i)
    (hk : ∀ {i}, i ∈ node.phase.children ↔ i ∈ (s.node k).phase.children) :
    (t.act k node out).TreeInv m rank := by
  have hnode {k'} (hk' : k' ≠ k) : (t.act k node out).node k' = s.node k' := by
    rw [act_node_ne hk', ht]
  apply hi.quiet
  case hl =>
    intro k' r a c h
    by_cases hk' : k' = k
    case pos =>
      subst hk'
      rw [act_node_self] at h
      exact hl h
    case neg => rwa [hnode hk'] at h
  case hp =>
    intro k'
    by_cases hk' : k' = k
    case pos => rw [hk', act_node_self, hp]
    case neg => rw [hnode hk']
  case hh =>
    intro k' i
    by_cases hk' : k' = k
    case pos => rw [hk', act_node_self, hh]
    case neg => rw [hnode hk']
  case hk =>
    intro k' i
    by_cases hk' : k' = k
    case pos => rw [hk', act_node_self, hk]
    case neg => rw [hnode hk']
  case hc =>
    intro e
    by_cases hk : (net.peer e).node = k
    case pos => rw [trees_act hk, ho, List.append_nil, hc]
    case neg => rw [trees_act_ne hk, hc]

theorem TreeInv.quiet_same (hi : s.TreeInv m rank) (ht : t.node = s.node)
    (hc : ∀ e, trees (t.chan e) = trees (s.chan e)) (ho : ∀ i, trees (out.through i) = [])
    (hp : node.phase = (s.node k).phase) : (t.act k node out).TreeInv m rank := by
  apply hi.quiet_act ht hc ho <;> simp [hp]

-- The connector has not left the election.
theorem TreeInv.quiet_before (hi : s.TreeInv m rank) (ht : t.node = s.node)
    (hc : ∀ e, trees (t.chan e) = trees (s.chan e)) (ho : ∀ i, trees (out.through i) = [])
    (hp : (s.node k).phase.tree_parent = none) (hp' : node.phase.tree_parent = none) :
    (t.act k node out).TreeInv m rank := by
  have hheard {ph : SetupPhase} (h : ph.tree_parent = none) {i} : ¬ph.Heard i := by
    cases ph <;> first | exact id | cases h
  have hkids {ph : SetupPhase} (h : ph.tree_parent = none) : ph.children = [] := by
    cases ph <;> first | rfl | cases h
  apply hi.quiet_act ht hc ho
  case hl =>
    intro r a c h
    rw [h] at hp'
    cases hp'
  case hp => rw [hp, hp']
  case hh => exact fun i => iff_of_false (hheard hp') (hheard hp)
  case hk => rw [hkids hp, hkids hp']

theorem trees_pop {msg : Msg} {msgs : List Msg} (hc : s.chan e = msg :: msgs)
    (hm : trees [msg] = []) (e' : net.End) : trees ((s.pop e).chan e') = trees (s.chan e') := by
  by_cases he : e' = e
  case neg => simp [pop, Topology.State.pop, he]
  case pos =>
    have h := @trees_append [msg] msgs
    rw [hm, List.singleton_append, List.nil_append] at h
    simp [pop, Topology.State.pop, he, h, hc]

theorem trees_waves {l : List Nat} {w i : Nat} :
    trees (Outbox.through (l.map (·, .setupMsg (.leaderWave w))) i) = [] := by
  induction l with
  | nil => rfl
  | cons j l ih =>
    simp only [Outbox.through, List.map_cons, List.filterMap_cons] at ih ⊢
    split
    case h_1 => exact ih
    case h_2 h =>
      split at h <;> cases h
      exact ih

theorem trees_start_construction {n i : Nat} {ws : WaveState} (hi : i < n) :
    trees ((node.start_construction n ws).2.through i) = [construction_msg ws i] := by
  simp only [start_construction, Outbox.through_map List.nodup_range, List.mem_range, hi, if_true,
    construction_msg]
  split <;> rfl

theorem TreeInv.recv {h : History K} {msg msgs} (hi : s.TreeInv m rank) (hw : s.WaveInv h)
    (hf : s.InfoInv) (hm : ∀ k, net.connector_id k ≤ net.connector_id m)
    (hread : (s.node e.node).Reads e.index) (hc : s.chan e = msg :: msgs)
    (hr : Reaction (net.connector_id e.node) (net.num_net_endpoints e.node) (s.node e.node) e.index
      msg node out) : ∃ rank', ((s.pop e).act e.node node out).TreeInv m rank' := by
  have hbefore {b a} (hp : (s.node e.node).phase = .election b a) : s.tree_parent e.node = none := by
    simp [tree_parent, hp, SetupPhase.tree_parent]
  cases hr
  case paired hp =>
    exact ⟨rank, hi.quiet_before rfl (trees_pop hc rfl) (fun _ => rfl) (by simp [hp, SetupPhase.tree_parent]) rfl⟩
  case early hp hno =>
    obtain ⟨_, info, hm⟩ := hf.reads_info hp hread hc
    exact absurd hm (hno info)
  case ignores => exact ⟨rank, hi.quiet_same rfl (trees_pop hc rfl) (fun _ => rfl) rfl⟩
  case joins b a w hp _ =>
    refine ⟨rank, hi.quiet_before rfl (trees_pop hc rfl) (fun i => ?_) (hbefore hp) rfl⟩
    rw [Outbox.through_append, trees_append, List.append_eq_nil_iff]
    refine ⟨trees_waves, ?_⟩
    split
    case isTrue  => exact @trees_waves [e.index] _ _
    case isFalse => rfl
  case hears hp _ =>
    refine ⟨rank, hi.quiet_before rfl (trees_pop hc rfl) (fun i => ?_) (hbefore hp) rfl⟩
    split
    case isTrue  => exact trees_waves
    case isFalse => rfl
  case discards hp hmsg =>
    refine ⟨rank, hi.quiet_same rfl (trees_pop hc ?_) (fun _ => rfl) rfl⟩
    cases hmsg
    case inl h => exact h.elim fun _ h => h ▸ rfl
    case inr h => exact h.elim fun _ h => h ▸ rfl
  case comm => exact ⟨rank, hi.quiet_same rfl (trees_pop hc rfl) (fun _ => rfl) rfl⟩
  case returned hp =>
    -- everything that constructs the tree has been received
    have hh : s.Heard e := by simp [Heard, hp, SetupPhase.Heard]
    have ht := hi.heard hh
    have hmsg := (List.append_eq_nil_iff.mp (@trees_append [msg] msgs ▸ hc ▸ ht)).left
    exact ⟨rank, hi.quiet_same rfl (trees_pop hc hmsg) (fun _ => rfl) rfl⟩
  case notChild r a c l hp hx =>
    have hmsg : trees (s.chan e) = .leaderAnnounce l :: trees ((s.pop e).chan e) := by
      simp [pop, Topology.State.pop, hc, trees]
    exact ⟨rank, hi.hears hp hx hmsg rfl (by simp)⟩
  case child r a c hp hx =>
    have hmsg : trees (s.chan e) = .youAreMyParent :: trees ((s.pop e).chan e) := by
      simp [pop, Topology.State.pop, hc, trees]
    exact ⟨rank, hi.hears hp hx hmsg rfl (by simp)⟩
  case wins b a hp hx ha hb =>
    obtain ⟨hl, hmax⟩ := hw.wins hc hp ha hb
    have hk : e.node = m :=
      net.connector_id_inj (Nat.le_antisymm (hm e.node) (hmax m))
    have hb : b = ⟨none, net.connector_id m⟩ := by
      rw [← hk, ← hl, ← hb]
    subst hb
    refine ⟨_, hi.enters (p := none) (d := 0) (hbefore hp) rfl rfl (fun e' _ => ?_) (fun _ => hk)
      (fun h => by cases h) (fun e' he => ?_)⟩
    · exact trees_pop hc rfl e'
    · exact trees_start_construction (he ▸ e'.valid)
  case announced b a l hp =>
    have hmsg : trees (s.chan e) = .leaderAnnounce l :: trees ((s.pop e).chan e) := by
      simp [pop, Topology.State.pop, hc, trees]
    have hnot : ¬s.Heard e := fun h => h.tree_parent (hbefore hp)
    cases hq : s.tree_parent (net.peer e).node
    case none => cases hmsg.symm.trans (hi.unsent hq).left
    case some q =>
      obtain ⟨hl, ht⟩ := List.cons.inj (hmsg.symm.trans (hi.sent hq hnot))
      unfold construction_msg at hl
      split at hl
      case isTrue => cases hl
      case isFalse hqx =>
        cases hl
        refine ⟨_, hi.enters (p := some e.index) (d := rank (net.peer e).node + 1) (hbefore hp) rfl
          rfl (fun e' hne => ?_) (fun h => by cases h) (fun hx => ?_) (fun e' he => ?_)⟩
        · have hne : e' ≠ e := by
            rintro rfl
            exact hne ⟨rfl, rfl⟩
          simp [pop, Topology.State.pop, hne]
        · cases hx
          exact ⟨e, rfl, rfl, ht, Nat.lt_succ_self _, q, hq, Ne.symm hqx⟩
        · exact trees_start_construction (he ▸ e'.valid)

-- A connector without endpoints is the only one.
theorem TreeInv.alone (hk : net.num_net_endpoints k = 0)
    (hn : node.phase = .returned ⟨none, []⟩) : (s.act k node []).TreeInv m rank := by
  have halone k' : k' = k := by
    induction net.connected k k' with
    | refl => rfl
    | tail _ he ih =>
      obtain ⟨e, he, _⟩ := he
      have := e.valid
      rw [he, ih, hk] at this
      exact absurd this (Nat.not_lt_zero _)
  have hno (e : net.End) : False := by
    have := e.valid
    rw [halone e.node, hk] at this
    exact absurd this (Nat.not_lt_zero _)
  have hp k' : (s.act k node []).tree_parent k' = some none := by
    rw [halone k']
    simp [tree_parent, hn, SetupPhase.tree_parent]
  constructor
  case root     => exact fun {k'} _ => (halone k').trans (halone m).symm
  case won      => exact fun _ => hp m
  case child    => exact fun {k' _} h => nomatch (hp k').symm.trans h
  case unsent   => exact fun {e} => (hno e).elim
  case sent     => exact fun {e} => (hno e).elim
  case heard    => exact fun {e} => (hno e).elim
  case children => exact fun {e} => (hno e).elim
  case leader =>
    intro k' r a c h
    rw [halone k', act_node_self, hn] at h
    cases h
  case valid =>
    intro k' i h
    rw [halone k', act_node_self, hn] at h
    cases h

-- What holds in every state, for the connector `m` with the greatest id.
structure SetupInv (m : K) (s : State net) : Prop where
  infos : s.InfoInv
  waves : ∃ h, s.WaveInv h
  tree  : ∃ rank, s.TreeInv m rank

theorem SetupInv.step {a : SetupAct} (hm : ∀ k, net.connector_id k ≤ net.connector_id m)
    (hi : s.SetupInv m) (hs : s.Step a s') : s'.SetupInv m := by
  obtain ⟨hf, ⟨h, hw⟩, ⟨rank, ht⟩⟩ := hi
  refine ⟨hf.step hs, hw.step hf hs, ?_⟩
  have hone {msg : Msg} {index i : Nat} (h : trees [msg] = []) :
      trees (Outbox.through [(index, msg)] i) = [] := by
    by_cases hx : index = i
    case pos => simpa [Outbox.through, hx] using h
    case neg => simp [Outbox.through, hx, trees]
  cases hs
  case sendInfo hp _ =>
    exact ⟨rank, ht.quiet_before rfl (fun _ => rfl) (fun _ => hone rfl)
      (by simp [hp, SetupPhase.tree_parent]) rfl⟩
  case start k hp =>
    refine ⟨rank, ?_⟩
    by_cases hn : net.num_net_endpoints k = 0
    case pos =>
      simp only [start, if_pos hn]
      exact .alone hn rfl
    case neg =>
      simp only [start, if_neg hn]
      exact ht.quiet_before rfl (fun _ => rfl) (fun _ => trees_waves)
        (by simp [hp, SetupPhase.tree_parent]) rfl
  case recv hread _ hc hr => exact ht.recv hw hf hm hread hc (recv_cases hr)
  case undelayed k index msg msgs node out hp _ hu hr =>
    obtain ⟨msg, hmsg⟩ := hf.delays k (index, msg) (by simp [hu])
    cases hmsg
    cases recv_cases hr
    case early hp' _ => exact absurd hp' hp
    case discards hmsg =>
      cases hmsg
      case inl h => cases h.choose_spec
      case inr h => cases h.choose_spec
    case returned | comm => exact ⟨rank, ht.quiet_same rfl (fun _ => rfl) (fun _ => rfl) rfl⟩
  case finish k r c hp =>
    refine ⟨rank, ht.quiet_act rfl (fun _ => rfl) (fun _ => rfl) (fun h => by cases h) ?_ ?_ ?_⟩ <;>
      simp [finish, hp, SetupPhase.tree_parent, SetupPhase.Heard, SetupPhase.children]
  case comm hp => exact ⟨rank, ht.quiet_same rfl (fun _ => rfl) (fun _ => hone rfl) rfl⟩

theorem SetupInv.reachable (hm : ∀ k, net.connector_id k ≤ net.connector_id m)
    (h : net.setup.Reachable s) : s.SetupInv m := by
  apply TransitionSystem.Reachable.invariant ?_ ?_ h
  · exact fun hs => ⟨.init hs, ⟨_, .init hs⟩, ⟨fun _ => 0, .init hs⟩⟩
  · exact fun _ hi hs => hi.step hm hs

theorem recv_wave {b : WaveState} {a : Finset Nat} {w index id n : Nat}
    (hx : w = b.leader → index ∈ a) :
    ∃ r, recv_election id n node b a index (.setupMsg (.leaderWave w)) = .ok r := by
  simp only [recv_election]
  split
  case isTrue => exact ⟨_, rfl⟩
  case isFalse hle =>
    split
    case isTrue => exact ⟨_, rfl⟩
    case isFalse hge =>
      have hx := hx (Nat.le_antisymm (Nat.not_lt.mp hge) (Nat.not_lt.mp hle))
      simp only [wave_reply, ensure_pos hx, bind, Except.bind]
      split
      case isTrue  => cases b.parent <;> exact ⟨_, rfl⟩
      case isFalse => exact ⟨_, rfl⟩

omit [DecidableEq K] in
-- No message that a connector can receive next leads to a failed assertion or to an error.
theorem SetupInv.recv_ok {msg : Msg} {msgs : List Msg} (hi : s.SetupInv m)
    (hm : ∀ k, net.connector_id k ≤ net.connector_id m)
    (hc : s.chan e = msg :: msgs) :
    ∃ r, (s.node e.node).recv (net.connector_id e.node) (net.num_net_endpoints e.node) e.index msg =
      .ok r := by
  obtain ⟨hf, ⟨h, hw⟩, ⟨rank, ht⟩⟩ := hi
  have htree {q : SetupMsg} (hq : trees [msg] = [q]) : ¬s.Heard e ∧ ∃ p,
      s.tree_parent (net.peer e).node = some p ∧
      q = construction_msg ⟨p, net.connector_id m⟩ (net.peer e).index := by
    have hmsgs : trees (s.chan e) = q :: trees msgs := by
      have := @trees_append [msg] msgs
      rwa [hq, List.singleton_append, List.singleton_append, ← hc] at this
    have hnot : ¬s.Heard e := by
      intro hh
      cases hmsgs.symm.trans (ht.heard hh)
    cases hp : s.tree_parent (net.peer e).node
    case none   => cases hmsgs.symm.trans (ht.unsent hp).left
    case some p => exact ⟨hnot, p, rfl, (List.cons.inj (hmsgs.symm.trans (ht.sent hp hnot))).left⟩
  cases hp : (s.node e.node).phase
  case pairing =>
    simp only [recv, hp]
    split <;> exact ⟨_, rfl⟩
  case returned =>
    simp only [recv, hp]
    exact ⟨_, rfl⟩
  case construction r a c =>
    have hx {q : SetupMsg} (hq : trees [msg] = [q]) : e.index ∈ a := by
      obtain ⟨hnot, _⟩ := htree hq
      simpa [Heard, hp, SetupPhase.Heard] using hnot
    simp only [recv, hp]
    unfold recv_construction
    split
    case h_1 | h_2 =>
      rw [ensure_pos (hx rfl)]
      exact ⟨_, rfl⟩
    all_goals exact ⟨_, rfl⟩
  case election b a =>
    have hnone : s.tree_parent e.node = none := by
      simp [tree_parent, hp, SetupPhase.tree_parent]
    simp only [recv, hp]
    cases msg
    case commMsg => exact ⟨_, rfl⟩
    case setupMsg msg =>
      cases msg
      case myPortInfo info =>
        have hwait : ¬s.Waiting e := by
          rintro ⟨_, _, hp', _⟩
          cases hp.symm.trans hp'
        have hmem : .setupMsg (.myPortInfo info) ∈ s.chan e := hc ▸ List.mem_cons_self
        exact (hf.paired hwait _ hmem trivial).elim
      case youAreMyParent =>
        obtain ⟨_, p, hpar, hq⟩ := htree rfl
        unfold construction_msg at hq
        split at hq
        case isFalse => cases hq
        case isTrue hpx =>
          have hpx : some (net.peer e).index = p := hpx
          subst hpx
          obtain ⟨e', hn, hx, _, _, _, hq, _⟩ := ht.child hpar
          have he : e' = net.peer e := Endpoint.ext hn hx
          subst he
          rw [net.peer_peer] at hq
          cases hnone.symm.trans hq
      case leaderAnnounce l =>
        obtain ⟨_, p, hpar, hq⟩ := htree rfl
        have hl : l = net.connector_id m := by
          unfold construction_msg at hq
          split at hq <;> cases hq
          rfl
        have hle : l ≥ b.leader := by
          have hj : h.joined b.leader e.node ≠ none := by simp [hw.current hp]
          obtain ⟨k', hk'⟩ := hw.started _ hj rfl
          rw [hl, hk']
          exact hm k'
        have hne : l ≠ net.connector_id e.node := by
          intro he
          have hk := net.connector_id_inj (he.symm.trans hl)
          have hwon : s.tree_parent (net.peer e).node ≠ none := by simp [hpar]
          cases hnone.symm.trans (hk ▸ ht.won hwon)
        simp only [recv_election, ensure_pos hle, ensure_pos hne]
        exact ⟨_, rfl⟩
      case leaderWave w =>
        apply recv_wave
        intro he
        by_contra hx
        exact (hw.heard hp hx).right (by simp [hc, Network.waves, he])

omit [DecidableEq K] in
theorem SetupInv.recv_undelayed_ok {msg : Msg} {index : Nat} {msgs : List (Nat × Msg)}
    (hi : s.SetupInv m) (hu : (s.node k).undelayed_messages = (index, msg) :: msgs) :
    ∃ r, SetupNode.recv (net.connector_id k) (net.num_net_endpoints k)
      { s.node k with undelayed_messages := msgs } index msg = .ok r := by
  obtain ⟨msg, hmsg⟩ := hi.infos.delays k (index, msg) (by simp [hu])
  cases hmsg
  unfold recv
  split
  case h_1 => split <;> exact ⟨_, rfl⟩
  all_goals exact ⟨_, rfl⟩

omit [DecidableEq K] in
theorem SetupInv.spanning_tree {neighborhoods : K → Neighborhood} (hi : s.SetupInv m)
    (hr : ∀ k, (s.node k).phase = .returned (neighborhoods k)) :
    net.SpanningTree neighborhoods m := by
  obtain ⟨rank, ht⟩ := hi.tree
  have hp k : s.tree_parent k = some (neighborhoods k).parent := by
    simp [tree_parent, hr, SetupPhase.tree_parent]
  have hh e : s.Heard e := by simp [Heard, hr, SetupPhase.Heard]
  have hc k : (s.node k).phase.children = (neighborhoods k).children := by
    simp [hr, SetupPhase.children]
  have hnone k (hk : (neighborhoods k).parent = none) : k = m := ht.root (hk ▸ hp k)
  have hchild {k i} (hk : (neighborhoods k).parent = some i) := ht.child ((hp k).trans (congrArg some hk))
  constructor
  case orphan =>
    have hwon := ht.won (k := m) (by simp [hp])
    exact Option.some.inj ((hp m).symm.trans hwon)
  case parent =>
    intro k hk
    cases hpk : (neighborhoods k).parent
    case none   => exact absurd (hnone k hpk) hk
    case some i =>
      obtain ⟨e, hn, hx, _⟩ := hchild hpk
      exact ⟨e, hn, hx ▸ rfl⟩
  case agree =>
    intro e
    have h := ht.children (hh (net.peer e))
    rw [net.peer_peer, hc, hp] at h
    rw [h, Option.some.injEq]
  case valid =>
    intro k i hx
    obtain ⟨e, hn, hx, _⟩ := ht.valid ((hc k).symm ▸ hx)
    exact hn ▸ hx ▸ e.valid
  case leads =>
    intro k
    induction hd : rank k using Nat.strongRecOn generalizing k with
    | ind d ih =>
      cases hpk : (neighborhoods k).parent
      case none => rw [hnone k hpk]
      case some i =>
        obtain ⟨e, hn, hx, _, hlt, _⟩ := hchild hpk
        exact .head ⟨e, hn, hx ▸ hpk, rfl⟩ (ih _ (hd ▸ hlt) _ rfl)

end State

-- No assertion fails and no `SetupAlgMisbehavior` is returned, the connector with the greatest id is
-- the only one that can win the election, all others adopt it as their leader, and the neighborhoods
-- that are returned form a spanning tree with the leader as its root.
theorem init_neighborhood [DecidableEq K] [Finite K] [Nonempty K] (net : Network K) :
    ∃ m, (∀ k, net.connector_id k ≤ net.connector_id m) ∧ ∀ s, net.setup.Reachable s →
      (∀ e msg msgs, s.chan e = msg :: msgs → ∃ r, (s.node e.node).recv (net.connector_id e.node)
        (net.num_net_endpoints e.node) e.index msg = .ok r) ∧
      (∀ k index msg msgs, (s.node k).undelayed_messages = (index, msg) :: msgs →
        ∃ r, SetupNode.recv (net.connector_id k) (net.num_net_endpoints k)
          { s.node k with undelayed_messages := msgs } index msg = .ok r) ∧
      (∀ k r a c, (s.node k).phase = .construction r a c →
        r.leader = net.connector_id m ∧ (r.parent = none → k = m)) ∧
      (∀ neighborhoods, (∀ k, (s.node k).phase = .returned (neighborhoods k)) →
        net.SpanningTree neighborhoods m) := by
  obtain ⟨m, hm⟩ := Finite.exists_max net.connector_id
  refine ⟨m, hm, fun s hs => ?_⟩
  have hi := State.SetupInv.reachable hm hs
  refine ⟨fun _ _ _ hc => hi.recv_ok hm hc, fun _ _ _ _ hu => hi.recv_undelayed_ok hu, ?_,
    fun _ hr => hi.spanning_tree hr⟩
  intro k r a c hp
  obtain ⟨rank, ht⟩ := hi.tree
  refine ⟨ht.leader hp, fun hr => ht.root ?_⟩
  simp [State.tree_parent, hp, SetupPhase.tree_parent, hr]

-- Two connectors with one channel between them.
def two_connectors : Network Bool where
  num_net_endpoints _ := 1
  connector_id k      := if k then 1 else 0
  peer e              := ⟨!e.node, e.index, e.valid⟩
  peer_peer e         := by simp
  peer_ne e           := by simp [Endpoint.ext_iff]
  connector_id_inj    := by decide
  connected k k'      := by
    by_cases h : k = k'
    case pos => exact h ▸ .refl
    case neg => exact .single ⟨⟨k, 0, Nat.one_pos⟩, rfl, by cases k <;> cases k' <;> simp_all⟩

theorem init_neighborhood_two_connectors : ∃ m : Bool,
    (∀ k, two_connectors.connector_id k ≤ two_connectors.connector_id m) ∧
    ∀ s, two_connectors.setup.Reachable s → ∀ k r a c,
      (s.node k).phase = .construction r a c → r.leader = two_connectors.connector_id m := by
  obtain ⟨m, hm, h⟩ := init_neighborhood two_connectors
  exact ⟨m, hm, fun s hs k r a c hp => ((h s hs).right.right.left k r a c hp).left⟩

end Network
end Reowolf
