import Reowolf.Runtime.Pairing

namespace Reowolf
namespace Network

open Topology Topology.State

-- The waves among the messages, by their leaders.
def waves (msgs : List Msg) : List ConnectorId :=
  msgs.filterMap fun
    | .setupMsg (.leaderWave leader) => some leader
    | _                              => none

-- What has happened in each wave: which connectors have joined it, through which endpoint (through
-- none if they started it), how far they are from its start, and which of them have heard it from
-- all their neighbors.
structure History (K : Type) where
  joined : ConnectorId → K → Option (Option Nat)
  depth  : ConnectorId → K → Nat
  echoed : ConnectorId → K → Prop

variable {K : Type} {net : Network K}

-- A wave is sent to the parent in the wave last, and to the others at once.
def History.Sent (h : History K) (w : ConnectorId) (e : net.End) : Prop :=
  ∃ p, h.joined w e.node = some p ∧ (p = some e.index → h.echoed w e.node)

theorem History.Sent.joined {h : History K} {w : ConnectorId} {e : net.End} (hs : h.Sent w e) :
    h.joined w e.node ≠ none := by
  obtain ⟨_, hp, _⟩ := hs
  simp [hp]

open Classical in
-- A connector joins a wave.
noncomputable def History.join (h : History K) (w : ConnectorId) (k : K) (p : Option Nat) (d : Nat)
    (echoes : Prop) : History K where
  joined w' k' := if w' = w ∧ k' = k then some p else h.joined w' k'
  depth w' k'  := if w' = w ∧ k' = k then d else h.depth w' k'
  echoed w' k' := if w' = w ∧ k' = k then echoes else h.echoed w' k'

-- A connector may have heard a wave from all its neighbors.
def History.echo (h : History K) (w : ConnectorId) (k : K) (echoes : Prop) : History K :=
  { h with echoed := fun w' k' => h.echoed w' k' ∨ w' = w ∧ k' = k ∧ echoes }

namespace State

structure WaveInv (h : History K) (s : State net) : Prop where
  nodup   : ∀ e, (waves (s.chan e)).Nodup
  sent    : ∀ {e w}, w ∈ waves (s.chan e) → h.Sent w (net.peer e)
  root    : ∀ {w k}, h.joined w k = some none → w = net.connector_id k
  child   : ∀ {w k i}, h.joined w k = some (some i) → net.connector_id k < w ∧
              ∃ e : net.End, e.node = k ∧ e.index = i ∧ h.Sent w (net.peer e) ∧
                h.depth w (net.peer e).node < h.depth w k
  echoed  : ∀ {w} {e : net.End}, h.echoed w e.node → h.Sent w (net.peer e)
  pairing : ∀ {w k unsent waiting}, (s.node k).phase = .pairing unsent waiting →
              h.joined w k = none
  best    : ∀ {w k b a}, (s.node k).phase = .election b a → h.joined w k ≠ none → w ≤ b.leader
  current : ∀ {k b a}, (s.node k).phase = .election b a → h.joined b.leader k = some b.parent
  done    : ∀ {k b a}, (s.node k).phase = .election b a → (h.echoed b.leader k ↔ a = ∅)
  heard   : ∀ {e : net.End} {b a}, (s.node e.node).phase = .election b a → e.index ∉ a →
              h.Sent b.leader (net.peer e) ∧ b.leader ∉ waves (s.chan e)

variable {h : History K} {s s' : State net} {w : ConnectorId} {k : K} {b : WaveState}
variable {a : Finset Nat}

-- Every wave has been started by a connector.
theorem WaveInv.started (hi : s.WaveInv h) {d : Nat} :
    ∀ k, h.joined w k ≠ none → h.depth w k = d → ∃ k', w = net.connector_id k' := by
  induction d using Nat.strongRecOn with
  | ind d ih =>
    intro k hj hd
    obtain ⟨p, hp⟩ := Option.ne_none_iff_exists'.mp hj
    cases p
    case none => exact ⟨k, hi.root hp⟩
    case some i =>
      obtain ⟨_, e, _, _, hs, hlt⟩ := hi.child hp
      exact ih _ (hd ▸ hlt) _ hs.joined rfl

-- A wave that its starter has heard from all its neighbors has been heard by everyone from all their
-- neighbors.
theorem WaveInv.heard_by_all (hi : s.WaveInv h) (hr : h.joined w k = some none)
    (hk : ∀ e : net.End, e.node = k → h.Sent w (net.peer e)) {d : Nat} :
    ∀ e : net.End, h.joined w e.node ≠ none → h.depth w e.node = d → h.Sent w (net.peer e) := by
  induction d using Nat.strongRecOn with
  | ind d ih =>
    intro e hj hd
    obtain ⟨p, hp⟩ := Option.ne_none_iff_exists'.mp hj
    cases p
    case none =>
      have he : e.node = k := net.connector_id_inj ((hi.root hp).symm.trans (hi.root hr))
      exact hk e he
    case some i =>
      obtain ⟨_, e', hn, hx, hs, hlt⟩ := hi.child hp
      -- the parent has heard the wave from all its neighbors, and hence from this connector
      obtain ⟨_, hj', _⟩ := hs
      have hback := ih _ (hd ▸ hlt) (net.peer e') (by simp [hj']) rfl
      rw [net.peer_peer] at hback
      obtain ⟨p, hp', hecho⟩ := hback
      rw [hn] at hp' hecho
      cases hp.symm.trans hp'
      exact hi.echoed (hecho (congrArg some hx.symm))

-- The winner of the election has the greatest id.
theorem WaveInv.winner (hi : s.WaveInv h) (hp : (s.node k).phase = .election b a)
    (hb : b.parent = none) (hk : ∀ e : net.End, e.node = k → h.Sent b.leader (net.peer e)) :
    b.leader = net.connector_id k ∧ ∀ k', net.connector_id k' ≤ net.connector_id k := by
  have hr : h.joined b.leader k = some none := hb ▸ hi.current hp
  have hl := hi.root hr
  refine ⟨hl, fun k' => ?_⟩
  have hj : h.joined b.leader k' ≠ none := by
    induction net.connected k k' with
    | refl => simp [hr]
    | tail _ he ih =>
      obtain ⟨e, hn, hn'⟩ := he
      subst hn hn'
      obtain ⟨p, hp, _⟩ := hi.heard_by_all hr hk e ih rfl
      simp [hp]
  obtain ⟨p, hp⟩ := Option.ne_none_iff_exists'.mp hj
  rw [← hl]
  cases p
  case none   => exact Nat.le_of_eq (hi.root hp).symm
  case some i => exact Nat.le_of_lt (hi.child hp).left

-- A step that concerns no wave may lose messages, and may end the election of a connector.
theorem WaveInv.quiet (hi : s.WaveInv h)
    (hc : ∀ e, (waves (s'.chan e)).Sublist (waves (s.chan e)))
    (hp : ∀ {k u v}, (s'.node k).phase = .pairing u v → ∃ u v, (s.node k).phase = .pairing u v)
    (he : ∀ {k b a}, (s'.node k).phase = .election b a → (s.node k).phase = .election b a) :
    s'.WaveInv h where
  nodup e    := (hi.nodup e).sublist (hc e)
  sent hw    := hi.sent ((hc _).subset hw)
  root       := hi.root
  child      := hi.child
  echoed     := hi.echoed
  pairing hk := by
    obtain ⟨_, _, hk⟩ := hp hk
    exact hi.pairing hk
  best hk    := hi.best (he hk)
  current hk := hi.current (he hk)
  done hk    := hi.done (he hk)
  heard hk hn := by
    obtain ⟨hs, hw⟩ := hi.heard (he hk) hn
    exact ⟨hs, fun h => hw ((hc _).subset h)⟩

-- What a step of the connector `k` may change: its own phase, and the waves in the channels, where
-- one wave may be added to those that are left.
structure Moves (s : State net) (k : K) (left : net.End → List ConnectorId) (w : ConnectorId)
    (sends : net.End → Prop) (s' : State net) : Prop where
  others : ∀ {k'}, k' ≠ k → (s'.node k').phase = (s.node k').phase
  kept   : ∀ e, (left e).Sublist (waves (s.chan e))
  sent   : ∀ e, (net.peer e).node = k → sends (net.peer e) → waves (s'.chan e) = left e ++ [w]
  unsent : ∀ e, ¬((net.peer e).node = k ∧ sends (net.peer e)) → waves (s'.chan e) = left e

variable {left : net.End → List ConnectorId} {sends : net.End → Prop} {h' : History K}

-- What one wave adds to the channels when it is sent for the first time.
theorem Moves.mem (hm : Moves s k left w sends s') {e w'} (hw : w' ∈ waves (s'.chan e)) :
    w' ∈ left e ∨ w' = w ∧ (net.peer e).node = k ∧ sends (net.peer e) := by
  by_cases hs : (net.peer e).node = k ∧ sends (net.peer e)
  case neg => exact .inl (hm.unsent e hs ▸ hw)
  case pos =>
    rw [hm.sent e hs.left hs.right, List.mem_append, List.mem_singleton] at hw
    exact hw.imp_right (⟨·, hs⟩)

theorem Moves.nodup (hm : Moves s k left w sends s') (hi : s.WaveInv h)
    (hnew : ∀ e : net.End, e.node = k → sends e → ¬h.Sent w e) (e : net.End) :
    (waves (s'.chan e)).Nodup := by
  have hl := (hi.nodup e).sublist (hm.kept e)
  by_cases hs : (net.peer e).node = k ∧ sends (net.peer e)
  case neg => exact hm.unsent e hs ▸ hl
  case pos =>
    rw [hm.sent e hs.left hs.right, List.nodup_append]
    refine ⟨hl, List.nodup_singleton w, fun w' hw' w'' hw'' => ?_⟩
    cases List.mem_singleton.mp hw''
    rintro rfl
    exact hnew _ hs.left hs.right (hi.sent ((hm.kept e).subset hw'))

theorem Moves.notMem (hm : Moves s k left w sends s')
    (hnew : ∀ e : net.End, e.node = k → sends e → ¬h.Sent w e) {e w'} (hl : w' ∉ left e)
    (hs : h.Sent w' (net.peer e)) : w' ∉ waves (s'.chan e) := by
  intro hw
  cases hm.mem hw
  case inl hw => exact hl hw
  case inr hw =>
    obtain ⟨he, hk, hsend⟩ := hw
    exact hnew _ hk hsend (he ▸ hs)

variable {p : Option Nat} {d : Nat}

theorem WaveInv.begins (hi : s.WaveInv h) (hno : h.joined w k = none)
    (hbest : ∀ {w'}, h.joined w' k ≠ none → w' < w)
    (hroot : p = none → w = net.connector_id k)
    (hchild : ∀ {i}, p = some i → net.connector_id k < w ∧
      ∃ e : net.End, e.node = k ∧ e.index = i ∧ h.Sent w (net.peer e) ∧
        h.depth w (net.peer e).node < d ∧ w ∉ left e)
    (hp : (s'.node k).phase = .election ⟨p, w⟩ a)
    (ha : ∀ {i}, i ∈ a ↔ i < net.num_net_endpoints k ∧ some i ≠ p)
    (hm : Moves s k left w (fun e => p = some e.index → a = ∅) s') :
    s'.WaveInv (h.join w k p d (a = ∅)) := by
  have hsame {w' k'} (hj : h.joined w' k' ≠ none) : ¬(w' = w ∧ k' = k) := by
    rintro ⟨rfl, rfl⟩
    exact hj hno
  have hjoined {w' k'} (hj : h.joined w' k' ≠ none) :
      (h.join w k p d (a = ∅)).joined w' k' = h.joined w' k' := if_neg (hsame hj)
  have hmono {w'} {e : net.End} (hs : h.Sent w' e) : (h.join w k p d (a = ∅)).Sent w' e := by
    have hj := hs.joined
    obtain ⟨q, hq, he⟩ := hs
    refine ⟨q, (hjoined hj).trans hq, fun hx => ?_⟩
    simp only [History.join, if_neg (hsame hj)]
    exact he hx
  have hnew : ∀ e : net.End, e.node = k → (p = some e.index → a = ∅) → ¬h.Sent w e := by
    rintro e rfl _ hs
    exact hs.joined hno
  have hparent {e : net.End} (he : e.node = k) (hx : e.index ∉ a) :
      h.Sent w (net.peer e) ∧ w ∉ left e := by
    subst he
    have hpx : p = some e.index := by
      by_contra hne
      exact hx (ha.mpr ⟨e.valid, Ne.symm hne⟩)
    obtain ⟨_, e', hn', hx', hs, _, hl⟩ := hchild hpx
    have he : e' = e := Endpoint.ext hn' hx'
    exact he ▸ ⟨hs, hl⟩
  constructor
  case nodup => exact hm.nodup hi hnew
  case sent =>
    intro e w' hw
    cases hm.mem hw
    case inl hw => exact hmono (hi.sent ((hm.kept e).subset hw))
    case inr hw =>
      obtain ⟨he, hk, hs⟩ := hw
      subst he
      exact ⟨p, if_pos ⟨rfl, hk⟩, fun hx => by simpa [History.join, hk] using hs hx⟩
  case root =>
    intro w' k' hj
    simp only [History.join] at hj
    split at hj
    case isTrue hk =>
      obtain ⟨hw, hn⟩ := hk
      subst hw hn
      exact hroot (Option.some.inj hj)
    case isFalse => exact hi.root hj
  case child =>
    intro w' k' i hj
    simp only [History.join] at hj
    split at hj
    case isTrue hk =>
      obtain ⟨hw, hn⟩ := hk
      subst hw hn
      obtain ⟨hlt, e, he, hx, hs, hd, _⟩ := hchild (Option.some.inj hj)
      refine ⟨hlt, e, he, hx, hmono hs, ?_⟩
      simp only [History.join, if_neg (hsame hs.joined), and_self, if_true]
      exact hd
    case isFalse hne =>
      obtain ⟨hlt, e, hn, hx, hs, hd⟩ := hi.child hj
      refine ⟨hlt, e, hn, hx, hmono hs, ?_⟩
      simp only [History.join, if_neg hne, if_neg (hsame hs.joined)]
      exact hd
  case echoed =>
    intro w' e he
    simp only [History.join] at he
    split at he
    case isTrue hk =>
      obtain ⟨hw, hn⟩ := hk
      subst hw
      exact hmono (hparent hn (by simp [he])).left
    case isFalse => exact hmono (hi.echoed he)
  case pairing =>
    intro w' k' u v hk'
    have hne : k' ≠ k := by
      rintro rfl
      cases hp.symm.trans hk'
    have := hi.pairing (w := w') ((hm.others hne) ▸ hk')
    simpa [History.join, hne] using this
  case best =>
    intro w' k' b a' hk' hj
    by_cases hne : k' = k
    case neg =>
      simp only [History.join, hne, and_false, if_false] at hj
      exact hi.best ((hm.others hne) ▸ hk') hj
    case pos =>
      subst hne
      cases hp.symm.trans hk'
      by_cases hw : w' = w
      case pos => exact Nat.le_of_eq hw
      case neg =>
        simp only [History.join, hw, false_and, if_false] at hj
        exact Nat.le_of_lt (hbest hj)
  case current =>
    intro k' b a' hk'
    by_cases hne : k' = k
    case neg =>
      simp only [History.join, hne, and_false, if_false]
      exact hi.current ((hm.others hne) ▸ hk')
    case pos =>
      subst hne
      cases hp.symm.trans hk'
      simp [History.join]
  case done =>
    intro k' b a' hk'
    by_cases hne : k' = k
    case neg =>
      simp only [History.join, hne, and_false, if_false]
      exact hi.done ((hm.others hne) ▸ hk')
    case pos =>
      subst hne
      cases hp.symm.trans hk'
      simp [History.join]
  case heard =>
    intro e b a' hk' hx
    by_cases hne : e.node = k
    case neg =>
      obtain ⟨hs, hw⟩ := hi.heard ((hm.others hne) ▸ hk') hx
      exact ⟨hmono hs, hm.notMem hnew (fun hl => hw ((hm.kept e).subset hl)) hs⟩
    case pos =>
      rw [hne] at hk'
      cases hp.symm.trans hk'
      obtain ⟨hs, hl⟩ := hparent hne hx
      exact ⟨hmono hs, hm.notMem hnew hl hs⟩

theorem WaveInv.hears {e₀ : net.End} (hi : s.WaveInv h)
    (hp : (s.node e₀.node).phase = .election b a) (hx : e₀.index ∈ a)
    (hs : h.Sent b.leader (net.peer e₀)) (hn : b.leader ∉ left e₀)
    (hp' : (s'.node e₀.node).phase = .election b (a.erase e₀.index))
    (hm : Moves s e₀.node left b.leader
      (fun e => a.erase e₀.index = ∅ ∧ b.parent = some e.index) s') :
    s'.WaveInv (h.echo b.leader e₀.node (a.erase e₀.index = ∅)) := by
  have hnot : ¬h.echoed b.leader e₀.node := by
    intro he
    rw [(hi.done hp).mp he] at hx
    cases hx
  have hmono {w'} {e : net.End} (hs : h.Sent w' e) :
      (h.echo b.leader e₀.node (a.erase e₀.index = ∅)).Sent w' e := by
    obtain ⟨q, hq, he⟩ := hs
    exact ⟨q, hq, fun hx => .inl (he hx)⟩
  have hnew : ∀ e : net.End, e.node = e₀.node → (a.erase e₀.index = ∅ ∧ b.parent = some e.index) →
      ¬h.Sent b.leader e := by
    rintro e he ⟨_, hb⟩ ⟨q, hq, hecho⟩
    rw [he] at hq hecho
    cases (hi.current hp).symm.trans hq
    exact hnot (hecho hb)
  have hheard {e : net.End} (he : e.node = e₀.node) (hx : e.index ∉ a.erase e₀.index) :
      h.Sent b.leader (net.peer e) ∧ b.leader ∉ left e := by
    by_cases hxe : e.index = e₀.index
    case pos =>
      have he : e = e₀ := Endpoint.ext he hxe
      exact he ▸ ⟨hs, hn⟩
    case neg =>
      have hx : e.index ∉ a := fun h => hx (Finset.mem_erase.mpr ⟨hxe, h⟩)
      obtain ⟨hs, hw⟩ := hi.heard (he ▸ hp) hx
      exact ⟨hs, fun hl => hw ((hm.kept e).subset hl)⟩
  constructor
  case nodup => exact hm.nodup hi hnew
  case sent =>
    intro e w' hw
    cases hm.mem hw
    case inl hw => exact hmono (hi.sent ((hm.kept e).subset hw))
    case inr hw =>
      obtain ⟨he, hk, ha, _⟩ := hw
      subst he
      refine ⟨b.parent, ?_, fun _ => .inr ⟨rfl, hk, ha⟩⟩
      rw [hk]
      exact hi.current hp
  case root => exact hi.root
  case child =>
    intro w' k' i hj
    obtain ⟨hlt, e, hn, hx, hs, hd⟩ := hi.child hj
    exact ⟨hlt, e, hn, hx, hmono hs, hd⟩
  case echoed =>
    intro w' e he
    cases he
    case inl he => exact hmono (hi.echoed he)
    case inr he =>
      obtain ⟨hw, hk, ha⟩ := he
      subst hw
      exact hmono (hheard hk (by simp [ha])).left
  case pairing =>
    intro w' k' u v hk'
    have hne : k' ≠ e₀.node := by
      rintro rfl
      cases hp'.symm.trans hk'
    exact hi.pairing (hm.others hne ▸ hk')
  case best =>
    intro w' k' b' a' hk' hj
    by_cases hne : k' = e₀.node
    case neg => exact hi.best (hm.others hne ▸ hk') hj
    case pos =>
      subst hne
      cases hp'.symm.trans hk'
      exact hi.best hp hj
  case current =>
    intro k' b' a' hk'
    by_cases hne : k' = e₀.node
    case neg => exact hi.current (hm.others hne ▸ hk')
    case pos =>
      subst hne
      cases hp'.symm.trans hk'
      exact hi.current hp
  case done =>
    intro k' b' a' hk'
    by_cases hne : k' = e₀.node
    case neg =>
      have := hi.done (hm.others hne ▸ hk')
      simpa [History.echo, hne] using this
    case pos =>
      subst hne
      cases hp'.symm.trans hk'
      simp [History.echo, hnot]
  case heard =>
    intro e b' a' hk' hx
    by_cases hne : e.node = e₀.node
    case neg =>
      obtain ⟨hs, hw⟩ := hi.heard (hm.others hne ▸ hk') hx
      exact ⟨hmono hs, hm.notMem hnew (fun hl => hw ((hm.kept e).subset hl)) hs⟩
    case pos =>
      rw [hne] at hk'
      cases hp'.symm.trans hk'
      obtain ⟨hs, hl⟩ := hheard hne hx
      exact ⟨hmono hs, hm.notMem hnew hl hs⟩

section Acts

variable [DecidableEq K] {t : State net} {node : SetupNode} {out : Outbox} {e : net.End}

theorem waves_append {l l' : List Msg} : waves (l ++ l') = waves l ++ waves l' :=
  List.filterMap_append

theorem waves_act_ne (hk : (net.peer e).node ≠ k) :
    waves ((t.act k node out).chan e) = waves (t.chan e) := by
  simp [act, Topology.State.act, incoming, hk]

theorem waves_act (hk : (net.peer e).node = k) : waves ((t.act k node out).chan e) =
    waves (t.chan e) ++ waves (out.through (net.peer e).index) := by
  simp [act, Topology.State.act, incoming, hk, waves_append]

theorem waves_pop {e' : net.End} : (waves ((t.pop e').chan e)).Sublist (waves (t.chan e)) := by
  apply List.Sublist.filterMap
  by_cases h : e = e'
  case pos =>
    subst h
    simp [pop, Topology.State.pop, List.tail_sublist]
  case neg => simp [pop, Topology.State.pop, h]

-- The state in which a connector acts: it may have taken a message from a channel.
structure Before (s t : State net) : Prop where
  node : t.node = s.node
  chan : ∀ e, (waves (t.chan e)).Sublist (waves (s.chan e))

omit [DecidableEq K] in
theorem Before.refl : Before s s :=
  ⟨rfl, fun _ => .refl _⟩

theorem Before.pop : Before s (s.pop e) :=
  ⟨rfl, fun _ => waves_pop⟩

theorem WaveInv.quiet_act (hi : s.WaveInv h) (hb : Before s t)
    (ho : ∀ i, waves (out.through i) = [])
    (hp : ∀ {u v}, node.phase = .pairing u v → ∃ u v, (s.node k).phase = .pairing u v)
    (he : ∀ {b a}, node.phase = .election b a → (s.node k).phase = .election b a) :
    (t.act k node out).WaveInv h := by
  apply hi.quiet
  case hc =>
    intro e
    apply List.Sublist.trans ?_ (hb.chan e)
    by_cases hk : (net.peer e).node = k
    case pos => simp [waves_act hk, ho]
    case neg => simp [waves_act_ne hk]
  case hp =>
    intro k' u v hk'
    by_cases hk : k' = k
    case pos =>
      subst hk
      rw [act_node_self] at hk'
      exact hp hk'
    case neg =>
      rw [act_node_ne hk, hb.node] at hk'
      exact ⟨u, v, hk'⟩
  case he =>
    intro k' b a hk'
    by_cases hk : k' = k
    case pos =>
      subst hk
      rw [act_node_self] at hk'
      exact he hk'
    case neg => rwa [act_node_ne hk, hb.node] at hk'

theorem Before.moves (hb : Before s t)
    (hs : ∀ e : net.End, e.node = k → sends e → waves (out.through e.index) = [w])
    (hn : ∀ e : net.End, e.node = k → ¬sends e → waves (out.through e.index) = []) :
    Moves s k (fun e => waves (t.chan e)) w sends (t.act k node out) where
  others hk := by rw [act_node_ne hk, hb.node]
  kept      := hb.chan
  sent e hk hx := by rw [waves_act hk, hs _ hk hx]
  unsent e hx := by
    by_cases hk : (net.peer e).node = k
    case pos =>
      rw [waves_act hk, hn _ hk (fun h => hx ⟨hk, h⟩), List.append_nil]
    case neg => exact waves_act_ne hk

theorem waves_do_wave {n i : Nat} {ws : WaveState} : waves ((SetupNode.do_wave n ws).2.through i) =
    if i < n ∧ some i ≠ ws.parent then [ws.leader] else [] := by
  have hl : (SetupNode.others n ws.parent).Nodup := List.nodup_range.filter _
  simp only [SetupNode.do_wave, Outbox.through_map hl, SetupNode.mem_others]
  split <;> rfl

theorem waves_start_construction {n i : Nat} {ws : WaveState} :
    waves ((node.start_construction n ws).2.through i) = [] := by
  simp only [SetupNode.start_construction, Outbox.through_map List.nodup_range,
    SetupNode.construction_msg]
  split
  case isTrue  => split <;> rfl
  case isFalse => rfl

theorem waves_of_chan {leader : ConnectorId} {msgs : List Msg}
    (hc : s.chan e = .setupMsg (.leaderWave leader) :: msgs) :
    waves (s.chan e) = leader :: waves ((s.pop e).chan e) := by
  simp [pop, Topology.State.pop, hc, waves]

-- A message that is received in `setup`, other than a wave that is joined or heard.
theorem WaveInv.recv (hi : s.WaveInv h) {e : net.End} {msg msgs} (hc : s.chan e = msg :: msgs)
    (hr : SetupNode.Reaction (net.connector_id e.node) (net.num_net_endpoints e.node)
      (s.node e.node) e.index msg node out) :
    ∃ h', ((s.pop e).act e.node node out).WaveInv h' := by
  have hb : Before s (s.pop e) := .pop
  cases hr
  case paired hp => exact ⟨h, hi.quiet_act hb (fun _ => rfl) (fun _ => ⟨_, _, hp⟩) (fun h => by cases h)⟩
  case early hp _ => exact ⟨h, hi.quiet_act hb (fun _ => rfl) (⟨_, _, ·⟩) id⟩
  case announced hp =>
    exact ⟨h, hi.quiet_act hb (fun _ => waves_start_construction) (fun h => by cases h) (fun h => by cases h)⟩
  case ignores | discards | returned | comm =>
    exact ⟨h, hi.quiet_act hb (fun _ => rfl) (⟨_, _, ·⟩) id⟩
  case notChild | child => exact ⟨h, hi.quiet_act hb (fun _ => rfl) (fun h => by cases h) (fun h => by cases h)⟩
  case wins => exact ⟨h, hi.quiet_act hb (fun _ => waves_start_construction) (fun h => by cases h) (fun h => by cases h)⟩
  case hears b a hp hx =>
    have hw := waves_of_chan hc
    have hs := hi.sent (e := e) (w := b.leader) (by simp [hw])
    have hn : b.leader ∉ waves ((s.pop e).chan e) := (List.nodup_cons.mp (hw ▸ hi.nodup e)).left
    refine ⟨_, hi.hears hp hx hs hn (by simp) (hb.moves ?_ ?_)⟩
    · rintro e' hk ⟨ha, hp⟩
      simp [ha, hp, Outbox.through, waves]
    · intro e' hk hne
      by_cases ha : a.erase e.index = ∅
      case neg => simp [ha, Outbox.through, waves]
      case pos =>
        rw [if_pos ha]
        cases hp : b.parent
        case none => rfl
        case some i =>
          have hi : i ≠ e'.index := by
            rintro rfl
            exact hne ⟨ha, hp⟩
          simp [hi, Outbox.through, waves]
  case joins b a w hp hlt =>
    have hw := waves_of_chan hc
    have hs := hi.sent (e := e) (w := w) (by simp [hw])
    have hn : w ∉ waves ((s.pop e).chan e) := (List.nodup_cons.mp (hw ▸ hi.nodup e)).left
    have hbest {w'} (hj : h.joined w' e.node ≠ none) : w' < w :=
      Nat.lt_of_le_of_lt (hi.best hp hj) hlt
    have hno : h.joined w e.node = none := by
      by_contra hj
      exact absurd (hbest hj) (Nat.lt_irrefl w)
    have hid : net.connector_id e.node < w := by
      have hj := hi.current hp
      have hle : net.connector_id e.node ≤ b.leader := by
        cases hb : b.parent
        case none   => exact Nat.le_of_eq (hi.root (hb ▸ hj)).symm
        case some i => exact Nat.le_of_lt (hi.child (hb ▸ hj)).left
      exact Nat.lt_of_le_of_lt hle hlt
    refine ⟨_, hi.begins (p := some e.index) (d := h.depth w (net.peer e).node + 1) hno hbest
      (fun h => by cases h) ?_ (congrArg SetupNode.phase act_node_self) ?_ (hb.moves ?_ ?_)⟩
    · intro i he
      cases he
      exact ⟨hid, e, rfl, rfl, hs, Nat.lt_succ_self _, hn⟩
    · intro i
      rw [List.mem_toFinset, SetupNode.mem_others]
    · intro e' hk hsend
      rw [Outbox.through_append, waves_append, waves_do_wave]
      by_cases hx : e'.index = e.index
      case pos =>
        have ha := hsend (congrArg some hx.symm)
        simp [hx, ha, Outbox.through, waves]
      case neg =>
        have hlt : e'.index < net.num_net_endpoints e.node := hk ▸ e'.valid
        have hx' : e.index ≠ e'.index := Ne.symm hx
        rw [if_pos ⟨hlt, by simpa using hx⟩]
        split <;> simp [hx', Outbox.through, waves]
    · intro e' hk hsend
      obtain ⟨hx, ha⟩ := Classical.not_imp.mp hsend
      rw [if_neg ha, List.append_nil, waves_do_wave, if_neg (by simp [hx])]

theorem WaveInv.init (hs : net.setup.Init s) : s.WaveInv ⟨fun _ _ => none, fun _ _ => 0, fun _ _ => False⟩ := by
  obtain ⟨hn, hc⟩ := hs
  constructor
  case nodup   => simp [hc, waves]
  case sent    => simp [hc, waves]
  case root    => exact nofun
  case child   => exact nofun
  case echoed  => exact nofun
  case pairing => exact fun _ => rfl
  all_goals simp [hn]

-- Who wins when this message is received.
theorem WaveInv.wins {msgs : List Msg} (hi : s.WaveInv h)
    (hc : s.chan e = .setupMsg (.leaderWave b.leader) :: msgs)
    (hp : (s.node e.node).phase = .election b a) (hx : a.erase e.index = ∅) (hb : b.parent = none) :
    b.leader = net.connector_id e.node ∧ ∀ k, net.connector_id k ≤ net.connector_id e.node := by
  apply hi.winner hp hb
  intro e' hk
  by_cases hx' : e'.index ∈ a
  case neg => exact (hi.heard (hk ▸ hp) hx').left
  case pos =>
    have he : e' = e := by
      apply Endpoint.ext hk
      by_contra hne
      have hm := Finset.mem_erase.mpr ⟨hne, hx'⟩
      rw [hx] at hm
      cases hm
    exact he ▸ hi.sent (by simp [waves_of_chan hc])

theorem WaveInv.starts (hi : s.WaveInv h) (hp : (s.node k).phase = .pairing ∅ ∅) :
    ∃ h', (s.act k ((s.node k).start (net.connector_id k) (net.num_net_endpoints k)).1
      ((s.node k).start (net.connector_id k) (net.num_net_endpoints k)).2).WaveInv h' := by
  by_cases hn : net.num_net_endpoints k = 0
  case pos =>
    refine ⟨h, hi.quiet_act .refl ?_ ?_ ?_⟩ <;> simp only [SetupNode.start, if_pos hn]
    · exact fun _ => rfl
    · exact nofun
    · exact nofun
  case neg =>
    simp only [SetupNode.start, if_neg hn]
    have hno {w} : h.joined w k = none := hi.pairing hp
    refine ⟨_, hi.begins (p := none) (d := 0) hno (absurd hno) (fun _ => rfl) nofun
      (congrArg SetupNode.phase act_node_self) ?_ (Before.moves .refl ?_ ?_)⟩
    · exact fun {_} => List.mem_toFinset.trans SetupNode.mem_others
    · intro e he _
      rw [waves_do_wave, if_pos ⟨he ▸ e.valid, nofun⟩]
    · intro e _ h
      exact absurd nofun h

theorem WaveInv.step {a : SetupAct} (hi : s.WaveInv h) (hd : s.InfoInv) (hs : s.Step a s') :
    ∃ h', s'.WaveInv h' := by
  cases hs
  case sendInfo hp _ =>
    refine ⟨h, hi.quiet_act .refl (fun i => ?_) (fun _ => ⟨_, _, hp⟩) (fun h => by cases h)⟩
    simp only [Outbox.through, List.filterMap_cons]
    split
    case h_1 => rfl
    case h_2 hx =>
      split at hx <;> cases hx
      rfl
  case start hp => exact hi.starts hp
  case recv hc hr => exact hi.recv hc (SetupNode.recv_cases hr)
  case undelayed k index msg msgs node out hp _ hu hr =>
    obtain ⟨m, hm⟩ := hd.delays k (index, msg) (by simp [hu])
    cases hm
    cases SetupNode.recv_cases hr
    case early hp' _ => exact absurd hp' hp
    case discards hm =>
      cases hm
      case inl hm => cases hm.choose_spec
      case inr hm => cases hm.choose_spec
    case returned | comm => exact ⟨h, hi.quiet_act .refl (fun _ => rfl) (⟨_, _, ·⟩) id⟩
  case finish => exact ⟨h, hi.quiet_act .refl (fun _ => rfl) (fun h => by cases h) (fun h => by cases h)⟩
  case comm hp =>
    refine ⟨h, hi.quiet_act .refl (fun i => ?_) (⟨_, _, ·⟩) id⟩
    simp only [Outbox.through, List.filterMap_cons]
    split
    case h_1 => rfl
    case h_2 hx =>
      split at hx <;> cases hx
      rfl

end Acts
end State
end Network
end Reowolf
