import Reowolf.Library.Transition
import Reowolf.Runtime.ProtoComponent

namespace Reowolf

open BranchingProtoComponent

variable {S : Type}

namespace BranchingProtoComponent

variable {c : BranchingProtoComponent S} {branches : Branches S} {p q : Predicate}
variable {b b' : ProtoComponentBranch S} {getter : PortId} {msg : SendPayloadMsg}
variable {cd cd' : CyclicDrainer S} {order : List Predicate}

-- The branches that are not about to change: those that have not been visited yet, and those that
-- are blocked or have ended.
def Holds (c : BranchingProtoComponent S) (p : Predicate) (b : ProtoComponentBranch S) : Prop :=
  c.branches.get? p = some b ∨ c.drainer.output.get? p = some b

-- Where the branches can be during each activity.
def WellFormed (c : BranchingProtoComponent S) : Prop :=
  match c.activity with
  | .settled      => c.drainer.output = ∅
  | .visiting _ _ => ∀ p b, c.branches.get? p = some b → c.drainer.output.get? p = none
  | .draining     => c.branches = ∅

theorem get?_insert_branch_merging :
    (insert_branch_merging branches p b).get? q =
      if q = p then some ((branches.get? p).elim b (·.merge b)) else branches.get? q :=
  HashMap.get?_insertWith

theorem get?_insert_branch_merging_none (h : branches.get? p = none) :
    (insert_branch_merging branches p b).get? p = some b := by
  simp [get?_insert_branch_merging, h]

-- Merging keeps what has ended.
theorem insert_branch_merging_ended (h : branches.get? q = some b') (he : b'.ended) :
    ∃ b'', (insert_branch_merging branches p b).get? q = some b'' ∧ b''.ended := by
  rw [get?_insert_branch_merging]
  split
  case isFalse => exact ⟨b', h, he⟩
  case isTrue hq =>
    subst hq
    exact ⟨b'.merge b, by simp [h], he⟩

-- A visit can only change the entry of the visited predicate, where it puts a branch that was there
-- if that has ended.
structure Visited (cd : CyclicDrainer S) (p : Predicate) (b : ProtoComponentBranch S)
    (cd' : CyclicDrainer S) : Prop where
  others : ∀ {q}, q ≠ p → cd'.output.get? q = cd.output.get? q
  ended  : b.ended → cd'.output = insert_branch_merging cd.output p b

theorem visit_branch_ok (h : visit_branch getter msg cd p b = .ok cd') : Visited cd p b cd' := by
  have hne {q} (hq : q ≠ p) : (insert_branch_merging cd.output p b).get? q = cd.output.get? q := by
    rw [get?_insert_branch_merging, if_neg hq]
  unfold visit_branch at h
  split at h
  case isTrue he =>
    cases h
    exact ⟨hne, fun _ => rfl⟩
  case isFalse he =>
    split at h
    case h_1 =>
      cases h
      exact ⟨hne, fun h => absurd h he⟩
    case h_2 | h_3 =>
      obtain ⟨_, _, h⟩ := SyncResult.bind_eq_ok.mp h
      cases h
      exact ⟨fun _ => rfl, fun h => absurd h he⟩
    case h_4 | h_5 =>
      obtain ⟨_, _, h⟩ := SyncResult.bind_eq_ok.mp h
      cases h
      exact ⟨hne, fun h => absurd h he⟩

-- A component finds an ended branch for a solution if it has one whose predicate is a subset.
theorem collapse_with_ok (ho : Iterates order (Finmap.keys branches))
    (hb : branches.get? p = some b) (he : b.ended) (hs : p ⊆ q) :
    ∃ state, collapse_with branches order q = .ok state := by
  have hm : p ∈ order := ho.mem_iff.mpr (HashMap.mem_keys_iff.mpr ⟨b, hb⟩)
  have hsome : (order.findSome? fun branch_predicate =>
      (branches.get? branch_predicate).bind fun branch =>
        if branch.ended ∧ branch_predicate.assigns_subset q then some branch else none).isSome := by
    rw [List.findSome?_isSome_iff]
    exact ⟨p, hm, by simp [hb, he, Predicate.assigns_subset_iff.mpr hs]⟩
  obtain ⟨branch, hf⟩ := Option.isSome_iff_exists.mp hsome
  exact ⟨branch.state, by simp [collapse_with, SyncResult.choose_pos ho, hf]⟩

end BranchingProtoComponent

-- A component and the context of its round.
structure ComponentRound (S : Type) where
  rctx      : RoundCtx
  component : BranchingProtoComponent S

namespace ComponentRound

-- A step of the component, or, while it is settled, anything that the other components and the
-- endpoints do to the context of the round.
inductive Step (pd : ProtocolDescription S) (cid : ComponentId) :
    ComponentRound S → Option Act → ComponentRound S → Prop
  | act {s : ComponentRound S} {a rctx component} :
    s.component.step pd cid s.rctx a = .ok (rctx, component) →
    Step pd cid s (some a) ⟨rctx, component⟩
  | others {s : ComponentRound S} {rctx} :
    s.component.activity = .settled →
    rctx.ips = s.rctx.ips →
    rctx.solution_storage.solutions (.localComponent cid) =
      s.rctx.solution_storage.solutions (.localComponent cid) →
    Step pd cid s none { s with rctx := rctx }

-- What was submitted for the component.
def submitted (cid : ComponentId) (s : ComponentRound S) : Finset Predicate :=
  s.rctx.solution_storage.solutions (.localComponent cid)

def system (pd : ProtocolDescription S) (cid : ComponentId) :
    TransitionSystem (ComponentRound S) (Option Act) where
  Init s := ∃ state, s.component = .initial state ∧ s.submitted cid = ∅
  Step   := Step pd cid

-- There is an ended branch for everything that was submitted.
def EndedKept (cid : ComponentId) (s : ComponentRound S) : Prop :=
  ∀ p ∈ s.submitted cid, ∃ b, s.component.Holds p b ∧ b.ended

-- The step runs a branch to the end of its synchronous block, where its predicate is completed.
def EndsAt (pd : ProtocolDescription S) (s : ComponentRound S) (a : Option Act)
    (completed : Predicate) : Prop :=
  ∃ predicate fuel order branch state inner,
    a = some (.run predicate fuel order) ∧
    s.component.drainer.input.get? predicate = some branch ∧
    sync_run pd ⟨s.rctx.ips.port_info, predicate⟩ fuel (branch.state, branch.inner) =
      .ok (.syncBlockEnd, state, inner) ∧
    complete s.rctx.ips.port_info inner.did_put_or_get order predicate = .ok (some completed)

-- No branch that has not ended is in the way of one that ends.
def EndsClear (pd : ProtocolDescription S) (s : ComponentRound S) (a : Option Act) : Prop :=
  ∀ p, EndsAt pd s a p → ∀ b, s.component.drainer.output.get? p = some b → b.ended

variable {pd : ProtocolDescription S} {cid : ComponentId} {s s' : ComponentRound S}
variable {a : Option Act} {as : List (Option Act)} {p q : Predicate}

theorem step_wellFormed (h : s.component.WellFormed) (hs : Step pd cid s a s') :
    s'.component.WellFormed := by
  cases hs
  case others => exact h
  case act a rctx c hs =>
    cases step_cases hs
    case feed_msg ha =>
      simp only [WellFormed, ha] at h
      simp [WellFormed, h]
    case visit ha hb hv =>
      simp only [WellFormed, ha] at h ⊢
      intro q b hq
      rw [HashMap.get?_erase] at hq
      split at hq
      case isTrue      => cases hq
      case isFalse hne => exact ((visit_branch_ok hv).others hne).trans (h q b hq)
    case drain hb => exact hb
    case run ha _ _ _ | cycle ha _ =>
      simp only [WellFormed, ha] at h ⊢
      exact h
    case settle => rfl

theorem reachable_wellFormed (h : (system pd cid).Reachable s) : s.component.WellFormed := by
  apply TransitionSystem.Reachable.invariant ?_ ?_ h
  · rintro s ⟨state, hs, _⟩
    rw [hs]
    rfl
  · intro s a s' _ hi hs
    exact step_wellFormed hi hs

-- What a drained branch does keeps the ended branches that are in the output.
theorem handled_output {order rctx rctx'} {cd cd' : CyclicDrainer S} {predicate blocker}
    {branch b : ProtoComponentBranch S}
    (h : Handled cid order rctx cd predicate branch blocker rctx' cd')
    (hb : cd.output.get? p = some b) (he : b.ended) : ∃ b', cd'.output.get? p = some b' ∧ b'.ended := by
  cases h
  case waits | ends => exact insert_branch_merging_ended hb he
  all_goals exact ⟨b, hb, he⟩

theorem step_holds {b} (hw : s.component.WellFormed) (hs : Step pd cid s a s')
    (hb : s.component.Holds p b) (he : b.ended) : ∃ b', s'.component.Holds p b' ∧ b'.ended := by
  cases hs
  case others => exact ⟨b, hb, he⟩
  case act a rctx c hs =>
    cases step_cases hs
    case feed_msg => exact ⟨b, hb, he⟩
    case visit predicate getter msg branch drainer ha hbr hv =>
      have hv := visit_branch_ok hv
      simp only [WellFormed, ha] at hw
      have hout := hw predicate branch hbr
      cases hb
      case inr hb =>
        have hne : p ≠ predicate := by
          rintro rfl
          cases hout.symm.trans hb
        exact ⟨b, .inr ((hv.others hne).trans hb), he⟩
      case inl hb =>
        by_cases hp : p = predicate
        case neg => exact ⟨b, .inl (by rw [HashMap.get?_erase, if_neg hp, hb]), he⟩
        case pos =>
          subst hp
          cases hbr.symm.trans hb
          have hb' := get?_insert_branch_merging_none (b := b) hout
          exact ⟨b, .inr (hv.ended he ▸ hb'), he⟩
    case drain hbr =>
      have hout := hb.resolve_left (by simp [hbr])
      exact ⟨b, .inr hout, he⟩
    case run ha hbr hrun hh =>
      simp only [WellFormed, ha] at hw
      have hout := hb.resolve_left (by simp [hw])
      obtain ⟨b', hb', he'⟩ := handled_output hh hout he
      exact ⟨b', .inr hb', he'⟩
    case cycle => exact ⟨b, hb, he⟩
    case settle ha _ _ =>
      simp only [WellFormed, ha] at hw
      have hout := hb.resolve_left (by simp [hw])
      exact ⟨b, .inl hout, he⟩

-- A step submits nothing, or it submits the predicate at which the branch that it runs ends.
inductive Submits (pd : ProtocolDescription S) (cid : ComponentId) (s : ComponentRound S)
    (a : Option Act) (s' : ComponentRound S) : Prop
  | nothing :
    s'.submitted cid = s.submitted cid →
    (∀ p, ¬EndsAt pd s a p) →
    Submits pd cid s a s'
  | ended {completed} {branch : ProtoComponentBranch S} :
    s'.submitted cid = s.submitted cid ∪ {completed} →
    (∀ p, EndsAt pd s a p ↔ p = completed) →
    s.component.activity = .draining →
    s'.component.drainer.output =
      insert_branch_merging s.component.drainer.output completed { branch with ended := true } →
    s'.component.branches = s.component.branches →
    Submits pd cid s a s'

theorem step_submits (hs : Step pd cid s a s') : Submits pd cid s a s' := by
  cases hs
  case others hs => exact .nothing hs (by simp [EndsAt])
  case act a rctx c hs =>
    cases step_cases hs
    case run predicate fuel order branch blocker state inner drainer ha hbr hrun hh =>
      have hblocker {p} (h : EndsAt pd s (some (.run predicate fuel order)) p) :
          blocker = .syncBlockEnd ∧
          complete s.rctx.ips.port_info inner.did_put_or_get order predicate = .ok (some p) := by
        obtain ⟨_, _, _, _, _, _, ha, hb, hr, hc⟩ := h
        cases ha
        cases hbr.symm.trans hb
        cases hrun.symm.trans hr
        exact ⟨rfl, hc⟩
      cases hh
      case incomplete hc =>
        refine .nothing rfl ?_
        intro p hp
        cases hc.symm.trans (hblocker hp).right
      case ends completed ho hc hsub =>
        refine .ended hsub.solutions ?_ ha rfl rfl
        intro p
        constructor
        case mp =>
          intro hp
          cases hc.symm.trans (hblocker hp).right
          rfl
        case mpr =>
          rintro rfl
          exact ⟨predicate, fuel, order, branch, state, inner, rfl, hbr, hrun, hc⟩
      all_goals
        refine .nothing rfl ?_
        intro p hp
        cases (hblocker hp).left
    all_goals exact .nothing rfl (by simp [EndsAt])

theorem step_endedKept_iff (hw : s.component.WellFormed) (hk : s.EndedKept cid)
    (hs : Step pd cid s a s') : s'.EndedKept cid ↔ EndsClear pd s a := by
  have hkept {p} (hp : p ∈ s.submitted cid) : ∃ b, s'.component.Holds p b ∧ b.ended := by
    obtain ⟨_, hb, he⟩ := hk p hp
    exact step_holds hw hs hb he
  cases step_submits hs
  case nothing hsub hends =>
    constructor
    · intro _ p hp
      exact absurd hp (hends p)
    · intro _ p hp
      exact hkept (hsub ▸ hp)
  case ended completed branch hsub hends ha hout hbr =>
    simp only [WellFormed, ha] at hw
    have hget : s'.component.drainer.output.get? completed = some
        ((s.component.drainer.output.get? completed).elim { branch with ended := true }
          (·.merge { branch with ended := true })) := by
      rw [hout, get?_insert_branch_merging, if_pos rfl]
    constructor
    case mp =>
      intro hk' p hp b hb
      cases (hends p).mp hp
      obtain ⟨b', hb', he'⟩ := hk' completed (by simp [hsub])
      have hb' := hb'.resolve_left (by simp [hbr, hw])
      rw [hget, hb] at hb'
      cases hb'
      exact he'
    case mpr =>
      intro hc p hp
      rw [hsub, Finset.mem_union, Finset.mem_singleton] at hp
      cases hp
      case inl hp => exact hkept hp
      case inr hp =>
        subst hp
        refine ⟨_, .inr hget, ?_⟩
        cases hb : s.component.drainer.output.get? p
        case none   => rfl
        case some b => exact hc p ((hends p).mpr rfl) b hb

-- The runs in which every submitted predicate keeps an ended branch are the runs in which no branch
-- that ends meets one that has not. In these, a settled component has an ended branch for
-- everything that was submitted, and can be collapsed with every solution that contains it.
theorem ended_branches (pd : ProtocolDescription S) (cid : ComponentId) (as : List (Option Act))
    (s : ComponentRound S) :
    (((system pd cid).within (EndedKept cid)).Run as s ↔
      ((system pd cid).restrict (EndsClear pd)).Run as s) ∧
    (((system pd cid).restrict (EndsClear pd)).Run as s → s.component.activity = .settled →
      ∀ p ∈ s.submitted cid, (∃ b, s.component.branches.get? p = some b ∧ b.ended) ∧
        ∀ q order, p ⊆ q → Iterates order (Finmap.keys s.component.branches) →
          ∃ state, collapse_with s.component.branches order q = .ok state) := by
  have hiff {as s} : ((system pd cid).within (EndedKept cid)).Run as s ↔
      ((system pd cid).restrict (EndsClear pd)).Run as s := by
    apply TransitionSystem.Run.within_iff_restrict
    · rintro s ⟨_, _, hs⟩ p hp
      rw [hs] at hp
      cases hp
    · intro s a s' hr hk hs
      exact step_endedKept_iff (reachable_wellFormed hr) hk hs
  refine ⟨hiff, fun hr ha p hp => ?_⟩
  have hw := reachable_wellFormed (TransitionSystem.Reachable.of_restrict hr.reachable)
  obtain ⟨b, hb, he⟩ := (hiff.mpr hr).of_within p hp
  simp only [WellFormed, ha] at hw
  have hb := hb.resolve_right (by simp [hw])
  exact ⟨⟨b, hb, he⟩, fun q order hq ho => collapse_with_ok ho hb he hq⟩

def acts (pd : ProtocolDescription S) (cid : ComponentId) :
    List Act → ComponentRound S → SyncResult (ComponentRound S)
  | [], s => return s
  | a :: as, s => do
    let (rctx, component) ← s.component.step pd cid s.rctx a
    acts pd cid as ⟨rctx, component⟩

theorem run_acts {as' : List Act} (hr : (system pd cid).Run as s) (h : acts pd cid as' s = .ok s') :
    (system pd cid).Run (as ++ as'.map some) s' := by
  induction as' generalizing as s with
  | nil =>
    cases h
    rwa [List.map_nil, List.append_nil]
  | cons a as' ih =>
    obtain ⟨⟨rctx, component⟩, hs, h⟩ := SyncResult.bind_eq_ok.mp h
    have h := ih (hr.step (.act hs)) h
    rwa [List.append_assoc] at h

-- primitive late_end(in h, out x1, out x2, in g, in y, in k), which owns the ports 0 to 5
def lateEnd : ProtocolDescription Nat where
  sync
    | 0 => .get ⟨0, 0⟩ fun _ => 1
    | 1 => .put ⟨0, 1⟩ [] 2
    | 2 => .put ⟨0, 2⟩ [] 3
    | 3 => .get ⟨0, 3⟩ fun _ => 4
    | 4 => .fires ⟨0, 4⟩ fun firing => if firing then 5 else 6
    | 5 => .get ⟨0, 4⟩ fun _ => 6
    | 6 => .fires ⟨0, 5⟩ fun firing => if firing then 7 else 8
    | 7 => .get ⟨0, 5⟩ fun _ => 8
    | _ => .syncBlockEnd 9
  nonsync s := .syncBlockStart s
  component_polarities _ _ := .error .noSuchComponent
  new_component _ _ _ := 0

def lateEndPorts : PortInfoMap where
  map   := List.foldl (fun m (e : Nat × Polarity) => m.insert ⟨0, e.1⟩
      { owner := ⟨0, 1⟩, peer := some ⟨0, e.1 + 6⟩, polarity := e.2, route := .localComponent })
    ∅ [(0, .getter), (1, .putter), (2, .putter), (3, .getter), (4, .getter), (5, .getter)]
  owned := HashMap.insert ∅ ⟨0, 1⟩ ((List.range 6).map (Id.mk 0)).toFinset

def lateEndRound : ComponentRound Nat where
  rctx := {
    solution_storage := SolutionStorage.new [.localComponent ⟨0, 0⟩, .localComponent ⟨0, 1⟩]
    spec_var_stream  := ⟨0, ⟨113⟩⟩
    payload_inbox    := []
    deadline         := false
    ips              := ⟨lateEndPorts, ⟨0, ⟨12⟩, ⟨2⟩⟩⟩
  }
  component := .initial 0

def silent (vars : List Nat) (p : Predicate) : Predicate :=
  vars.foldl (fun p var => p.inserted ⟨0, var⟩ .SILENT) p

def firing (vars : List Nat) : Predicate :=
  vars.foldl (fun p var => p.inserted ⟨0, var⟩ .FIRING) ∅

def runs (ps : List Predicate) : List Act :=
  ps.map (.run · 10 ((List.range 6).map (Id.mk 0))) ++ [.cycle]

def feeds (getter : Nat) (vars : List Nat) (visited : List Predicate) : List Act :=
  .feed_msg ⟨0, getter⟩ ⟨firing vars, []⟩ :: visited.map .visit ++ [.drain]

def lateEndActs : List Act :=
  runs [∅] ++ [.settle] ++
  feeds 5 [5] [∅] ++ runs [firing [5]] ++ [.settle] ++
  feeds 0 [0] [∅, firing [5]] ++ runs [firing [0], firing [0, 5]] ++
    runs [firing [0, 7], firing [0, 5, 7]] ++ runs [firing [0, 7, 8], firing [0, 5, 7, 8]] ++
    [.settle] ++
  feeds 3 [0, 3, 7, 8] [firing [0, 7, 8], ∅, firing [5], firing [0, 5, 7, 8]] ++
    runs [firing [0, 3, 7, 8], firing [0, 3, 5, 7, 8]] ++
    runs [silent [4] (firing [0, 3, 7, 8]), firing [0, 3, 4, 7, 8], firing [0, 3, 5, 7, 8]] ++
    runs [silent [4, 5] (firing [0, 3, 7, 8]), silent [4] (firing [0, 3, 5, 7, 8]),
      firing [0, 3, 5, 7, 8]] ++
    runs [silent [4] (firing [0, 3, 5, 7, 8]), firing [0, 3, 4, 5, 7, 8]] ++ [.settle]

-- The branch that has received the message for port 5 ends at a predicate at which a branch that has
-- not received it, but speculates that the port fires, is already blocked.
theorem late_end_ended_branches : ∃ as s p b,
    (system lateEnd ⟨0, 1⟩).Run as s ∧ s.component.activity = .settled ∧
    p ∈ s.submitted ⟨0, 1⟩ ∧ s.component.branches.get? p = some b ∧ b.ended = false ∧
    ∃ order, collapse_with s.component.branches order p = .error (.panic .noMatchingBranch) := by
  let p := silent [4] (firing [0, 3, 5, 7, 8])
  let order := [∅, firing [5], firing [0, 7, 8], firing [0, 5, 7, 8], firing [0, 3, 4, 7, 8],
    silent [4, 5] (firing [0, 3, 7, 8]), p, firing [0, 3, 4, 5, 7, 8]]
  have h : (acts lateEnd ⟨0, 1⟩ lateEndActs lateEndRound).toOption.any (fun s =>
      s.component.activity = .settled ∧ p ∈ s.submitted ⟨0, 1⟩ ∧
      (s.component.branches.get? p).any (·.ended = false) ∧
      collapse_with s.component.branches order p = .error (.panic .noMatchingBranch)) := by
    decide +kernel
  cases hs : acts lateEnd ⟨0, 1⟩ lateEndActs lateEndRound
  case error => simp [hs, Except.toOption] at h
  case ok s =>
    simp only [hs, Except.toOption, Option.any_some, decide_eq_true_eq] at h
    obtain ⟨ha, hp, hb, hc⟩ := h
    have hr := run_acts (.init ⟨0, rfl, by decide⟩) hs
    cases he : s.component.branches.get? p
    case none   => simp [he] at hb
    case some b => exact ⟨_, s, p, b, hr, ha, hp, he, by simpa [he] using hb, order, hc⟩

-- A component that ends at once.
theorem ended_branches_at_once : ∃ s,
    ((system lateEnd ⟨0, 1⟩).within (EndedKept ⟨0, 1⟩)).Run [some (.run ∅ 1 []), some .settle] s ∧
    ∃ state, collapse_with s.component.branches [∅] ∅ = .ok state := by
  let s₀ : ComponentRound Nat := {
    rctx      := { lateEndRound.rctx with ips := ⟨∅, ⟨0, ⟨12⟩, ⟨2⟩⟩⟩ }
    component := .initial 8
  }
  have h₀ : (system lateEnd ⟨0, 1⟩).Init s₀ := ⟨8, rfl, by decide⟩
  have h : (acts lateEnd ⟨0, 1⟩ [.run ∅ 1 [], .settle] s₀).toOption.any (fun s =>
      s.component.activity = .settled ∧ ∅ ∈ s.submitted ⟨0, 1⟩ ∧
      Iterates [∅] (Finmap.keys s.component.branches)) := by
    decide +kernel
  cases hs : acts lateEnd ⟨0, 1⟩ [.run ∅ 1 [], .settle] s₀
  case error => simp [hs, Except.toOption] at h
  case ok s =>
    simp only [hs, Except.toOption, Option.any_some, decide_eq_true_eq] at h
    obtain ⟨ha, hp, ho⟩ := h
    obtain ⟨_, hs₁, hs⟩ := SyncResult.bind_eq_ok.mp hs
    obtain ⟨_, hs₂, hs⟩ := SyncResult.bind_eq_ok.mp hs
    cases hs
    have hr₁ := TransitionSystem.Run.init (T := (system lateEnd ⟨0, 1⟩).restrict (EndsClear lateEnd)) h₀
    have hr₂ := hr₁.step ⟨.act hs₁, fun p _ b hb => by cases hb.symm.trans HashMap.get?_empty⟩
    have hr := hr₂.step ⟨.act hs₂, by rintro _ ⟨_, _, _, _, _, _, ha, _⟩; cases ha⟩
    obtain ⟨_, hc⟩ := (ended_branches lateEnd ⟨0, 1⟩ _ _).right hr ha ∅ hp
    have hk := (ended_branches lateEnd ⟨0, 1⟩ _ _).left.mpr hr
    exact ⟨_, hk, hc ∅ [∅] (Predicate.Subset.refl _) ho⟩

end ComponentRound
end Reowolf
