import Reowolf.Runtime.PutDelivery

namespace Reowolf

-- A component of which the branches are run by the evaluator, while the rest of the round goes on
-- around it.
inductive ComponentStep (env : EvalEnv) (cid : ComponentId) :
    RoundCtx × BranchingProtoComponent Prompt → RoundCtx × BranchingProtoComponent Prompt → Prop
  | run {rctx rctx' c predicate branch branch' branch'' blocker order drainer} :
    c.activity = .draining →
    c.drainer.input.get? predicate = some branch →
    Relation.ReflTransGen
      (fun b b' => b.round env ⟨rctx.ips.port_info, predicate⟩ = .ok (none, b')) branch branch' →
    branch'.round env ⟨rctx.ips.port_info, predicate⟩ = .ok (some blocker, branch'') →
    BranchingProtoComponent.handle_blocker cid order rctx
      { c.drainer with input := c.drainer.input.erase predicate } predicate branch'' blocker =
        .ok (rctx', drainer) →
    ComponentStep env cid (rctx, c) (rctx', { c with drainer := drainer })
  -- The steps that run no branch do not depend on the protocol.
  | move {pd rctx rctx' c c' a} :
    (∀ predicate fuel order, a ≠ .run predicate fuel order) →
    c.step pd cid rctx a = .ok (rctx', c') →
    ComponentStep env cid (rctx, c) (rctx', c')
  | other {rctx rctx' c} :
    rctx'.ips.port_info = rctx.ips.port_info →
    ComponentStep env cid (rctx, c) (rctx', c)

variable {env : EvalEnv} {port_info : PortInfoMap} {prompt : Prompt} {predicate : Predicate}
variable {branch branch' : ProtoComponentBranch Prompt} {branches : Branches Prompt}
variable {rctx rctx' : RoundCtx} {cid : ComponentId} {order : List PortId}
variable {cd cd' : CyclicDrainer Prompt} {blocker : SyncBlocker}
variable {P : Predicate → ProtoComponentBranch Prompt → Prop}

open BranchingProtoComponent (insert_branch_merging handle_blocker visit_branch)

def Branches.All (P : Predicate → ProtoComponentBranch Prompt → Prop) (branches : Branches Prompt) :
    Prop :=
  ∀ predicate branch, branches.get? predicate = some branch → P predicate branch

theorem Branches.All.empty : Branches.All P ∅ := nofun

theorem Branches.All.erase (h : Branches.All P branches) : Branches.All P (branches.erase predicate) := by
  intro p b hb
  rw [HashMap.get?_erase] at hb
  split at hb
  case isTrue  => cases hb
  case isFalse => exact h p b hb

theorem Branches.All.insert (h : Branches.All P branches)
    (hmerge : ∀ p b other, P p b → P p (b.merge other)) (hb : P predicate branch) :
    Branches.All P (insert_branch_merging branches predicate branch) := by
  intro p b hget
  rw [insert_branch_merging, HashMap.get?_insertWith] at hget
  split at hget
  case isFalse => exact h p b hget
  case isTrue hp =>
    subst hp
    cases hget
    cases ho : branches.get? p with
    | none     => exact hb
    | some old => exact hmerge p old branch (h p old ho)

-- What a map with one branch says about it.
theorem get?_insert_empty :
    (insert_branch_merging ∅ predicate branch).get? predicate = some branch := by
  rw [insert_branch_merging, HashMap.get?_insertWith, if_pos rfl, HashMap.get?_empty]
  rfl

-- The branch is one that a branch on its own can get to.
def HasRun (env : EvalEnv) (port_info : PortInfoMap) (prompt : Prompt) (predicate : Predicate)
    (branch : ProtoComponentBranch Prompt) : Prop :=
  ∃ r : BranchRun, Relation.ReflTransGen (BranchRun.Step env port_info) (.initial prompt) r ∧
    r.predicate = predicate ∧ r.branch = branch

-- The same for a branch that has not reached the end of its synchronous block.
def IsRunning (env : EvalEnv) (port_info : PortInfoMap) (prompt : Prompt) (predicate : Predicate)
    (branch : ProtoComponentBranch Prompt) : Prop :=
  HasRun env port_info prompt predicate branch ∧ branch.ended = false

structure ComponentRuns (env : EvalEnv) (port_info : PortInfoMap) (prompt : Prompt)
    (c : BranchingProtoComponent Prompt) : Prop where
  branches : c.branches.All (HasRun env port_info prompt)
  input    : c.drainer.input.All (IsRunning env port_info prompt)
  swap     : c.drainer.swap.All (IsRunning env port_info prompt)
  output   : c.drainer.output.All (HasRun env port_info prompt)

theorem HasRun.merge (predicate : Predicate) (branch other : ProtoComponentBranch Prompt)
    (h : HasRun env port_info prompt predicate branch) :
    HasRun env port_info prompt predicate (branch.merge other) := by
  obtain ⟨r, hr, hp, hb⟩ := h
  exact ⟨_, hr.tail (.merged other), hp, congrArg (·.merge other) hb⟩

theorem IsRunning.merge (predicate : Predicate) (branch other : ProtoComponentBranch Prompt)
    (h : IsRunning env port_info prompt predicate branch) :
    IsRunning env port_info prompt predicate (branch.merge other) :=
  ⟨h.left.merge _ _ other, h.right⟩

theorem IsRunning.rounds (h : IsRunning env port_info prompt predicate branch)
    (hr : Relation.ReflTransGen
      (fun b b' => b.round env ⟨port_info, predicate⟩ = .ok (none, b')) branch branch') :
    IsRunning env port_info prompt predicate branch' := by
  induction hr with
  | refl => exact h
  | tail _ hr ih =>
    obtain ⟨⟨r, hrun, hp, hb⟩, hended⟩ := ih
    subst hp hb
    obtain ⟨_, _, hended'⟩ := ProtoComponentBranch.round_eq_ok.mp hr
    exact ⟨⟨_, hrun.tail (.round hended hr), rfl, rfl⟩, hended'.trans hended⟩

-- What `handle_blocker` does with a branch does not depend on the other branches.
theorem IsRunning.handled (h : IsRunning env rctx.ips.port_info prompt predicate branch)
    (hr : branch.round env ⟨rctx.ips.port_info, predicate⟩ = .ok (some blocker, branch'))
    (hh : handle_blocker cid order rctx ∅ predicate branch' blocker = .ok (rctx', cd))
    {predicate' : Predicate} {next : ProtoComponentBranch Prompt}
    (hn : cd.swap.get? predicate' = some next ∨ cd.output.get? predicate' = some next) :
    HasRun env rctx.ips.port_info prompt predicate' next := by
  obtain ⟨⟨r, hrun, hp, hb⟩, hended⟩ := h
  subst hp hb
  obtain ⟨pushed, hpushed⟩ : ∃ pushed, rctx'.payload_inbox = pushed ++ rctx.payload_inbox := by
    cases BranchingProtoComponent.handle_blocker_cases hh with
    | puts => exact ⟨[_], rfl⟩
    | ends _ _ hs => exact ⟨[], by rw [hs.rest]; rfl⟩
    | _ => exact ⟨[], rfl⟩
  exact ⟨_, hrun.tail (.handled hended rfl hr hh hn hpushed), rfl, rfl⟩

-- The branches are inserted into the map, one after the other.
def Branches.insertAll (branches : Branches Prompt)
    (inserted : List (Predicate × ProtoComponentBranch Prompt)) : Branches Prompt :=
  inserted.foldl (fun m entry => insert_branch_merging m entry.1 entry.2) branches

theorem Branches.All.insertAll {inserted : List (Predicate × ProtoComponentBranch Prompt)}
    (h : Branches.All P branches) (hmerge : ∀ p b other, P p b → P p (b.merge other))
    (hi : ∀ p b, (p, b) ∈ inserted → P p b) : Branches.All P (branches.insertAll inserted) := by
  induction inserted generalizing branches with
  | nil => exact h
  | cons entry inserted ih =>
    obtain ⟨p, b⟩ := entry
    exact ih (h.insert hmerge (hi p b (.head _))) fun p b hm => hi p b (.tail _ hm)

theorem Branches.get?_insertAll_of_notMem {inserted : List (Predicate × ProtoComponentBranch Prompt)}
    (h : predicate ∉ inserted.map Prod.fst) :
    (branches.insertAll inserted).get? predicate = branches.get? predicate := by
  induction inserted generalizing branches with
  | nil => rfl
  | cons entry inserted ih =>
    simp only [List.map_cons, List.mem_cons, not_or] at h
    refine (ih h.right).trans ?_
    simp only [insert_branch_merging, HashMap.get?_insertWith, if_neg h.left]

-- No two of the branches are merged if they have different predicates.
theorem Branches.get?_insertAll {inserted : List (Predicate × ProtoComponentBranch Prompt)}
    (hn : (inserted.map Prod.fst).Nodup) (hb : ∀ entry ∈ inserted, branches.get? entry.1 = none)
    (hm : (predicate, branch) ∈ inserted) :
    (branches.insertAll inserted).get? predicate = some branch := by
  induction inserted generalizing branches with
  | nil => cases hm
  | cons entry inserted ih =>
    obtain ⟨hnew, hn⟩ := List.nodup_cons.mp hn
    obtain ⟨hentry, hb⟩ := List.forall_mem_cons.mp hb
    cases List.mem_cons.mp hm with
    | inl hm =>
      subst hm
      refine (get?_insertAll_of_notMem hnew).trans ?_
      simp [insert_branch_merging, HashMap.get?_insertWith, hentry]
    | inr hm =>
      refine ih hn (fun other ho => ?_) hm
      have hne : other.1 ≠ entry.1 := fun he => hnew (he ▸ List.mem_map_of_mem ho)
      simp only [insert_branch_merging, HashMap.get?_insertWith, if_neg hne]
      exact hb other ho

-- What `handle_blocker` puts into the maps.
structure Inserts (cd cd' : CyclicDrainer Prompt)
    (swap output : List (Predicate × ProtoComponentBranch Prompt)) : Prop where
  input  : cd'.input = cd.input
  swap   : cd'.swap = cd.swap.insertAll swap
  output : cd'.output = cd.output.insertAll output

-- It does not depend on what is in the maps already.
theorem handle_blocker_inserts
    (h : handle_blocker cid order rctx cd predicate branch blocker = .ok (rctx', cd')) :
    ∃ cd₀ swap output, handle_blocker cid order rctx ∅ predicate branch blocker = .ok (rctx', cd₀) ∧
      Inserts ∅ cd₀ swap output ∧ Inserts cd cd' swap output ∧ (swap.map Prod.fst).Nodup ∧
      (output.map Prod.fst).Nodup ∧ ∀ entry ∈ swap, entry.2.ended = branch.ended := by
  cases blocker with
  | inconsistent =>
    cases h
    exact ⟨_, [], [], rfl, ⟨rfl, rfl, rfl⟩, ⟨rfl, rfl, rfl⟩, .nil, .nil, nofun⟩
  | couldntReadMsg port =>
    obtain ⟨_, hc, h⟩ := SyncResult.bind_eq_ok.mp h
    cases h
    exact ⟨_, [], [(predicate, branch)], SyncResult.bind_eq_ok.mpr ⟨_, hc, rfl⟩, ⟨rfl, rfl, rfl⟩,
      ⟨rfl, rfl, rfl⟩, .nil, List.nodup_singleton _, nofun⟩
  | couldntCheckFiring port =>
    obtain ⟨var, hv, h⟩ := SyncResult.bind_eq_ok.mp h
    obtain ⟨_, hc, h⟩ := SyncResult.bind_eq_ok.mp h
    cases h
    have hne : predicate.inserted var .SILENT ≠ predicate.inserted var .FIRING := fun he => by
      have hq := congrArg (Predicate.query · var) he
      simp only [Predicate.query_inserted_self] at hq
      cases hq
    exact ⟨_, [(predicate.inserted var .SILENT, branch), (predicate.inserted var .FIRING, branch)], [],
      SyncResult.bind_eq_ok.mpr ⟨_, hv, SyncResult.bind_eq_ok.mpr ⟨_, hc, rfl⟩⟩, ⟨rfl, rfl, rfl⟩,
      ⟨rfl, rfl, rfl⟩, by simp [hne], .nil, by simp⟩
  | putMsg putter payload =>
    obtain ⟨pol, hpol, h⟩ := SyncResult.bind_eq_ok.mp h
    obtain ⟨_, hp, h⟩ := SyncResult.bind_eq_ok.mp h
    obtain ⟨var, hv, h⟩ := SyncResult.bind_eq_ok.mp h
    simp only [handle_blocker, SyncResult.bind_eq_ok]
    split at h
    case isTrue hq =>
      cases h
      exact ⟨_, [], [], ⟨pol, hpol, _, hp, var, hv, if_pos hq⟩, ⟨rfl, rfl, rfl⟩, ⟨rfl, rfl, rfl⟩, .nil,
        .nil, nofun⟩
    case isFalse hq =>
      obtain ⟨_, hd, h⟩ := SyncResult.bind_eq_ok.mp h
      obtain ⟨rctx'', hpush, h⟩ := SyncResult.bind_eq_ok.mp h
      cases h
      let entry := (predicate.inserted var .FIRING, { branch with inner := branch.inner.noting putter })
      refine ⟨⟨∅, Branches.insertAll ∅ [entry], ∅⟩, [entry], [], ⟨pol, hpol, _, hp, var, hv, ?_⟩,
        ⟨rfl, rfl, rfl⟩, ⟨rfl, rfl, rfl⟩, List.nodup_singleton _, .nil, by simp [entry]⟩
      rw [if_neg hq]
      exact SyncResult.bind_eq_ok.mpr ⟨_, hd, SyncResult.bind_eq_ok.mpr ⟨_, hpush, rfl⟩⟩
  | syncBlockEnd =>
    obtain ⟨_, hc, h⟩ := SyncResult.bind_eq_ok.mp h
    obtain ⟨completed, hcomp, h⟩ := SyncResult.bind_eq_ok.mp h
    simp only [handle_blocker, SyncResult.bind_eq_ok]
    cases completed with
    | none =>
      cases h
      exact ⟨_, [], [], ⟨_, hc, _, hcomp, rfl⟩, ⟨rfl, rfl, rfl⟩, ⟨rfl, rfl, rfl⟩, .nil, .nil, nofun⟩
    | some completed =>
      obtain ⟨rctx'', hs, h⟩ := SyncResult.bind_eq_ok.mp h
      cases h
      exact ⟨_, [], [(completed, { branch with ended := true })],
        ⟨_, hc, _, hcomp, SyncResult.bind_eq_ok.mpr ⟨_, hs, rfl⟩⟩, ⟨rfl, rfl, rfl⟩, ⟨rfl, rfl, rfl⟩, .nil,
        List.nodup_singleton _, nofun⟩

theorem IsRunning.handle_blocker (h : IsRunning env rctx.ips.port_info prompt predicate branch)
    (hr : branch.round env ⟨rctx.ips.port_info, predicate⟩ = .ok (some blocker, branch'))
    (hh : handle_blocker cid order rctx cd predicate branch' blocker = .ok (rctx', cd'))
    (hs : cd.swap.All (IsRunning env rctx.ips.port_info prompt))
    (ho : cd.output.All (HasRun env rctx.ips.port_info prompt)) :
    cd'.input = cd.input ∧ cd'.swap.All (IsRunning env rctx.ips.port_info prompt) ∧
      cd'.output.All (HasRun env rctx.ips.port_info prompt) := by
  obtain ⟨cd₀, swap, output, hh₀, h₀, hcd, hns, hno, hended⟩ := handle_blocker_inserts hh
  obtain ⟨_, _, hended'⟩ := ProtoComponentBranch.round_eq_ok.mp hr
  refine ⟨hcd.input, hcd.swap ▸ hs.insertAll IsRunning.merge fun p b hm => ⟨?_, ?_⟩,
    hcd.output ▸ ho.insertAll HasRun.merge fun p b hm => ?_⟩
  · exact h.handled hr hh₀ (.inl (h₀.swap ▸ Branches.get?_insertAll hns (fun _ _ => rfl) hm))
  · exact (hended _ hm).trans (hended'.trans h.right)
  · exact h.handled hr hh₀ (.inr (h₀.output ▸ Branches.get?_insertAll hno (fun _ _ => rfl) hm))

theorem HasRun.fed {getter : PortId} {msg : SendPayloadMsg} {predicate' : Predicate}
    (h : HasRun env port_info prompt predicate branch) (hended : branch.ended = false)
    (hv : visit_branch getter msg ∅ predicate branch = .ok cd)
    (hi : cd.input.get? predicate' = some branch') : IsRunning env port_info prompt predicate' branch' := by
  obtain ⟨_, _, hended'⟩ := BranchRun.visit_branch_input hv hi
  obtain ⟨r, hrun, hp, hb⟩ := h
  subst hp hb
  exact ⟨⟨_, hrun.tail (.fed hv hi), rfl, rfl⟩, hended'.trans hended⟩

-- What the first loop of `feed_msg` does with a branch.
theorem HasRun.visit_branch {getter : PortId} {msg : SendPayloadMsg}
    (h : HasRun env port_info prompt predicate branch)
    (hv : visit_branch getter msg cd predicate branch = .ok cd')
    (hi : cd.input.All (IsRunning env port_info prompt))
    (ho : cd.output.All (HasRun env port_info prompt)) :
    cd'.swap = cd.swap ∧ cd'.input.All (IsRunning env port_info prompt) ∧
      cd'.output.All (HasRun env port_info prompt) := by
  have hstays := ho.insert HasRun.merge h
  have hfed (cd₀ p b) (hv : BranchingProtoComponent.visit_branch getter msg ∅ predicate branch = .ok cd₀)
      (hi : cd₀.input.get? p = some b) (hended : branch.ended = false) :
      IsRunning env port_info prompt p b := h.fed hended hv hi
  simp only [BranchingProtoComponent.visit_branch] at hv hfed
  split at hv
  case isTrue =>
    cases hv
    exact ⟨rfl, hi, hstays⟩
  case isFalse hended =>
    have hended := Bool.eq_false_iff.mpr hended
    rw [hended, if_neg Bool.false_ne_true] at hfed
    split at hv
    case h_1 =>
      cases hv
      exact ⟨rfl, hi, hstays⟩
    case h_2 hu | h_3 hu =>
      obtain ⟨fed, hf, hv⟩ := SyncResult.bind_eq_ok.mp hv
      cases hv
      rw [hu] at hfed
      have hfed := hfed _ _ _ (SyncResult.bind_eq_ok.mpr ⟨_, hf, rfl⟩) get?_insert_empty rfl
      exact ⟨rfl, hi.insert IsRunning.merge hfed, ho⟩
    case h_4 hu | h_5 hu =>
      obtain ⟨fed, hf, hv⟩ := SyncResult.bind_eq_ok.mp hv
      cases hv
      rw [hu] at hfed
      have hfed := hfed _ _ _ (SyncResult.bind_eq_ok.mpr ⟨_, hf, rfl⟩) get?_insert_empty rfl
      exact ⟨rfl, hi.insert IsRunning.merge hfed, hstays⟩

theorem handle_blocker_port_info
    (h : handle_blocker cid order rctx cd predicate branch blocker = .ok (rctx', cd')) :
    rctx'.ips.port_info = rctx.ips.port_info := by
  cases BranchingProtoComponent.handle_blocker_cases h with
  | ends _ _ hs => rw [hs.rest]
  | _           => rfl

namespace ComponentRuns

variable {c c' : BranchingProtoComponent Prompt}

theorem initial : ComponentRuns env port_info prompt (.initial prompt) where
  branches := nofun
  swap     := nofun
  output   := nofun
  input predicate branch h := by
    simp only [BranchingProtoComponent.initial, HashMap.get?_insert, HashMap.get?_empty] at h
    split at h
    case isFalse => cases h
    case isTrue hp =>
      cases h
      exact ⟨⟨_, .refl, hp.symm, rfl⟩, rfl⟩

theorem step (h : ComponentRuns env port_info prompt c) (hp : rctx.ips.port_info = port_info)
    (hs : ComponentStep env cid (rctx, c) (rctx', c')) :
    rctx'.ips.port_info = port_info ∧ ComponentRuns env port_info prompt c' := by
  cases hs with
  | other hp' => exact ⟨hp'.trans hp, h⟩
  | run ha hget hrounds hround hh =>
    subst hp
    have hrun := (h.input _ _ hget).rounds hrounds
    obtain ⟨hinput, hswap, houtput⟩ := hrun.handle_blocker hround hh h.swap h.output
    exact ⟨handle_blocker_port_info hh, h.branches, hinput ▸ h.input.erase, hswap, houtput⟩
  | move ha hs =>
    cases BranchingProtoComponent.step_cases hs with
    | feed_msg => exact ⟨hp, h.branches, h.input, h.swap, h.output⟩
    | visit _ hget hv =>
      obtain ⟨hswap, hinput, houtput⟩ := (h.branches _ _ hget).visit_branch hv h.input h.output
      exact ⟨hp, h.branches.erase, hinput, hswap ▸ h.swap, houtput⟩
    | drain => exact ⟨hp, h.branches, h.input, h.swap, h.output⟩
    | run => exact absurd rfl (ha _ _ _)
    | cycle => exact ⟨hp, h.branches, h.swap, nofun, h.output⟩
    | settle => exact ⟨hp, h.output, nofun, nofun, nofun⟩

-- Every branch of a component, at any time of a round, is one that a branch on its own can get to.
theorem steps {s : RoundCtx × BranchingProtoComponent Prompt}
    (hs : Relation.ReflTransGen (ComponentStep env cid) (rctx, .initial prompt) s) :
    s.1.ips.port_info = rctx.ips.port_info ∧ ComponentRuns env rctx.ips.port_info prompt s.2 := by
  induction hs with
  | refl => exact ⟨rfl, initial⟩
  | tail _ hs ih => exact ih.right.step ih.left hs

end ComponentRuns

namespace BranchRun

-- A branch of a component that has reached the end of its synchronous block has come there in steps of
-- its own, and has delivered one message for each put that was evaluated in them, unless it has skipped
-- a put on the way.
theorem put_delivery (env : EvalEnv) (cid : ComponentId) (rctx : RoundCtx) (prompt : Prompt) :
    (∀ rctx' c, Relation.ReflTransGen (ComponentStep env cid) (rctx, .initial prompt) (rctx', c) →
      ∀ predicate branch, c.branches.get? predicate = some branch → branch.ended = true →
        ∃ path, (BranchRun.initial prompt :: path).IsChain (Step env rctx.ips.port_info) ∧
          let last := (BranchRun.initial prompt :: path).getLast (by simp)
          last.predicate = predicate ∧ last.branch = branch) ∧
    ∀ path, (BranchRun.initial prompt :: path).IsChain (Step env rctx.ips.port_info) →
      let last := (BranchRun.initial prompt :: path).getLast (by simp)
      last.branch.ended = true →
        (last.EachDelivered rctx.ips.port_info ↔ ∀ r ∈ BranchRun.initial prompt :: path, ¬r.Skips) := by
  constructor
  case left =>
    intro rctx' c hs predicate branch hget _
    obtain ⟨_, hruns⟩ := ComponentRuns.steps hs
    obtain ⟨r, hrun, hp, hb⟩ := hruns.branches predicate branch hget
    obtain ⟨path, hpath, hlast⟩ := List.exists_isChain_cons_of_relationReflTransGen hrun
    exact ⟨path, hpath, hlast ▸ hp, hlast ▸ hb⟩
  case right => exact fun path hpath hended => puts_delivered_iff env _ prompt path hpath hended

theorem first_put_delivered :
    let last := (initial (.puts ["a"] 2) :: of_puts ["a"]).getLast (by simp)
    last.branch.ended = true ∧ last.evaluated = [(⟨0, 0⟩, some [1])] ∧
      (last.EachDelivered .of_puts ↔ ∀ r ∈ initial (.puts ["a"] 2) :: of_puts ["a"], ¬r.Skips) := by
  have hended : ((initial (.puts ["a"] 2) :: of_puts ["a"]).getLast (by simp)).branch.ended = true := by
    decide +kernel
  exact ⟨hended, by decide +kernel,
    (put_delivery (.puts ["a"]) ⟨0, 0⟩ .of_puts (.puts ["a"] 2)).right _ (of_puts_isChain _) hended⟩

end BranchRun

end Reowolf
