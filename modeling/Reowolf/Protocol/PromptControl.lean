import Reowolf.Protocol.Program
import Reowolf.Protocol.EvalRound

namespace Reowolf

-- What the evaluator gets to see of an accepted program.
def AcceptedProgram.env (program : AcceptedProgram) (build : Build)
    (expr_data : DefinitionId → Nat → Nat → Option MonomorphExpression) : EvalEnv where
  build       := build
  definitions := fun id => program.definitions.find? (·.this = id)
  arena       := program.arena
  heap        := program.heap
  expr_data   := expr_data

def Outcome.prompt : Outcome → Prompt
  | more prompt | done _ prompt => prompt

-- The statement that a prompt executes next in its outermost frame, with the outcome of its test.
def Prompt.visited (env : EvalEnv) (prompt : Prompt) : List (StatementId × Option Bool) :=
  match prompt.frames with
  | [frame] =>
    match frame.position, frame.expr_stack with
    | some id, [] =>
      match env.node id with
      | .ok node =>
        if node.is_test then
          match pop_test frame prompt.store with
          | .ok (test, _) => [(id, some test)]
          | .error _      => []
        else [(id, none)]
      | .error _ => []
    | _, _ => []
  | _ => []

-- A run of a prompt, round by round and each in surroundings of its own, with the statements that it
-- executes in its outermost frame.
inductive Visits (env : EvalEnv) : Prompt → List (StatementId × Option Bool) → Prompt → Prop
  | refl (prompt) : Visits env prompt [] prompt
  | head {ctx prompt out visits last} :
    prompt.advance env ctx = .ok out → Visits env out.prompt visits last →
    Visits env prompt (prompt.visited env ++ visits) last

variable {env : EvalEnv} {ctx : EvalContext} {control : Option Control} {frame frame' : Frame}

-- A frame is at a point of its body, or at the end of it.
structure Frame.At (env : EvalEnv) (frame : Frame) (control : Option Control) : Prop where
  position : frame.position = control.map Control.visit
  linked   : ∀ c, control = some c → c.Everywhere (LinkedAt env.arena env.heap)

theorem Frame.At.of_eq (h : frame.At env control) (hp : frame'.position = frame.position) :
    frame'.At env control :=
  ⟨hp.trans h.position, h.linked⟩

theorem EvalEnv.node_eq_ok {id : StatementId} {node : Node} :
    env.node id = .ok node ↔ env.arena.get id = some node := by
  simp only [EvalEnv.node]
  split
  case h_1 h => simp [h]
  case h_2 h => simp [h]

-- A frame that is at a statement.
theorem Frame.At.node {id : StatementId} {node : Node} (h : frame.At env control)
    (hp : frame.position = some id) (hn : env.node id = .ok node) :
    ∃ c start, control = some c ∧ c.visit = id ∧ node = c.node start ∧
      c.Everywhere (LinkedAt env.arena env.heap) := by
  have hc := h.position.symm.trans hp
  obtain ⟨c, hc, hv⟩ := Option.map_eq_some_iff.mp hc
  obtain ⟨start, hget⟩ := (h.linked c hc).get
  have hn := EvalEnv.node_eq_ok.mp hn
  rw [← hv, hget] at hn
  exact ⟨c, start, hc, hv, (Option.some.inj hn).symm, h.linked c hc⟩

theorem prepare_position_eq (h : prepare_position env frame = .ok frame') :
    frame'.position = frame.position ∧ frame'.definition = frame.definition := by
  simp only [prepare_position] at h
  split at h
  case h_1 hp =>
    cases h
    exact ⟨rfl, rfl⟩
  case h_2 id hp =>
    simp only [Except.bind_eq_ok] at h
    obtain ⟨node, _, h⟩ := h
    split at h <;> cases h <;> exact ⟨rfl, rfl⟩

-- Executing a statement takes the frame to where the structured meaning goes.
theorem Frame.At.next {c : Control} {start : StatementId} {outcome : Bool}
    (h : c.Everywhere (LinkedAt env.arena env.heap))
    (hn : prepare_position env { frame with
      position := env.heap.follow c.visit (c.node start) outcome, expr_values := [] } = .ok frame') :
    frame'.At env (c.next outcome) where
  position := by rw [(prepare_position_eq hn).1, h.follow]
  linked _ hc := h.next hc

-- Where the outermost frame of a prompt is. A prompt without frames has come to its end.
def Prompt.At (env : EvalEnv) (prompt : Prompt) (control : Option Control) : Prop :=
  match prompt.frames.getLast? with
  | some frame => frame.At env control
  | none       => control = none

theorem Control.next_of_not_test {c : Control} (h : c.is_test = false) (outcome : Bool) :
    c.next outcome = c.next false := by
  obtain ⟨point, stack⟩ := c
  cases point
  case stmt label stmt => cases stmt <;> first | rfl | cases h
  all_goals rfl

theorem Control.next_of_return {c : Control} {start this : StatementId} {e : Expression}
    (h : c.node start = .statement (.return this e)) : c.is_test = false ∧ c.next false = none := by
  obtain ⟨point, stack⟩ := c
  cases point
  case stmt label stmt =>
    cases h
    exact ⟨rfl, rfl⟩
  all_goals cases h

-- The frame on top is the outermost one, or the outermost one is below it.
theorem Prompt.at_cons {frames : List Frame} {store : Store} :
    Prompt.At env ⟨frame :: frames, store⟩ control ↔
      match frames with
      | []         => frame.At env control
      | caller :: frames => Prompt.At env ⟨caller :: frames, store⟩ control := by
  cases frames <;> simp [Prompt.At]

theorem Prompt.At.store {frames : List Frame} {store : Store} (store' : Store)
    (h : Prompt.At env ⟨frames, store⟩ control) : Prompt.At env ⟨frames, store'⟩ control := h

theorem Prompt.At.replace {frames : List Frame} {store : Store}
    (h : Prompt.At env ⟨frame :: frames, store⟩ control) (hp : frame'.position = frame.position) :
    Prompt.At env ⟨frame' :: frames, store⟩ control := by
  rw [Prompt.at_cons] at h ⊢
  cases frames
  case nil => exact h.of_eq hp
  case cons => exact h

theorem Prompt.visited_nil_of_expr {frames : List Frame} {store : Store}
    {instruction : ExprInstruction} {expr_stack : List ExprInstruction}
    (hs : frame.expr_stack = instruction :: expr_stack) :
    Prompt.visited env ⟨frame :: frames, store⟩ = [] := by
  cases frames <;> simp [Prompt.visited, hs]

theorem Prompt.At.advance {prompt : Prompt} {out : Outcome} (h : prompt.At env control)
    (ha : prompt.advance env ctx = .ok out) :
    prompt.visited env = [] ∧ out.prompt.At env control ∨
    ∃ c outcome, control = some c ∧ out.prompt.At env (c.next outcome) ∧
      prompt.visited env = [(c.visit, if c.is_test then some outcome else none)] := by
  have hr := prompt.advance_round env ctx
  rw [ha] at hr
  cases hr
  case terminal frame frames store hp hk =>
    apply Or.inl
    refine ⟨?_, h⟩
    cases frames <;> simp [Prompt.visited, hp]
  case expr hp hs => exact .inl ⟨Prompt.visited_nil_of_expr hs, (h.store _).replace rfl⟩
  case branch hp hs hnext => exact .inl ⟨Prompt.visited_nil_of_expr hs, (h.store _).replace rfl⟩
  case inconsistent hp hs => exact .inl ⟨Prompt.visited_nil_of_expr hs, h.replace rfl⟩
  case block hp hs hc hb => exact .inl ⟨Prompt.visited_nil_of_expr hs, h.replace rfl⟩
  case call hp hs hd =>
    refine .inl ⟨Prompt.visited_nil_of_expr hs, ?_⟩
    exact Prompt.at_cons.mpr ((h.store _).replace rfl)
  case stmt frame frames store id node outcome continuation next store' hp hs hn ht hr hc hnext =>
    cases frames
    case cons => exact .inl ⟨rfl, h⟩
    case nil =>
      obtain ⟨c, start, hcontrol, hv, hnode, hev⟩ := Frame.At.node h hp hn
      subst hv hnode
      rw [c.is_test_node] at ht
      refine .inr ⟨c, outcome, hcontrol, Frame.At.next hev hnext, ?_⟩
      simp only [Prompt.visited, hp, hs, hn, c.is_test_node]
      cases htest : c.is_test
      case false => simp
      case true =>
        obtain ⟨values, hpop⟩ := ht htest
        simp [hpop]
  case «return» frame caller frames store id this e expr_values store' hp hs hn =>
    have hcaller : Prompt.At env ⟨caller :: frames, store'⟩ control := Prompt.at_cons.mp h
    exact .inl ⟨rfl, hcaller.replace rfl⟩
  case leave frame store id this e store' hp hs hn =>
    obtain ⟨c, start, hc, hv, hnode, hev⟩ := Frame.At.node h hp hn
    have hret := c.next_of_return hnode.symm
    refine .inr ⟨c, false, hc, hret.2, ?_⟩
    simp [Prompt.visited, hp, hs, hn, Node.is_test, hv, hret.1]

theorem Visits.trace {prompt last : Prompt} {visits : List (StatementId × Option Bool)}
    (hv : Visits env prompt visits last) (h : prompt.At env control) :
    ∃ outcomes, visits = Control.machine.trace visits.length outcomes control := by
  induction hv generalizing control
  case refl => exact ⟨fun _ => false, rfl⟩
  case head ha _ ih =>
    cases h.advance ha
    case inl h =>
      rw [h.1]
      exact ih h.2
    case inr h =>
      obtain ⟨c, outcome, hc, hnext, hvisited⟩ := h
      rw [hc, hvisited]
      exact Control.machine.exists_trace_cons (fun ht => Control.next_of_not_test ht outcome) (ih hnext)

-- The links of an accepted program have the structured meaning for every sequence of test outcomes,
-- and a prompt executes the statements of its procedure as the structured meaning has them.
theorem AcceptedProgram.structured_control_flow (program : AcceptedProgram) {definition : Definition}
    (hd : definition ∈ program.definitions) :
    (∀ (n : Nat) (outcomes : Nat → Bool),
      (program.heap.machine program.arena).trace n outcomes (some definition.body.this) =
        Control.machine.trace n outcomes (some (Control.start definition.body))) ∧
    ∀ build expr_data monomorph_idx args prompt visits last,
      Prompt.new program.heap definition monomorph_idx args = .ok prompt →
      Visits (program.env build expr_data) prompt visits last →
      ∃ outcomes, visits =
        Control.machine.trace visits.length outcomes (some (Control.start definition.body)) := by
  have hlinked := Control.Everywhere.start (program.linked hd)
  constructor
  · intro n outcomes
    exact (Follows.bisimulation program.arena program.heap).trace_eq n outcomes (.some ⟨rfl, hlinked⟩)
  · intro build expr_data monomorph_idx args prompt visits last hnew hv
    simp only [Prompt.new, Except.bind_eq_ok] at hnew
    obtain ⟨store, _, hnew⟩ := hnew
    cases hnew
    apply hv.trace
    exact ⟨rfl, fun c hc => Option.some.inj hc ▸ hlinked⟩

-- `primitive p() { while (true) { break; } }`.
def Definition.break_at_once : Definition where
  this       := 0
  kind       := .primitive
  parameters := []
  body       := ⟨0, [.while 1 (.literal 0 .true []) ⟨2, [.break 3 none], 4⟩ 5], 6⟩

def LinkCtx.of_component : LinkCtx where
  types _        := .component 0
  has_symbol _ _ := false

def Names.parsed (arena : List Variable) : Names where
  arena           := arena
  locals _        := []
  expressions _   := ⟨.none, 0, none, false, 0, []⟩
  next_expr_index := 0

theorem AcceptedProgram.structured_control_flow_break_at_once :
    ∃ heap, visit_module .of_component [.break_at_once] (.parsed (.parsed [])) = .ok heap ∧
      (heap.machine (BlockOf.nodes Definition.break_at_once.body)).trace 6 (fun _ => true) (some 0) =
        [(0, none), (1, some true), (2, none), (3, none), (5, none), (6, none)] := by
  refine ⟨_, rfl, ?_⟩
  have h := AcceptedProgram.structured_control_flow
    ⟨.of_component, [.break_at_once], .parsed [], _, by decide, rfl⟩ (List.mem_singleton_self _)
  exact h.1 6 fun _ => true

end Reowolf
