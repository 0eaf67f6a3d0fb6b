import Reowolf.Library.Machine
import Reowolf.Protocol.Control
import Reowolf.Protocol.Executor

namespace Reowolf

section

variable {α β : Type} {x : Except Fault α}

@[simp]
theorem lift_eq_ok {a : α} : (liftM x : Except Panic α) = .ok a ↔ x = .ok a := by
  cases x <;> simp [liftM, monadLift, MonadLift.monadLift, Except.mapError]

theorem lift_ok {a : α} : (liftM (Except.ok a : Except Fault α) : Except Panic α) = .ok a := rfl

theorem ok_bind {a : α} {f : α → Except Panic β} : (Except.ok a >>= f) = f a := rfl

theorem bind_eq_error {x : Except Panic α} {f : α → Except Panic β} {p : Panic} :
    x >>= f = .error p ↔ x = .error p ∨ ∃ a, x = .ok a ∧ f a = .error p := by
  cases x <;> simp [bind, Except.bind]

@[simp]
theorem lift_eq_error {p : Panic} :
    (liftM x : Except Panic α) = .error p ↔ ∃ f, x = .error f ∧ p = .fault f := by
  cases x <;> simp [liftM, monadLift, MonadLift.monadLift, Except.mapError, eq_comm]

end

def EvalContext.is_nonsync : EvalContext → Bool
  | nonsync _ => true
  | _         => false

def EvalContext.is_sync : EvalContext → Bool
  | sync .. => true
  | _       => false

-- The methods that are about ports.
def Method.on_port : Method → Bool
  | .get | .put | .fires => true
  | _                    => false

-- The value is a port that the method may be about.
def Method.accepts : Method → Value → Bool
  | .get, .input _   => true
  | .put, .output _  => true
  | .fires, .input _ | .fires, .output _ => true
  | _, _             => false

-- The port that a call is about.
def Method.port (method : Method) (values : List Value) (store : Store) : Except Fault Value := do
  let (port_value, values) ← pop_front values
  let port ← store.maybe_read_ref port_value
  if method = .put then
    let (msg_value, _) ← pop_front values
    match ← store.maybe_read_ref msg_value with
    | .message _ => .ok port
    | _          => .error .unreachable
  else .ok port

-- What the component is told when it has to wait for the outcome of a call.
def Method.blocks : Method → EvalContinuation → Prop
  | .get, .blockGet port     => Method.get.accepts port
  | .fires, .blockFires port => Method.fires.accepts port
  | .put, .put port message  => Method.put.accepts port ∧ ∃ pos, message = .message pos
  | _, _                     => False

-- What the component is told of a statement that is executed.
def Node.continues : Node → EvalContinuation → Prop
  | .statement (.synchronous ..), continuation => continuation = .syncBlockStart
  | .endSynchronous _, continuation            => continuation = .syncBlockEnd
  | .statement (.new _ _ _ _ definition), continuation =>
    ∃ monomorph_idx args, continuation = .newComponent definition monomorph_idx args
  | _, continuation                            => continuation = .stepping

section

variable (env : EvalEnv) (ctx : EvalContext)

-- All that a round of the loop of `Prompt::step` can do.
inductive EvalRound : Prompt → Except Panic Outcome → Prop
  | fault {prompt} (fault : Fault) : EvalRound prompt (.error (.fault fault))
  | terminal {frame frames store} :
    frame.position = none → frame.definition.kind ≠ .function →
    EvalRound ⟨frame :: frames, store⟩ (.ok (.done .terminal ⟨frame :: frames, store⟩))
  -- An expression is evaluated.
  | expr {frame frames store instruction expr_stack} (expr_values store') :
    frame.position.isSome →
    frame.expr_stack = instruction :: expr_stack →
    EvalRound ⟨frame :: frames, store⟩
      (.ok (.more ⟨{ frame with expr_stack, expr_values } :: frames, store'⟩))
  | branch {frame frames store this test t f expr_stack} (next expr_values store') :
    frame.position.isSome →
    frame.expr_stack = .evalExpr (.conditional this test t f) :: expr_stack →
    next = t ∨ next = f →
    EvalRound ⟨frame :: frames, store⟩
      (.ok (.more ⟨{ frame with expr_stack, expr_values }.serialize env.heap next :: frames, store'⟩))
  | inconsistent {frame frames store this arguments definition expr_stack} (expr_values) :
    frame.position.isSome →
    frame.expr_stack = .evalExpr (.call this .assert arguments definition) :: expr_stack →
    EvalRound ⟨frame :: frames, store⟩
      (.ok (.done .inconsistent ⟨{ frame with expr_stack, expr_values } :: frames, store⟩))
  | block {frame frames store this method arguments definition expr_stack}
      (continuation expr_values) :
    frame.position.isSome →
    frame.expr_stack = .evalExpr (.call this method arguments definition) :: expr_stack →
    ctx.is_sync → method.blocks continuation →
    EvalRound ⟨frame :: frames, store⟩
      (.ok (.done continuation ⟨{ frame with expr_values } :: frames, store⟩))
  | call {frame frames store this arguments id expr_stack} (definition monomorph_idx expr_values store') :
    frame.position.isSome →
    frame.expr_stack = .evalExpr (.call this .userFunction arguments id) :: expr_stack →
    env.definition id = .ok definition →
    EvalRound ⟨frame :: frames, store⟩
      (.ok (.done .stepping ⟨.new env.heap definition monomorph_idx ::
        { frame with expr_stack, expr_values } :: frames, store'⟩))
  -- A statement is executed.
  | stmt {frame frames store id node} (outcome continuation next store') :
    frame.position = some id → frame.expr_stack = [] → env.node id = .ok node →
    (node.is_test → ∃ values, pop_test frame store = .ok (outcome, values)) →
    (∀ this e, node ≠ .statement (.return this e)) → node.continues continuation →
    prepare_position env { frame with
      position := env.heap.follow id node outcome, expr_values := [] } = .ok next →
    EvalRound ⟨frame :: frames, store⟩ (.ok (.done continuation ⟨next :: frames, store'⟩))
  | return {frame caller frames store id this e} (expr_values store') :
    frame.position = some id → frame.expr_stack = [] →
    env.node id = .ok (.statement (.return this e)) →
    EvalRound ⟨frame :: caller :: frames, store⟩
      (.ok (.done .stepping ⟨{ caller with expr_values } :: frames, store'⟩))
  | leave {frame store id this e} (store') :
    frame.position = some id → frame.expr_stack = [] →
    env.node id = .ok (.statement (.return this e)) →
    EvalRound ⟨[frame], store⟩ (.ok (.done .terminal ⟨[], store'⟩))
  -- What belongs to the other kind of run.
  | phase_call {frame frames store this method arguments definition expr_stack} :
    frame.position.isSome →
    frame.expr_stack = .evalExpr (.call this method arguments definition) :: expr_stack →
    method.on_port → ¬ctx.is_sync →
    EvalRound ⟨frame :: frames, store⟩ (.error .phase)
  | phase_channel {frame frames store id this from_id to_id} :
    frame.position = some id → frame.expr_stack = [] →
    env.node id = .ok (.statement (.channel this from_id to_id)) → ¬ctx.is_nonsync →
    EvalRound ⟨frame :: frames, store⟩ (.error .phase)
  | port {frame frames store this method arguments definition expr_stack} (port) :
    frame.position.isSome →
    frame.expr_stack = .evalExpr (.call this method arguments definition) :: expr_stack →
    method.on_port → ctx.is_sync → method.port frame.expr_values store = .ok port →
    ¬method.accepts port →
    EvalRound ⟨frame :: frames, store⟩ (.error .port)

end

namespace EvalRound

variable {env : EvalEnv} {ctx : EvalContext} {prompt : Prompt} {frame : Frame} {frames : List Frame}
variable {store : Store} {expr_stack : List ExprInstruction}

-- A fault of the evaluator may come first.
theorem lift {α : Type} {x : Except Fault α} {f : α → Except Panic Outcome}
    (h : ∀ a, x = .ok a → EvalRound env ctx prompt (f a)) :
    EvalRound env ctx prompt ((liftM x : Except Panic α) >>= f) := by
  cases x
  case error fault' => exact .fault fault'
  case ok a => exact h a rfl

theorem finish_expr {instruction : ExprInstruction} (hp : frame.position.isSome)
    (hs : frame.expr_stack = instruction :: expr_stack) (result : Evaluated) :
    EvalRound env ctx ⟨frame :: frames, store⟩
      (Reowolf.finish_expr { frame with expr_stack } frames result) := by
  apply lift
  rintro ⟨expr_values, store'⟩ _
  exact .expr expr_values store' hp hs

theorem call_user_function {this : ExpressionId} {arguments : List Expression} {id : DefinitionId}
    {num_args : Nat} (hp : frame.position.isSome)
    (hs : frame.expr_stack = .evalExpr (.call this .userFunction arguments id) :: expr_stack) :
    EvalRound env ctx ⟨frame :: frames, store⟩
      (Reowolf.call_user_function env { frame with expr_stack } frames this num_args id store) := by
  apply lift
  rintro ⟨expr_values, store'⟩ _
  apply lift
  intro data _
  apply lift
  intro definition hd
  exact .call definition data.field_or_monomorph_idx expr_values _ hp hs hd

theorem block_on {this : ExpressionId} {method : Method} {arguments : List Expression}
    {definition : DefinitionId} {continuation : EvalContinuation} (expr_values : List Value)
    (hp : frame.position.isSome)
    (hs : frame.expr_stack = .evalExpr (.call this method arguments definition) :: expr_stack)
    (hc : ctx.is_sync) (hb : method.blocks continuation) :
    EvalRound env ctx ⟨frame :: frames, store⟩
      (Reowolf.block_on { frame with expr_stack } frames (.call this method arguments definition)
        expr_values continuation store) := by
  cases frame
  subst hs
  exact .block continuation expr_values hp rfl hc hb

variable {this : ExpressionId} {arguments : List Expression} {definition : DefinitionId}

theorem eval_get (hp : frame.position.isSome)
    (hs : frame.expr_stack = .evalExpr (.call this .get arguments definition) :: expr_stack) :
    EvalRound env ctx ⟨frame :: frames, store⟩
      (Reowolf.eval_get ctx { frame with expr_stack } frames (.call this .get arguments definition)
        store) := by
  apply lift
  rintro ⟨value, values⟩ hpop
  apply lift
  intro port hport
  cases ctx
  case none | nonsync => exact .phase_call hp hs rfl (by simp [EvalContext.is_sync])
  case sync is_firing read_msg did_put_or_get =>
    by_cases hi : ∃ id, port = .input id
    case neg =>
      have hport' : Method.get.port frame.expr_values store = .ok port := by
        simp only [Method.port, Except.bind_eq_ok]
        exact ⟨_, hpop, _, hport, rfl⟩
      cases port
      case input id => exact absurd ⟨id, rfl⟩ hi
      all_goals exact .port _ hp hs rfl rfl hport' (by simp [Method.accepts])
    case pos =>
      obtain ⟨id, hi⟩ := hi
      subst hi
      simp only [EvalContext.get]
      cases read_msg id
      case none => exact block_on _ hp hs rfl (by simp [Method.blocks, Method.accepts])
      case some payload =>
        simp only [bind_assoc]
        apply lift
        intro region _
        rw [ok_bind]
        exact finish_expr hp hs (.ok _)

theorem eval_put (hp : frame.position.isSome)
    (hs : frame.expr_stack = .evalExpr (.call this .put arguments definition) :: expr_stack) :
    EvalRound env ctx ⟨frame :: frames, store⟩
      (Reowolf.eval_put ctx { frame with expr_stack } frames (.call this .put arguments definition)
        store) := by
  apply lift
  rintro ⟨port_value, values⟩ hpop
  apply lift
  intro port hport
  apply lift
  rintro ⟨msg_value, values'⟩ hpop'
  apply lift
  intro msg hmsg
  cases msg
  case message pos =>
    have hport' : Method.put.port frame.expr_values store = .ok port := by
      simp only [Method.port, Except.bind_eq_ok, if_true]
      exact ⟨_, hpop, _, hport, _, hpop', _, hmsg, rfl⟩
    cases ctx
    case none | nonsync => exact .phase_call hp hs rfl (by simp [EvalContext.is_sync])
    case sync is_firing read_msg did_put_or_get =>
      cases port
      case output id =>
        have hdid : (EvalContext.sync is_firing read_msg did_put_or_get).did_put (.output id) =
          .ok (did_put_or_get id) := rfl
        simp only [hdid]
        cases did_put_or_get id
        case false =>
          exact block_on _ hp hs rfl ⟨by simp [Method.accepts], pos, rfl⟩
        case true =>
          apply lift
          intro store' _
          exact finish_expr hp hs (.ok _)
      all_goals exact .port _ hp hs rfl rfl hport' (by simp [Method.accepts])
  all_goals exact .fault _

theorem eval_fires (hp : frame.position.isSome)
    (hs : frame.expr_stack = .evalExpr (.call this .fires arguments definition) :: expr_stack) :
    EvalRound env ctx ⟨frame :: frames, store⟩
      (Reowolf.eval_fires ctx { frame with expr_stack } frames
        (.call this .fires arguments definition) store) := by
  apply lift
  rintro ⟨port_value, values⟩ hpop
  apply lift
  intro port hport
  have hport' : Method.fires.port frame.expr_values store = .ok port := by
    simp only [Method.port, Except.bind_eq_ok]
    exact ⟨_, hpop, _, hport, rfl⟩
  cases ctx
  case none | nonsync => exact .phase_call hp hs rfl (by simp [EvalContext.is_sync])
  case sync is_firing read_msg did_put_or_get =>
    cases port
    case input id | output id =>
      simp only [EvalContext.fires]
      cases is_firing id
      case none => exact block_on _ hp hs rfl (by simp [Method.blocks, Method.accepts])
      case some fires =>
        rw [ok_bind]
        exact finish_expr hp hs (.ok _)
    all_goals exact .port _ hp hs rfl rfl hport' (by simp [Method.accepts])

theorem eval_assert (hp : frame.position.isSome)
    (hs : frame.expr_stack = .evalExpr (.call this .assert arguments definition) :: expr_stack) :
    EvalRound env ctx ⟨frame :: frames, store⟩
      (Reowolf.eval_assert { frame with expr_stack } frames store) := by
  apply lift
  rintro ⟨value, values⟩ _
  apply lift
  intro value' _
  apply lift
  intro holds _
  cases holds
  case true => exact finish_expr hp hs (.ok _)
  case false => exact .inconsistent values hp hs

theorem eval_expr {expr : Expression} (hp : frame.position.isSome)
    (hs : frame.expr_stack = .evalExpr expr :: expr_stack) :
    EvalRound env ctx ⟨frame :: frames, store⟩
      (Reowolf.eval_expr env ctx { frame with expr_stack } frames expr store) := by
  cases expr
  case conditional this test t f =>
    apply lift
    rintro ⟨value, expr_values⟩ _
    apply lift
    intro holds _
    exact .branch _ expr_values store hp hs (by cases holds <;> simp)
  case call this method arguments definition =>
    cases method
    case get => exact eval_get hp hs
    case put => exact eval_put hp hs
    case fires => exact eval_fires hp hs
    case assert => exact eval_assert hp hs
    case userFunction => exact call_user_function hp hs
    case create | length | userComponent => exact finish_expr hp hs _
  all_goals exact finish_expr hp hs _

theorem eval_instruction {instruction : ExprInstruction} (hp : frame.position.isSome)
    (hs : frame.expr_stack = instruction :: expr_stack) :
    EvalRound env ctx ⟨frame :: frames, store⟩
      (Reowolf.eval_instruction env ctx { frame with expr_stack } frames instruction store) := by
  cases instruction
  case evalExpr expr => exact eval_expr hp hs
  case pushValToFront =>
    apply lift
    intro expr_values _
    exact finish_expr hp hs (.ok _)

variable {id : StatementId} {node : Node}

-- A statement that moves on in its own frame.
theorem finish_stmt (outcome : Bool) {continuation : EvalContinuation} {expr_values : List Value}
    {store' : Store} (hp : frame.position = some id) (hs : frame.expr_stack = [])
    (hn : env.node id = .ok node)
    (ht : node.is_test → ∃ values, pop_test frame store = .ok (outcome, values))
    (hr : ∀ this e, node ≠ .statement (.return this e)) (hc : node.continues continuation) :
    EvalRound env ctx ⟨frame :: frames, store⟩
      (Reowolf.finish_stmt env frame frames continuation (env.heap.follow id node outcome)
        expr_values store') := by
  rw [Reowolf.finish_stmt]
  split
  case isTrue => exact .fault _
  case isFalse he =>
    apply lift
    intro next hnext
    rw [not_not.mp he] at hnext
    exact .stmt outcome continuation next store' hp hs hn ht hr hc hnext

theorem exec_return {e : Expression} (hp : frame.position = some id) (hs : frame.expr_stack = [])
    (hn : env.node id = .ok (.statement (.return this e))) :
    EvalRound env ctx ⟨frame :: frames, store⟩ (Reowolf.exec_return frame frames store) := by
  apply lift
  rintro ⟨return_value, values⟩ _
  apply lift
  rintro ⟨return_value, store₁⟩ _
  apply lift
  intro store₂ _
  apply lift
  rintro ⟨boundary, stack⟩ _
  apply lift
  intro prev_stack_idx _
  cases frames
  case nil => exact .leave _ hp hs hn
  case cons caller frames => exact .return _ _ hp hs hn

theorem exec_stmt (hp : frame.position = some id) (hs : frame.expr_stack = [])
    (hn : env.node id = .ok node) :
    EvalRound env ctx ⟨frame :: frames, store⟩ (Reowolf.exec_stmt env ctx frame frames id node store) := by
  cases node
  case endBlock start_block =>
    apply lift
    intro store' _
    exact finish_stmt false hp hs hn (by simp [Node.is_test]) (by simp) rfl
  case endIf | endWhile | endSynchronous =>
    exact finish_stmt false hp hs hn (by simp [Node.is_test]) (by simp) rfl
  case statement stmt =>
    cases stmt
    case block | labeled | synchronous | expression =>
      exact finish_stmt false hp hs hn (by simp [Node.is_test]) (by simp) rfl
    case memory =>
      apply lift
      intro store' _
      exact finish_stmt false hp hs hn (by simp [Node.is_test]) (by simp) rfl
    case channel from_id to_id =>
      cases ctx
      case none | sync => exact .phase_channel hp hs hn (by simp [EvalContext.is_nonsync])
      case nonsync new_port_pair =>
        apply lift
        intro store₁ _
        apply lift
        intro store₂ _
        exact finish_stmt false hp hs hn (by simp [Node.is_test]) (by simp) rfl
    case «if» | «while» =>
      apply lift
      rintro ⟨test, values⟩ ht
      exact finish_stmt test hp hs hn (fun _ => ⟨values, ht⟩) (by simp) rfl
    case «break» | «continue» | goto =>
      simp only [Reowolf.exec_stmt]
      split
      case h_1 target ht =>
        rw [← ht]
        exact finish_stmt false hp hs hn (by simp [Node.is_test]) (by simp) rfl
      case h_2 => exact .fault _
    case «return» => exact exec_return hp hs hn
    case new this call method arguments definition =>
      apply lift
      intro data _
      apply lift
      intro group _
      apply lift
      intro store' _
      exact finish_stmt false hp hs hn (by simp [Node.is_test]) (by simp) ⟨_, _, rfl⟩

end EvalRound

theorem Prompt.advance_round (env : EvalEnv) (ctx : EvalContext) (prompt : Prompt) :
    EvalRound env ctx prompt (prompt.advance env ctx) := by
  obtain ⟨frames, store⟩ := prompt
  cases frames
  case nil => exact .fault _
  case cons frame frames =>
    simp only [Prompt.advance]
    split
    case h_1 hp =>
      split
      · exact .fault _
      case isFalse hk => exact .terminal hp hk
    case h_2 id hp =>
      split
      case h_1 instruction expr_stack hs => exact .eval_instruction (by simp [hp]) hs
      case h_2 hs =>
        apply EvalRound.lift
        intro node hn
        exact .exec_stmt hp hs hn

end Reowolf
