import Reowolf.Protocol.Checked
import Reowolf.Protocol.ComponentState
import Reowolf.Protocol.PromptControl

namespace Reowolf

-- Whether control is in a synchronous statement, its end included.
def Control.in_sync : Control → Bool
  | (.endSync _, _) => true
  | (_, stack)      => stack.in_sync.isSome

variable {kind : DefinitionKind} {arena : Arena} {heap : Heap} {stack : ControlStack} {c : Control}

theorem ControlPoint.enter_in_sync (stack : ControlStack) : (stmt : Statement) →
    (label : Option Identifier) →
    Control.in_sync (.enter label stmt, stack) = stack.in_sync.isSome
  | .labeled _ label body, _ => ControlPoint.enter_in_sync stack body (some label)
  | .block _, _ | .memory .., _ | .channel .., _ | .if .., _ | .while .., _ | .break .., _
  | .continue .., _ | .synchronous .., _ | .return .., _ | .goto .., _ | .new .., _
  | .expression .., _ => rfl

theorem ControlStack.after_in_sync (stack : ControlStack) :
    stack.after.elim false Control.in_sync = stack.in_sync.isSome := by
  match stack with
  | [] | .block _ [] :: _ | .branch .. :: _ | .loop .. :: _ | .sync .. :: _ => rfl
  | .block body (stmt :: rest) :: stack =>
    exact ControlPoint.enter_in_sync (.block body rest :: stack) stmt none

theorem ControlStack.find_label_in_sync {label : Identifier} {next : Control}
    (h : stack.find_label label = some next) : next.in_sync = next.2.in_sync.isSome := by
  induction stack
  case nil => cases h
  case cons frame stack ih =>
    cases frame
    case block body rest =>
      simp only [ControlStack.find_label] at h
      split at h
      · cases h
        rfl
      · exact ih h
    case branch | loop | sync => exact ih h

-- Only primitive components have synchronous statements.
theorem ControlStack.Everywhere.primitive (h : stack.Everywhere (Statement.Checked kind))
    (hs : stack.in_sync.isSome) : kind = .primitive := by
  induction stack
  case nil => cases hs
  case cons frame stack ih =>
    cases frame
    case sync => exact h.1.2.1
    case block => exact ih h.2.2 hs
    case branch | loop => exact ih h.2 hs

theorem Control.Everywhere.primitive (h : c.Everywhere (Statement.Checked kind))
    (hs : c.in_sync) : kind = .primitive := by
  obtain ⟨point, stack⟩ := c
  cases point
  case endSync =>
    obtain ⟨_, _, hp⟩ := h.1
    exact hp.2.1
  all_goals exact h.2.primitive hs

-- The phase that a component is in after what it is told of a statement.
def EvalContinuation.in_sync (continuation : EvalContinuation) (before : Bool) : Bool :=
  match continuation with
  | .syncBlockStart => true
  | .syncBlockEnd   => false
  | _               => before

-- Executing a statement enters or leaves a synchronous statement just when the component is told so.
theorem Control.Everywhere.next_in_sync (hl : c.Everywhere (LinkedAt arena heap))
    (hc : c.Everywhere (Statement.Checked kind)) {start : StatementId} {outcome : Bool}
    {continuation : EvalContinuation} (hr : ∀ this e, c.node start ≠ .statement (.return this e))
    (hn : (c.node start).continues continuation) :
    (c.next outcome).elim false Control.in_sync = continuation.in_sync c.in_sync := by
  obtain ⟨point, stack⟩ := c
  cases point
  case endBlock | endIf | endWhile =>
    cases hn
    exact stack.after_in_sync
  case endSync end_sync =>
    cases hn
    obtain ⟨_, _, hp⟩ := hc.1
    rw [Control.next, stack.after_in_sync, hp.2.2]
    rfl
  case stmt label stmt =>
    have hlinked := (Statement.Everywhere.here hl.1).2
    cases stmt
    case memory | channel | expression =>
      cases hn
      exact stack.after_in_sync
    case new =>
      obtain ⟨_, _, hn⟩ := hn
      cases hn
      exact stack.after_in_sync
    case block body =>
      cases hn
      exact ControlStack.after_in_sync (.block body body.statements :: stack)
    case labeled | synchronous =>
      cases hn
      rfl
    case «if» _ _ _ false_body _ =>
      cases hn
      cases outcome <;> cases false_body <;> rfl
    case «while» =>
      cases hn
      cases outcome <;> rfl
    case «break» | «continue» =>
      cases hn
      obtain ⟨_, _, _, outer, hf, _, hi⟩ := hlinked
      simp only [Control.next, hf, Option.map_some, Option.elim_some, EvalContinuation.in_sync,
        Control.in_sync, hi]
    case goto =>
      cases hn
      obtain ⟨next, hf, _, hi⟩ := hlinked
      simp only [Control.next, hf, Option.elim_some, EvalContinuation.in_sync]
      rw [ControlStack.find_label_in_sync hf, hi]
      rfl
    case «return» => exact absurd rfl (hr _ _)

-- Where a component can be when it is told of a statement.
def EvalContinuation.ComesFrom (in_sync : Bool) (kind : DefinitionKind) : EvalContinuation → Prop
  | .stepping        => True
  | .syncBlockStart  => in_sync = false ∧ kind = .primitive
  | .syncBlockEnd    => in_sync = true ∧ kind = .primitive
  | .newComponent .. => kind = .composite
  | _                => False

theorem Control.Everywhere.continues_from (hc : c.Everywhere (Statement.Checked kind))
    {start : StatementId} {continuation : EvalContinuation}
    (hn : (c.node start).continues continuation) : continuation.ComesFrom c.in_sync kind := by
  obtain ⟨point, stack⟩ := c
  cases point
  case endBlock | endIf | endWhile =>
    cases hn
    trivial
  case endSync end_sync =>
    cases hn
    obtain ⟨_, _, hp⟩ := hc.1
    exact ⟨rfl, hp.2.1⟩
  case stmt label stmt =>
    have hs := (Statement.Everywhere.here hc.1).2
    cases stmt
    case synchronous =>
      cases hn
      exact ⟨by simp [Control.in_sync, hs.2], hs.1⟩
    case new =>
      obtain ⟨_, _, hn⟩ := hn
      cases hn
      exact hs
    all_goals
      cases hn
      trivial

-- A call of a function is a call of a definition that is a function.
def AcceptedProgram.CallsFunction (program : AcceptedProgram) (call : Method × DefinitionId) : Prop :=
  call.1 = .userFunction →
    ∀ definition ∈ program.definitions, definition.this = call.2 → definition.kind = .function

-- The parser takes a call for one of a function when its definition is a function.
structure ParsedProgram extends AcceptedProgram where
  functions : ∀ definition ∈ definitions, definition.body.Everywhere
    (fun _ stmt => ∀ call ∈ stmt.calls, toAcceptedProgram.CallsFunction call) []

-- An instruction that may be executed in a definition of the kind.
structure ExprInstruction.Permitted (program : AcceptedProgram) (kind : DefinitionKind)
    (in_sync : Bool) (instruction : ExprInstruction) : Prop where
  allowed   : instruction.calls.Allowed kind in_sync
  functions : ∀ call ∈ instruction.calls, program.CallsFunction call

-- A frame that runs a checked body, and has come to a point of it that is in a synchronous statement
-- or not.
structure Frame.Runs (program : AcceptedProgram) (env : EvalEnv) (frame : Frame)
    (in_sync : Bool) : Prop where
  control   : ∃ control, frame.At env control ∧ control.elim false Control.in_sync = in_sync ∧
    ∀ c, control = some c → c.Everywhere (Statement.Checked frame.definition.kind) ∧
      c.Everywhere fun _ stmt => ∀ call ∈ stmt.calls, program.CallsFunction call
  permitted : ∀ instruction ∈ frame.expr_stack,
    instruction.Permitted program frame.definition.kind in_sync

-- The outermost frame decides whether a component is in a synchronous block. The others run
-- functions.
def Frame.StackRuns (program : AcceptedProgram) (env : EvalEnv) (in_sync : Bool) :
    List Frame → Prop
  | []      => in_sync = false
  | [frame] => frame.Runs program env in_sync
  | frame :: caller :: frames =>
    frame.definition.kind = .function ∧ frame.Runs program env false ∧
      StackRuns program env in_sync (caller :: frames)

section

variable {program : AcceptedProgram} {env : EvalEnv} {in_sync : Bool} {frame frame' : Frame}
variable {frames : List Frame}

theorem ExprInstruction.Permitted.of_subset {in_sync : Bool}
    {instruction instruction' : ExprInstruction} (h : instruction.Permitted program kind in_sync)
    (hs : instruction'.calls ⊆ instruction.calls) :
    instruction'.Permitted program kind in_sync where
  allowed call hc   := h.allowed call (hs hc)
  functions call hc := h.functions call (hs hc)

theorem Frame.Runs.primitive (h : frame.Runs program env true) :
    frame.definition.kind = .primitive := by
  obtain ⟨control, _, hs, hc⟩ := h.control
  match control with
  | none   => cases hs
  | some c => exact (hc c rfl).1.primitive hs

-- The frame goes on with other values, and with some of its instructions and parts of these.
theorem Frame.Runs.replace (h : frame.Runs program env in_sync) (hp : frame'.position = frame.position)
    (hd : frame'.definition = frame.definition)
    (hs : ∀ instruction' ∈ frame'.expr_stack, ∃ instruction ∈ frame.expr_stack,
      instruction'.calls ⊆ instruction.calls) : frame'.Runs program env in_sync where
  control := by
    obtain ⟨control, hat, hi, hc⟩ := h.control
    exact ⟨control, hat.of_eq hp, hi, hd ▸ hc⟩
  permitted instruction' hm := by
    obtain ⟨instruction, hm, hsub⟩ := hs instruction' hm
    exact hd ▸ (h.permitted instruction hm).of_subset hsub

-- Some frame on top, that runs in the phase of the component if it is the outermost one.
theorem Frame.StackRuns.top (h : StackRuns program env in_sync (frame :: frames)) :
    ∃ top, frame.Runs program env top ∧
      (frames = [] ∧ top = in_sync ∨ frames ≠ [] ∧ top = false ∧ frame.definition.kind = .function) := by
  cases frames
  case nil => exact ⟨in_sync, h, .inl ⟨rfl, rfl⟩⟩
  case cons caller frames => exact ⟨false, h.2.1, .inr ⟨by simp, rfl, h.1⟩⟩

theorem Frame.StackRuns.replace (h : StackRuns program env in_sync (frame :: frames))
    (hd : frame'.definition = frame.definition)
    (hr : ∀ top, frame.Runs program env top → frame'.Runs program env top) :
    StackRuns program env in_sync (frame' :: frames) := by
  cases frames
  case nil => exact hr in_sync h
  case cons caller frames => exact ⟨hd ▸ h.1, hr false h.2.1, h.2.2⟩

-- What a statement needs evaluated is all that is put on the expression stack for it.
theorem prepare_position_calls (h : prepare_position env frame = .ok frame')
    (hs : frame.expr_stack = []) {instruction : ExprInstruction}
    (hi : instruction ∈ frame'.expr_stack) :
    ∃ id stmt, frame.position = some id ∧ env.node id = .ok (.statement stmt) ∧
      instruction.calls ⊆ stmt.calls := by
  simp only [prepare_position] at h
  split at h
  case h_1 =>
    cases h
    rw [hs] at hi
    cases hi
  case h_2 id hp =>
    simp only [Except.bind_eq_ok] at h
    obtain ⟨node, hn, h⟩ := h
    split at h
    case h_6 =>
      cases h
      rw [hs] at hi
      cases hi
    case h_4 =>
      cases h
      simp only [Frame.prepare_multiple_expressions, hs, List.append_nil, List.mem_reverse,
        List.mem_flatten] at hi
      obtain ⟨instructions, hm, hi⟩ := hi
      exact ⟨id, _, hp, hn, serialize_values_calls env.heap.names _ instructions hm instruction hi⟩
    all_goals
      cases h
      simp only [Frame.prepare_single_expression, Frame.serialize, hs, List.append_nil,
        List.mem_reverse] at hi
      exact ⟨id, _, hp, hn, serialize_expression_calls env.heap.names _ instruction hi⟩

theorem Control.Everywhere.calls_allowed (hc : c.Everywhere (Statement.Checked kind))
    {start : StatementId} {stmt : Statement} (hn : c.node start = .statement stmt) :
    stmt.calls.Allowed kind c.in_sync := by
  obtain ⟨point, stack⟩ := c
  cases point
  case stmt label stmt' =>
    cases hn
    exact (Statement.Everywhere.here hc.1).1
  all_goals cases hn

theorem Control.Everywhere.statement {P : ControlStack → Statement → Prop} (hc : c.Everywhere P)
    {start : StatementId} {stmt : Statement} (hn : c.node start = .statement stmt) :
    P c.2 stmt := by
  obtain ⟨point, stack⟩ := c
  cases point
  case stmt label stmt' =>
    cases hn
    exact Statement.Everywhere.here hc.1
  all_goals cases hn

-- Executing a statement.
theorem Frame.Runs.stmt {top : Bool} {id : StatementId} {node : Node} {outcome : Bool}
    {continuation : EvalContinuation} {next : Frame} (h : frame.Runs program env top)
    (hp : frame.position = some id) (hs : frame.expr_stack = []) (hn : env.node id = .ok node)
    (hr : ∀ this e, node ≠ .statement (.return this e)) (hcont : node.continues continuation)
    (hnext : prepare_position env { frame with
      position := env.heap.follow id node outcome, expr_values := [] } = .ok next) :
    next.Runs program env (continuation.in_sync top) ∧
      next.definition = frame.definition ∧ continuation.ComesFrom top frame.definition.kind := by
  obtain ⟨control, hat, hi, hc⟩ := h.control
  obtain ⟨c, start, hcontrol, hv, hnode, hlinked⟩ := hat.node hp hn
  subst hcontrol hv hnode
  obtain ⟨hchecked, hfunctions⟩ := hc c rfl
  simp only [Option.elim_some] at hi
  have hin : (c.next outcome).elim false Control.in_sync = continuation.in_sync c.in_sync :=
    hlinked.next_in_sync hchecked hr hcont
  have hdef : next.definition = frame.definition := (prepare_position_eq hnext).2
  have hat' := Frame.At.next hlinked hnext
  have hc' : ∀ c', c.next outcome = some c' →
      c'.Everywhere (Statement.Checked frame.definition.kind) ∧
      c'.Everywhere fun _ stmt => ∀ call ∈ stmt.calls, program.CallsFunction call :=
    fun c' hnext' => ⟨hchecked.next hnext', hfunctions.next hnext'⟩
  refine ⟨⟨⟨c.next outcome, hat', hi ▸ hin, hdef ▸ hc'⟩, ?_⟩, hdef, hi ▸ hchecked.continues_from hcont⟩
  intro instruction hm
  obtain ⟨id', stmt, hp', hn', hsub⟩ := prepare_position_calls hnext hs hm
  obtain ⟨c', start', hcontrol', hv', hnode', _⟩ := hat'.node ((prepare_position_eq hnext).1.trans hp') hn'
  obtain ⟨hchecked', hfunctions'⟩ := hc' c' hcontrol'
  have hin' : c'.in_sync = continuation.in_sync top := by
    rw [hcontrol', hi] at hin
    exact hin
  exact {
    allowed call hcall   := hdef ▸ hin' ▸ hchecked'.calls_allowed hnode'.symm call (hsub hcall)
    functions call hcall := hfunctions'.statement hnode'.symm call (hsub hcall) }

theorem Frame.Runs.new (program : ParsedProgram) {build : Build}
    {expr_data : DefinitionId → Nat → Nat → Option MonomorphExpression} {definition : Definition}
    (hd : definition ∈ program.definitions) (monomorph_idx : Nat) :
    (Frame.new program.heap definition monomorph_idx).Runs program.toAcceptedProgram
      (program.env build expr_data) false where
  control := by
    refine ⟨some (Control.start definition.body), ⟨rfl, ?_⟩, rfl, ?_⟩
    · intro c hc
      cases hc
      exact .start (program.linked hd)
    · intro c hc
      cases hc
      exact ⟨.start (visit_module_checked program.accepted definition hd),
        .start (program.functions definition hd)⟩
  permitted _ hi := by cases hi

theorem AcceptedProgram.definition_eq {build : Build}
    {expr_data : DefinitionId → Nat → Nat → Option MonomorphExpression} {id : DefinitionId}
    {definition : Definition} (h : (program.env build expr_data).definition id = .ok definition) :
    definition ∈ program.definitions ∧ definition.this = id := by
  simp only [EvalEnv.definition] at h
  split at h
  case h_2 => cases h
  case h_1 definition' hf =>
    cases h
    exact ⟨List.mem_of_find?_eq_some hf, by simpa using List.find?_some hf⟩

-- What the component is told of a round.
def Outcome.continuation : Outcome → EvalContinuation
  | more _              => .stepping
  | done continuation _ => continuation

-- When the component may be told so.
def EvalContinuation.Fits (ctx : EvalContext) (in_sync : Bool) : EvalContinuation → Prop
  | .stepping | .inconsistent                    => True
  | .terminal | .syncBlockStart | .newComponent .. => in_sync = false
  | .syncBlockEnd                                => in_sync = true
  | continuation => ctx.is_sync ∧ ∃ method : Method, method.blocks continuation

end

section

variable {program : ParsedProgram} {build : Build} {in_sync : Bool}
variable {expr_data : DefinitionId → Nat → Nat → Option MonomorphExpression}
variable {ctx : EvalContext} {prompt : Prompt} {out : Outcome}

theorem Method.blocks_in_sync {method : Method} {continuation : EvalContinuation}
    (h : method.blocks continuation) (hs : ctx.is_sync) :
    continuation.in_sync in_sync = in_sync ∧ continuation.Fits ctx in_sync := by
  cases method <;> cases continuation <;> first | exact ⟨rfl, hs, _, h⟩ | cases h

theorem EvalContinuation.ComesFrom.fits {continuation : EvalContinuation} {kind : DefinitionKind}
    (h : continuation.ComesFrom in_sync kind) (hp : in_sync = true → kind = .primitive) :
    continuation.Fits ctx in_sync := by
  cases continuation
  case stepping => trivial
  case syncBlockStart | syncBlockEnd => exact h.1
  case newComponent =>
    cases in_sync
    case false => rfl
    case true => exact absurd ((hp rfl).symm.trans h) (by simp)
  all_goals cases h

-- Statements of a function are not told of.
theorem EvalContinuation.ComesFrom.stepping {continuation : EvalContinuation} {kind : DefinitionKind}
    (h : continuation.ComesFrom in_sync kind) (hk : kind = .function) : continuation = .stepping := by
  subst hk
  cases continuation
  case stepping => rfl
  case syncBlockStart | syncBlockEnd => cases h.2
  all_goals cases h

-- A round keeps the component in its phase or takes it to the one that it is told of.
theorem EvalRound.runs (hr : EvalRound (program.env build expr_data) ctx prompt (.ok out))
    (h : Frame.StackRuns program.toAcceptedProgram (program.env build expr_data) in_sync
      prompt.frames) :
    Frame.StackRuns program.toAcceptedProgram (program.env build expr_data)
      (out.continuation.in_sync in_sync) out.prompt.frames ∧
    out.continuation.Fits ctx in_sync := by
  cases hr
  case terminal frame frames store hp hk =>
    obtain ⟨top, ht, htop⟩ := h.top
    obtain ⟨control, hat, hi, _⟩ := ht.control
    have hnone : control = none := Option.map_eq_none_iff.mp (hat.position.symm.trans hp)
    subst hnone
    cases htop
    case inl htop => exact ⟨h, htop.2 ▸ hi.symm⟩
    case inr htop => exact absurd htop.2.2 hk
  case expr frame frames store instruction expr_stack expr_values store' hp hs =>
    refine ⟨h.replace rfl fun top ht => ht.replace rfl rfl ?_, trivial⟩
    intro instruction' hm
    exact ⟨instruction', hs ▸ List.mem_cons_of_mem _ hm, List.Subset.refl _⟩
  case branch frame frames store this test t f expr_stack next expr_values store' hp hs hnext =>
    refine ⟨h.replace rfl fun top ht => ht.replace rfl rfl ?_, trivial⟩
    intro instruction' hm
    cases List.mem_append.mp hm
    case inr hm => exact ⟨instruction', hs ▸ List.mem_cons_of_mem _ hm, List.Subset.refl _⟩
    case inl hm =>
      refine ⟨.evalExpr (.conditional this test t f), by simp [hs], ?_⟩
      apply List.Subset.trans (serialize_expression_calls _ next instruction' (List.mem_reverse.mp hm))
      simp only [ExprInstruction.calls, Expression.calls]
      apply List.subset_append_of_subset_right
      cases hnext
      case inl hnext => exact hnext ▸ List.subset_append_left _ _
      case inr hnext => exact hnext ▸ List.subset_append_right _ _
  case inconsistent frame frames store this arguments definition expr_stack expr_values hp hs =>
    refine ⟨h.replace rfl fun top ht => ht.replace rfl rfl ?_, trivial⟩
    intro instruction' hm
    exact ⟨instruction', hs ▸ List.mem_cons_of_mem _ hm, List.Subset.refl _⟩
  case block frame frames store this method arguments definition expr_stack continuation expr_values
      hp hs hc hb =>
    obtain ⟨hin, hfits⟩ : continuation.in_sync in_sync = in_sync ∧ continuation.Fits ctx in_sync :=
      Method.blocks_in_sync hb hc
    simp only [Outcome.continuation, hin]
    refine ⟨h.replace rfl fun top ht => ht.replace rfl rfl ?_, hfits⟩
    exact fun instruction' hm => ⟨instruction', hm, List.Subset.refl _⟩
  case call frame frames store this arguments id expr_stack definition monomorph_idx expr_values store'
      hp hs hd =>
    obtain ⟨hmem, hthis⟩ := AcceptedProgram.definition_eq hd
    obtain ⟨top, ht, _⟩ := h.top
    have hcalls := (ht.permitted (.evalExpr _) (by rw [hs]; exact List.mem_cons_self ..)).functions
      (.userFunction, id) (by simp [ExprInstruction.calls, Expression.calls])
    refine ⟨⟨hcalls rfl definition hmem hthis, .new program hmem monomorph_idx, ?_⟩, trivial⟩
    refine h.replace rfl fun top ht => ht.replace rfl rfl ?_
    intro instruction' hm
    exact ⟨instruction', hs ▸ List.mem_cons_of_mem _ hm, List.Subset.refl _⟩
  case stmt frame frames store id node outcome continuation next store' hp hs hn ht hret hc hnext =>
    obtain ⟨top, hruns, htop⟩ := h.top
    obtain ⟨hnext', hdef, hcomes⟩ := hruns.stmt hp hs hn hret hc hnext
    cases frames
    case nil =>
      have htop : top = in_sync := by simpa using htop
      subst htop
      exact ⟨hnext', hcomes.fits fun hin => (hin ▸ hruns).primitive⟩
    case cons caller frames =>
      obtain ⟨htop, hkind⟩ : top = false ∧ frame.definition.kind = .function := by simpa using htop
      have hstepping := hcomes.stepping hkind
      subst hstepping htop
      exact ⟨⟨hdef ▸ hkind, hnext', h.2.2⟩, trivial⟩
  case «return» frame caller frames store id this e expr_values store' hp hs hn =>
    refine ⟨h.2.2.replace rfl fun top ht => ht.replace rfl rfl ?_, trivial⟩
    exact fun instruction' hm => ⟨instruction', hm, List.Subset.refl _⟩
  case leave frame store id this e store' hp hs hn =>
    have hruns : frame.Runs program.toAcceptedProgram (program.env build expr_data) in_sync := h
    obtain ⟨control, hat, _, hc⟩ := hruns.control
    obtain ⟨c, start, hcontrol, _, hnode, _⟩ := hat.node hp hn
    have hkind := ((hc c hcontrol).1.statement hnode.symm).2
    have hin : in_sync = false := by
      cases in_sync
      case false => rfl
      case true => exact absurd (hkind.symm.trans hruns.primitive) (by simp)
    exact ⟨hin, hin⟩

-- The next thing that the prompt does is to create a channel.
def Prompt.AtChannel (env : EvalEnv) (prompt : Prompt) : Prop :=
  ∃ frame frames id this from_id to_id, prompt.frames = frame :: frames ∧
    frame.position = some id ∧ frame.expr_stack = [] ∧
    env.node id = .ok (.statement (.channel this from_id to_id))

-- The next thing that the prompt does is a get, put or fires of a value that is not such a port.
def Prompt.MisusesPort (prompt : Prompt) : Prop :=
  ∃ frame frames this method arguments definition expr_stack port, prompt.frames = frame :: frames ∧
    frame.position.isSome ∧
    frame.expr_stack = .evalExpr (.call this method arguments definition) :: expr_stack ∧
    method.on_port ∧ method.port frame.expr_values prompt.store = .ok port ∧ ¬method.accepts port

theorem Prompt.AtChannel.advance {env : EvalEnv} (h : prompt.AtChannel env) (hs : ctx.is_sync) :
    prompt.advance env ctx = .error .phase := by
  obtain ⟨frame, frames, id, this, from_id, to_id, hf, hp, he, hn⟩ := h
  obtain ⟨frames', store⟩ := prompt
  subst hf
  simp only [Prompt.advance, hp, he, hn]
  cases ctx
  case sync => rfl
  all_goals cases hs

theorem Prompt.MisusesPort.advance {env : EvalEnv} (h : prompt.MisusesPort) (hs : ctx.is_sync) :
    prompt.advance env ctx = .error .port := by
  obtain ⟨frame, frames, this, method, arguments, definition, expr_stack, port, hf, hp, he, hm, hport, ha⟩ := h
  obtain ⟨frames', store⟩ := prompt
  subst hf
  obtain ⟨position, hp⟩ := Option.isSome_iff_exists.mp hp
  simp only [Prompt.advance, hp, he, eval_instruction, eval_expr]
  simp only [Method.port, Except.bind_eq_ok] at hport
  obtain ⟨⟨port_value, values⟩, hpop, port', hread, hport⟩ := hport
  cases ctx
  case none | nonsync => cases hs
  case sync is_firing read_msg did_put_or_get =>
    cases method
    case get =>
      cases hport
      simp only [eval_call, eval_get, hpop, lift_ok, ok_bind, hread]
      cases port
      case input => exact absurd rfl ha
      all_goals rfl
    case fires =>
      cases hport
      simp only [eval_call, eval_fires, hpop, lift_ok, ok_bind, hread]
      cases port
      case input | output => exact absurd rfl ha
      all_goals rfl
    case put =>
      simp only [if_true, Except.bind_eq_ok] at hport
      obtain ⟨⟨msg_value, values'⟩, hpop', msg, hread', hport⟩ := hport
      cases msg
      case message =>
        cases hport
        simp only [eval_call, eval_put, hpop, hpop', lift_ok, ok_bind, hread, hread']
        cases port
        case output => exact absurd rfl ha
        all_goals rfl
      all_goals cases hport
    all_goals cases hm

-- A method about ports is only called in a synchronous block.
theorem Frame.StackRuns.on_port {env : EvalEnv} {frame : Frame} {frames : List Frame}
    {this : ExpressionId} {method : Method} {arguments : List Expression} {definition : DefinitionId}
    {expr_stack : List ExprInstruction}
    (h : StackRuns program.toAcceptedProgram env in_sync (frame :: frames))
    (hs : frame.expr_stack = .evalExpr (.call this method arguments definition) :: expr_stack)
    (hm : method.on_port) : in_sync = true := by
  obtain ⟨top, ht, htop⟩ := h.top
  have hp := ht.permitted (.evalExpr (.call this method arguments definition))
    (by rw [hs]; exact List.mem_cons_self ..)
  have ha := hp.allowed (method, definition) (by simp [ExprInstruction.calls, Expression.calls])
  have htrue : top = true := by
    cases method
    case get | put | fires => exact ha.2
    all_goals cases hm
  cases htop
  case inl htop => exact htop.2 ▸ htrue
  case inr htop => exact absurd htrue (by simp [htop.2.1])

theorem nonsync_turn_fault {env : EvalEnv} {continuation : EvalContinuation} {panic : Panic}
    {new_port_pair : PortId × PortId} (h : continuation.Fits (.nonsync new_port_pair) false)
    (ht : nonsync_turn env continuation = .error panic) : ∃ fault, panic = .fault fault := by
  cases continuation
  case syncBlockEnd => cases h
  case blockFires | blockGet | put => cases h.1
  case newComponent definition monomorph_idx args =>
    simp only [nonsync_turn, bind_eq_error, lift_eq_error, lift_eq_ok, reduceCtorEq, exists_false,
      and_false, or_false] at ht
    cases ht
    case inl ht =>
      obtain ⟨fault, _, hf⟩ := ht
      exact ⟨fault, hf⟩
    case inr ht =>
      obtain ⟨_, _, fault, _, hf⟩ := ht
      exact ⟨fault, hf⟩
  all_goals cases ht

theorem sync_turn_fault {continuation : EvalContinuation} {panic : Panic} {store : Store}
    (h : continuation.Fits ctx true) (ht : sync_turn store continuation = .error panic) :
    ∃ fault, panic = .fault fault := by
  cases continuation
  case terminal | syncBlockStart | newComponent => cases h
  case blockFires port | blockGet port =>
    obtain ⟨_, method, hb⟩ := h
    cases method <;> first
      | (cases hb; done)
      | cases port <;> first | (cases hb; done) | cases ht
  case put port message =>
    obtain ⟨_, method, hb⟩ := h
    cases method
    case put =>
      obtain ⟨ha, pos, hm⟩ := hb
      subst hm
      cases port
      case output id =>
        simp only [sync_turn, Value.port, ok_bind, bind_eq_error, lift_eq_error, lift_eq_ok,
          reduceCtorEq, exists_false, and_false, or_false] at ht
        cases ht
        case inl ht =>
          obtain ⟨fault, _, hf⟩ := ht
          exact ⟨fault, hf⟩
        case inr ht =>
          obtain ⟨_, _, fault, _, hf⟩ := ht
          exact ⟨fault, hf⟩
      all_goals cases ha
    all_goals cases hb
  all_goals cases ht

end

namespace RunningComponent

def Runs (program : AcceptedProgram) (env : EvalEnv) (c : RunningComponent) : Prop :=
  Frame.StackRuns program env (decide (c.phase = .sync)) c.prompt.frames

variable {program : ParsedProgram} {build : Build}
variable {expr_data : DefinitionId → Nat → Nat → Option MonomorphExpression}
variable {c c' : RunningComponent} {prompt prompt' : Prompt}

theorem Runs.nonsync_round {new_port_pair : PortId × PortId} {turn : NonsyncTurn}
    (h : Runs program.toAcceptedProgram (program.env build expr_data) ⟨.nonsync, prompt⟩)
    (hr : Reowolf.nonsync_round (program.env build expr_data) new_port_pair prompt =
      .ok (turn, prompt')) :
    match turn with
    | .block .syncBlockStart =>
      Runs program.toAcceptedProgram (program.env build expr_data) ⟨.sync, prompt'⟩
    | _ => Runs program.toAcceptedProgram (program.env build expr_data) ⟨.nonsync, prompt'⟩ := by
  simp only [Reowolf.nonsync_round, Except.bind_eq_ok] at hr
  obtain ⟨out, ha, hr⟩ := hr
  have hround := prompt.advance_round (program.env build expr_data) (.nonsync new_port_pair)
  rw [ha] at hround
  obtain ⟨hruns, hfits⟩ := hround.runs h
  cases out
  case more next =>
    cases hr
    exact hruns
  case done continuation next =>
    simp only [Except.bind_eq_ok] at hr
    obtain ⟨turn', ht, hr⟩ := hr
    cases hr
    cases continuation
    case syncBlockEnd | blockFires | blockGet | put => cases ht
    case newComponent =>
      simp only [nonsync_turn, Except.bind_eq_ok] at ht
      obtain ⟨_, _, _, _, ht⟩ := ht
      cases ht
      exact hruns
    all_goals
      cases ht
      exact hruns

theorem Runs.sync_round {is_firing : PortId → Option Bool} {read_msg : PortId → Option Payload}
    {did_put_or_get : PortId → Bool} {blocker : Option SyncBlocker}
    (h : Runs program.toAcceptedProgram (program.env build expr_data) ⟨.sync, prompt⟩)
    (hr : Reowolf.sync_round (program.env build expr_data) is_firing read_msg did_put_or_get prompt =
      .ok (blocker, prompt')) :
    if blocker = some .syncBlockEnd then
      Runs program.toAcceptedProgram (program.env build expr_data) ⟨.nonsync, prompt'⟩
    else Runs program.toAcceptedProgram (program.env build expr_data) ⟨.sync, prompt'⟩ := by
  simp only [Reowolf.sync_round, Except.bind_eq_ok] at hr
  obtain ⟨out, ha, hr⟩ := hr
  have hround := prompt.advance_round (program.env build expr_data)
    (.sync is_firing read_msg did_put_or_get)
  rw [ha] at hround
  obtain ⟨hruns, hfits⟩ := hround.runs h
  cases out
  case more next =>
    cases hr
    exact hruns
  case done continuation next =>
    simp only [Except.bind_eq_ok] at hr
    obtain ⟨blocker', ht, hr⟩ := hr
    cases hr
    cases continuation
    case stepping | inconsistent | syncBlockEnd =>
      cases ht
      exact hruns
    case terminal | syncBlockStart | newComponent => cases ht
    case blockFires | blockGet =>
      simp only [sync_turn, Except.bind_eq_ok] at ht
      obtain ⟨_, _, ht⟩ := ht
      cases ht
      exact hruns
    case put port message =>
      simp only [sync_turn, Except.bind_eq_ok] at ht
      obtain ⟨_, _, ht⟩ := ht
      cases message
      case null =>
        cases ht
        exact hruns
      case message =>
        simp only [Except.bind_eq_ok] at ht
        obtain ⟨_, _, _, _, ht⟩ := ht
        cases ht
        exact hruns
      all_goals cases ht

theorem Runs.step (h : c.Runs program.toAcceptedProgram (program.env build expr_data))
    (hs : Step (program.env build expr_data) c c') :
    c'.Runs program.toAcceptedProgram (program.env build expr_data) := by
  cases hs
  case resume hr | newComponent hr | syncBlockStart hr => exact h.nonsync_round hr
  case sync hr _ hne =>
    have hruns := h.sync_round hr
    rwa [if_neg hne] at hruns
  case syncBlockEnd hr => exact h.sync_round hr

theorem Runs.steps (h : c.Runs program.toAcceptedProgram (program.env build expr_data))
    (hs : Relation.ReflTransGen (Step (program.env build expr_data)) c c') :
    c'.Runs program.toAcceptedProgram (program.env build expr_data) := by
  induction hs
  case refl => exact h
  case tail _ hs ih => exact ih.step hs

-- What reaches an `unreachable!()`.
theorem Runs.unreachable_iff (h : c.Runs program.toAcceptedProgram (program.env build expr_data)) :
    c.Unreachable (program.env build expr_data) ↔
      c.phase = .sync ∧
        (c.prompt.AtChannel (program.env build expr_data) ∨ c.prompt.MisusesPort) := by
  obtain ⟨phase, prompt⟩ := c
  cases phase
  case nonsync =>
    simp only [reduceCtorEq, false_and, iff_false]
    rintro ⟨new_port_pair, panic, hp, he⟩
    have hround := prompt.advance_round (program.env build expr_data) (.nonsync new_port_pair)
    simp only [Reowolf.nonsync_round, bind_eq_error] at he
    cases he
    case inl he =>
      rw [he] at hround
      cases hround
      case fault => simp at hp
      case phase_call hs hm _ => cases Frame.StackRuns.on_port h hs hm
      case phase_channel hn => exact hn rfl
      case port hs _ _ => cases hs
    case inr he =>
      obtain ⟨out, ha, he⟩ := he
      rw [ha] at hround
      obtain ⟨_, hfits⟩ := hround.runs h
      cases out
      case more => cases he
      case done continuation next =>
        simp only [bind_eq_error, reduceCtorEq, and_false, exists_false, or_false] at he
        obtain ⟨fault, hf⟩ := nonsync_turn_fault hfits he
        simp [hf] at hp
  case sync =>
    simp only [true_and]
    constructor
    · rintro ⟨is_firing, read_msg, did_put_or_get, panic, hp, he⟩
      have hround := prompt.advance_round (program.env build expr_data)
        (.sync is_firing read_msg did_put_or_get)
      simp only [Reowolf.sync_round, bind_eq_error] at he
      cases he
      case inl he =>
        rw [he] at hround
        cases hround
        case fault => simp at hp
        case phase_call hn => exact absurd rfl hn
        case phase_channel hpos hs hn _ => exact .inl ⟨_, _, _, _, _, _, rfl, hpos, hs, hn⟩
        case port hpos hs hm _ hport ha =>
          exact .inr ⟨_, _, _, _, _, _, _, _, rfl, hpos, hs, hm, hport, ha⟩
      case inr he =>
        obtain ⟨out, ha, he⟩ := he
        rw [ha] at hround
        obtain ⟨_, hfits⟩ := hround.runs h
        cases out
        case more => cases he
        case done continuation next =>
          simp only [bind_eq_error, reduceCtorEq, and_false, exists_false, or_false] at he
          obtain ⟨fault, hf⟩ := sync_turn_fault hfits he
          simp [hf] at hp
    · intro hc
      refine ⟨fun _ => none, fun _ => none, fun _ => false, ?_⟩
      cases hc
      case inl hc => exact ⟨.phase, by simp, bind_eq_error.mpr (.inl (hc.advance rfl))⟩
      case inr hc => exact ⟨.port, by simp, bind_eq_error.mpr (.inl (hc.advance rfl))⟩

end RunningComponent

-- In every run of a component the next round reaches no `unreachable!()`, unless a channel is created
-- in a synchronous block, or a get, put or fires is of a value that type inference excludes.
theorem ParsedProgram.phase_discipline_iff (program : ParsedProgram) (build : Build)
    (expr_data : DefinitionId → Nat → Nat → Option MonomorphExpression) {definition : Definition}
    (hd : definition ∈ program.definitions) {monomorph_idx : Nat} {args : ValueGroup}
    {prompt : Prompt} {c : RunningComponent}
    (hnew : Prompt.new program.heap definition monomorph_idx args = .ok prompt)
    (hs : Relation.ReflTransGen (RunningComponent.Step (program.env build expr_data))
      ⟨.nonsync, prompt⟩ c) :
    ¬c.Unreachable (program.env build expr_data) ↔
      (c.phase = .sync →
        ¬c.prompt.AtChannel (program.env build expr_data) ∧ ¬c.prompt.MisusesPort) := by
  have hruns : RunningComponent.Runs program.toAcceptedProgram (program.env build expr_data)
      ⟨.nonsync, prompt⟩ := by
    simp only [Prompt.new, Except.bind_eq_ok] at hnew
    obtain ⟨store, _, hnew⟩ := hnew
    cases hnew
    exact Frame.Runs.new program hd monomorph_idx
  rw [(hruns.steps hs).unreachable_iff, not_and, not_or]

-- `primitive p() { sync { channel<u32> o -> i; } }`.
def Definition.channel_in_sync : Definition where
  this       := 0
  kind       := .primitive
  parameters := []
  body       := ⟨0, [.synchronous 1 ⟨2, [.channel 3 0 1], 4⟩ 5], 6⟩

def ParsedProgram.channel_in_sync : ParsedProgram where
  ctx         := .of_component
  definitions := [.channel_in_sync]
  names       := .parsed [⟨"o", 0, 0⟩, ⟨"i", 0, 0⟩]
  heap        := (visit_module .of_component [.channel_in_sync]
    (.parsed (.parsed [⟨"o", 0, 0⟩, ⟨"i", 0, 0⟩]))).toOption.getD (.parsed (.parsed []))
  nodup       := by decide
  accepted    := rfl
  functions   := by
    simp [Definition.channel_in_sync, BlockOf.Everywhere, Statement.ListEverywhere,
      Statement.Everywhere, Statement.calls]

def EvalEnv.channel_in_sync : EvalEnv :=
  ParsedProgram.channel_in_sync.env ⟨false, 0⟩ fun _ _ _ => none

-- The component before the statement with the number.
def Prompt.channel_in_sync (id : StatementId) : Prompt where
  frames := [{ Frame.new ParsedProgram.channel_in_sync.heap .channel_in_sync 0 with position := some id }]
  store  := Store.new.reserve_stack 2

theorem ParsedProgram.channel_in_sync_run :
    Relation.ReflTransGen (RunningComponent.Step .channel_in_sync)
      ⟨.nonsync, .channel_in_sync 0⟩ ⟨.sync, .channel_in_sync 3⟩ := by
  have h₁ : nonsync_round .channel_in_sync (⟨0, 0⟩, ⟨0, 1⟩) (.channel_in_sync 0) =
    .ok (.resume, .channel_in_sync 1) := rfl
  have h₂ : nonsync_round .channel_in_sync (⟨0, 0⟩, ⟨0, 1⟩) (.channel_in_sync 1) =
    .ok (.block .syncBlockStart, .channel_in_sync 2) := rfl
  have h₃ : sync_round .channel_in_sync (fun _ => none) (fun _ => none) (fun _ => false)
    (.channel_in_sync 2) = .ok (none, .channel_in_sync 3) := rfl
  exact .head (.resume h₁) (.head (.syncBlockStart h₂) (.single (.sync h₃ (by simp) (by simp))))

-- The channel is created in the synchronous block, where that is held to be unreachable.
theorem ParsedProgram.channel_in_sync_unreachable : ∃ prompt c,
    Prompt.new channel_in_sync.heap .channel_in_sync 0 (.new_stack []) = .ok prompt ∧
    Relation.ReflTransGen (RunningComponent.Step .channel_in_sync) ⟨.nonsync, prompt⟩ c ∧
    c.Unreachable .channel_in_sync :=
  ⟨_, _, rfl, channel_in_sync_run, fun _ => none, fun _ => none, fun _ => false, .phase, by simp, rfl⟩

theorem ParsedProgram.phase_discipline_channel_in_sync :
    ¬(⟨.nonsync, .channel_in_sync 0⟩ : RunningComponent).Unreachable .channel_in_sync :=
  (phase_discipline_iff .channel_in_sync ⟨false, 0⟩ (fun _ _ _ => none) (List.mem_singleton_self _)
    (rfl : Prompt.new channel_in_sync.heap .channel_in_sync 0 (.new_stack []) =
      .ok (.channel_in_sync 0)) .refl).mpr fun h => by cases h

end Reowolf
