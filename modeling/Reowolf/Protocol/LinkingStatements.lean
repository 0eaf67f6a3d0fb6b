import Reowolf.Protocol.Linking

namespace Reowolf

-- The parts of the arena that the pass writes.
structure Heap where
  next                     : StatementId → Option StatementId
  target                   : StatementId → Option StatementId -- of break, continue and goto
  while_in_sync            : StatementId → Option StatementId
  labels                   : StatementId → List LabeledStatement
  first_unique_id_in_scope : StatementId → Nat
  next_unique_id_in_scope  : StatementId → Nat
  num_expressions_in_body  : DefinitionId → Nat
  names                    : Names

-- The state that trails the traversal: the statement whose `next` is still to be linked.
structure LinkState extends Heap where
  prev_stmt : Option StatementId

namespace LinkState

def link_next (σ : LinkState) (stmt next : StatementId) : LinkState :=
  { σ with next := Function.update σ.next stmt (some next) }

def assign_then_erase_next_stmt (σ : LinkState) (stmt : StatementId) : LinkState :=
  match σ.prev_stmt with
  | none      => σ
  | some prev => { σ.link_next prev stmt with prev_stmt := none }

def assign_and_replace_next_stmt (σ : LinkState) (stmt : StatementId) : LinkState :=
  match σ.prev_stmt with
  | none      => { σ with prev_stmt := some stmt }
  | some prev => { σ.link_next prev stmt with prev_stmt := some stmt }

def set_target (σ : LinkState) (stmt target : StatementId) : LinkState :=
  { σ with target := Function.update σ.target stmt (some target) }

end LinkState

-- A label must be the only one with its name in its block and the blocks around it.
def checked_add_label (t : Traversal) (relative_pos : Nat) (this : StatementId) (label : Identifier)
    (body : Statement) (σ : LinkState) : Except LinkError LinkState :=
  if ∃ scope ∈ t.cur_scope, ∃ other ∈ σ.labels scope.block, other.label = label then
    .error (.parseError "label name is used more than once" ["the other label is found here"])
  else
    match t.cur_scope with
    | [] => .error .unreachable
    | scope :: _ =>
      .ok { σ with
        labels := Function.update σ.labels scope.block
          (σ.labels scope.block ++ [⟨this, label, body, relative_pos, t.in_sync⟩]) }

-- Finds the label in the scopes, innermost first. In the block of the label there may be no local
-- that lies before the label but after the position of that block in its own parent.
def find_label (σ : LinkState) (identifier : Identifier) :
    List Scope → Except LinkError LabeledStatement
  | [] => .error (.parseError "could not find this label" [])
  | scope :: scopes =>
    match (σ.labels scope.block).find? (·.label = identifier) with
    | none => find_label σ identifier scopes
    | some label =>
      if ∃ id ∈ σ.names.locals scope.block,
          scope.relative_pos_in_parent < (σ.names.get id).relative_pos_in_block ∧
          (σ.names.get id).relative_pos_in_block < label.relative_pos_in_block then
        .error (.parseError "this target label skips over a variable declaration"
          ["because it jumps to this label", "which skips over this variable"])
      else .ok label

def has_parent_while_scope (t : Traversal) (while_stmt : WhileStatement) : Prop :=
  ∃ scope ∈ t.cur_scope, scope.block = while_stmt.body

instance (t while_stmt) : Decidable (has_parent_while_scope t while_stmt) :=
  inferInstanceAs (Decidable (∃ scope ∈ t.cur_scope, _))

def find_while (t : Traversal) (σ : LinkState) : Option Identifier → Except LinkError WhileStatement
  | some identifier => do
    let target ← find_label σ identifier t.cur_scope
    match target.body with
    | .while this _ body end_while =>
      if has_parent_while_scope t ⟨this, body.this, end_while⟩ then
        .ok ⟨this, body.this, end_while⟩
      else .error (.parseError
        "break statement is not nested under the target label's while statement"
        ["the targeted label is found here"])
    | _ => .error (.parseError "incorrect break target label, it must target a while loop"
        ["The targeted label is found here"])
  | none =>
    match t.in_while with
    | none => .error (.parseError "Break statement is not nested under a while loop" [])
    | some while_stmt => .ok while_stmt

def resolve_break_or_continue_target (t : Traversal) (σ : LinkState) (label : Option Identifier) :
    Except LinkError WhileStatement := do
  let target ← find_while t σ label
  if σ.while_in_sync target.this ≠ t.in_sync then
    .error (.parseError "break may not escape the surrounding synchronous block"
      ["the break escapes out of this loop", "And would therefore escape this synchronous block"])
  else .ok target

def add_local_to_state (ctx : LinkCtx) (t : Traversal) (relative_pos : Nat) (id : VariableId)
    (σ : LinkState) : Except LinkError LinkState := do
  let names ← checked_add_local ctx t relative_pos id σ.names
  .ok { σ with names }

def visit_statement_for_locals_labels_and_in_sync (ctx : LinkCtx) (t : Traversal)
    (relative_pos : Nat) : Statement → LinkState → Except LinkError LinkState
  | .memory _ «variable», σ => add_local_to_state ctx t relative_pos «variable» σ
  | .channel _ from_id to_id, σ => do
    let σ ← add_local_to_state ctx t relative_pos from_id σ
    add_local_to_state ctx t relative_pos to_id σ
  | .labeled this label body, σ => do
    let σ ← checked_add_label t relative_pos this label body σ
    visit_statement_for_locals_labels_and_in_sync ctx t relative_pos body σ
  | .while this .., σ =>
    .ok { σ with while_in_sync := Function.update σ.while_in_sync this t.in_sync }
  | _, σ => .ok σ

-- The breadth-first pass over the statements of a block.
def visit_statements_for_locals_labels_and_in_sync (ctx : LinkCtx) (t : Traversal) (pos : Nat) :
    List Statement → LinkState → Except LinkError LinkState
  | [], σ => .ok σ
  | stmt :: stmts, σ => do
    let σ ← visit_statement_for_locals_labels_and_in_sync ctx t pos stmt σ
    visit_statements_for_locals_labels_and_in_sync ctx t (pos + stmt.width) stmts σ

def visit_expr_in_state (ctx : LinkCtx) (t : Traversal) (expr : Expression) (σ : LinkState) :
    Except LinkError LinkState := do
  let names ← visit_expr ctx t expr σ.names
  .ok { σ with names }

-- The state inside of a block.
def Traversal.enter (t : Traversal) (block : BlockStatement) : Traversal :=
  { t with cur_scope := ⟨block.this, t.relative_pos_in_block⟩ :: t.cur_scope }

mutual

def visit_stmt (ctx : LinkCtx) (t : Traversal) :
    Statement → LinkState → Except LinkError LinkState
  | .block body, σ => visit_block_stmt ctx t body σ
  | .memory this _, σ | .channel this _ _, σ => .ok (σ.assign_and_replace_next_stmt this)
  | .labeled _ _ body, σ => visit_stmt ctx t body σ
  | .if this test true_body false_body end_if, σ => do
    let σ ← visit_expr_in_state ctx
      { t with in_test_expr := some true_body.this, expr_parent := .if this } test σ
    let σ := σ.assign_then_erase_next_stmt this
    let σ ← visit_block_stmt ctx t true_body σ
    let σ := σ.assign_then_erase_next_stmt end_if
    let σ ← visit_false_body ctx t end_if false_body σ
    .ok { σ with prev_stmt := some end_if }
  | .while this test body end_while, σ => do
    let t := { t with in_while := some ⟨this, body.this, end_while⟩ }
    let σ ← visit_expr_in_state ctx
      { t with in_test_expr := some body.this, expr_parent := .while this } test σ
    let σ := σ.assign_then_erase_next_stmt this
    let σ ← visit_block_stmt ctx t body σ
    let σ := σ.assign_then_erase_next_stmt this
    .ok { σ with prev_stmt := some end_while }
  | .break this label, σ => do
    let target ← resolve_break_or_continue_target t σ label
    .ok ((σ.assign_then_erase_next_stmt this).set_target this target.end_while)
  | .continue this label, σ => do
    let target ← resolve_break_or_continue_target t σ label
    .ok ((σ.assign_then_erase_next_stmt this).set_target this target.this)
  | .synchronous this body end_sync, σ =>
    if t.in_sync.isSome then
      .error (.parseError "Illegal nested synchronous statement"
        ["It is nested in this synchronous statement"])
    else if ¬t.is_primitive then
      .error (.parseError "synchronous statements may only be used in primitive components" [])
    else do
      let σ := σ.assign_then_erase_next_stmt this
      let σ ← visit_block_stmt ctx { t with in_sync := some this } body σ
      .ok (σ.assign_and_replace_next_stmt end_sync)
  | .return this expression, σ =>
    if ¬t.is_function then
      .error (.parseError "return statements may only appear in function bodies" [])
    else
      visit_expr_in_state ctx { t with expr_parent := .return this } expression
        (σ.assign_then_erase_next_stmt this)
  | .goto this label, σ => do
    let target ← find_label σ label t.cur_scope
    let σ := σ.set_target this target.this
    if t.in_sync ≠ target.in_sync then
      .error (.parseError "goto may not escape the surrounding synchronous block"
        ["this is the target of the goto statement", "which will jump past this statement"])
    else .ok (σ.assign_then_erase_next_stmt this)
  | .new this call method arguments definition, σ =>
    if ¬t.is_composite then
      .error (.parseError "instantiating components may only be done in composite components" [])
    else do
      let σ := σ.assign_and_replace_next_stmt this
      let names ← visit_call_expr ctx { t with expr_parent := .new this } call method arguments
        definition σ.names
      .ok { σ with names }
  | .expression this expression, σ =>
    visit_expr_in_state ctx { t with expr_parent := .expressionStmt this } expression
      (σ.assign_and_replace_next_stmt this)

def visit_block_stmt (ctx : LinkCtx) (t : Traversal) :
    BlockStatement → LinkState → Except LinkError LinkState
  | ⟨this, statements, end_block⟩, σ => do
    let t := t.enter ⟨this, statements, end_block⟩
    let σ ← visit_statements_for_locals_labels_and_in_sync ctx t 0 statements σ
    let σ := σ.assign_and_replace_next_stmt this
    let σ ← visit_stmts ctx t 0 statements σ
    .ok (σ.assign_and_replace_next_stmt end_block)

-- The depth-first pass over the statements of a block.
def visit_stmts (ctx : LinkCtx) (t : Traversal) (pos : Nat) :
    List Statement → LinkState → Except LinkError LinkState
  | [], σ => .ok σ
  | stmt :: stmts, σ => do
    let σ ← visit_stmt ctx { t with relative_pos_in_block := pos } stmt σ
    visit_stmts ctx t (pos + stmt.width) stmts σ

def visit_false_body (ctx : LinkCtx) (t : Traversal) (end_if : StatementId) :
    Option BlockStatement → LinkState → Except LinkError LinkState
  | none, σ => .ok σ
  | some body, σ => do
    let σ ← visit_block_stmt ctx t body σ
    .ok (σ.assign_then_erase_next_stmt end_if)

end

-- The variables of a block that still have no unique id, while the block is being walked.
structure LocalIds where
  remaining   : List VariableId
  var_counter : Nat
  heap        : Heap

def Heap.set_unique_id (heap : Heap) (id : VariableId) (unique_id : Nat) : Heap :=
  { heap with names := { heap.names with
      arena := heap.names.arena.modify id ({ · with unique_id_in_scope := unique_id }) } }

-- Gives unique ids to the next variables, as long as they are not declared after the position.
def LocalIds.assign (before : Nat → Prop) [DecidablePred before] :
    List VariableId → Nat → Heap → LocalIds
  | [], var_counter, heap => ⟨[], var_counter, heap⟩
  | id :: ids, var_counter, heap =>
    if before (heap.names.get id).relative_pos_in_block then
      LocalIds.assign before ids (var_counter + 1) (heap.set_unique_id id var_counter)
    else ⟨id :: ids, var_counter, heap⟩

def LocalIds.assign_until (ids : LocalIds) (pos : Nat) : LocalIds :=
  assign (· ≤ pos) ids.remaining ids.var_counter ids.heap

def LocalIds.assign_all (ids : LocalIds) : LocalIds :=
  assign (fun _ => True) ids.remaining ids.var_counter ids.heap

mutual

-- The nested scopes of a block are its nested blocks, in the order of the traversal.
def visit_stmt_and_assign_local_ids (pos : Nat) : Statement → LocalIds → LocalIds
  | .block body, ids | .while _ _ body _, ids | .synchronous _ body _, ids =>
    let ids := ids.assign_until pos
    { ids with heap := visit_block_and_assign_local_ids body ids.var_counter ids.heap }
  | .if _ _ true_body false_body _, ids =>
    let ids := ids.assign_until pos
    let ids := { ids with heap := visit_block_and_assign_local_ids true_body ids.var_counter ids.heap }
    visit_false_body_and_assign_local_ids pos false_body ids
  | .labeled _ _ body, ids => visit_stmt_and_assign_local_ids pos body ids
  | _, ids => ids

def visit_block_and_assign_local_ids : BlockStatement → Nat → Heap → Heap
  | ⟨this, statements, _⟩, var_counter, heap =>
    let heap := { heap with
      first_unique_id_in_scope := Function.update heap.first_unique_id_in_scope this var_counter }
    let ids := visit_stmts_and_assign_local_ids 0 statements ⟨heap.names.locals this, var_counter, heap⟩
    let ids := ids.assign_all
    { ids.heap with
      next_unique_id_in_scope :=
        Function.update ids.heap.next_unique_id_in_scope this ids.var_counter }

def visit_stmts_and_assign_local_ids (pos : Nat) : List Statement → LocalIds → LocalIds
  | [], ids => ids
  | stmt :: stmts, ids =>
    visit_stmts_and_assign_local_ids (pos + stmt.width) stmts
      (visit_stmt_and_assign_local_ids pos stmt ids)

def visit_false_body_and_assign_local_ids (pos : Nat) : Option BlockStatement → LocalIds → LocalIds
  | none, ids => ids
  | some body, ids =>
    let ids := ids.assign_until pos
    { ids with heap := visit_block_and_assign_local_ids body ids.var_counter ids.heap }

end

def assign_parameter_ids : List VariableId → Nat → Heap → Heap
  | [], _, heap => heap
  | id :: ids, var_counter, heap =>
    assign_parameter_ids ids (var_counter + 1) (heap.set_unique_id id var_counter)

def visit_definition_and_assign_local_ids (definition : Definition) (heap : Heap) : Heap :=
  visit_block_and_assign_local_ids definition.body definition.parameters.length
    (assign_parameter_ids definition.parameters 0 heap)

-- `visit_component_definition` and `visit_function_definition`.
def visit_definition (ctx : LinkCtx) (definition : Definition) (heap : Heap) :
    Except LinkError Heap := do
  let heap := assign_parameter_ids definition.parameters 0 heap
  let σ ← visit_block_stmt ctx (.new definition) definition.body
    { heap with prev_stmt := none, names := { heap.names with next_expr_index := 0 } }
  .ok (visit_definition_and_assign_local_ids definition { σ.toHeap with
    num_expressions_in_body :=
      Function.update σ.num_expressions_in_body definition.this σ.names.next_expr_index })

def visit_module (ctx : LinkCtx) : List Definition → Heap → Except LinkError Heap
  | [], heap => .ok heap
  | definition :: definitions, heap => do
    let heap ← visit_definition ctx definition heap
    visit_module ctx definitions heap

mutual

-- The largest `next_unique_id_in_scope` of a block and the blocks nested in it.
def Heap.stmt_max_stack_size (heap : Heap) : Statement → Nat
  | .block body | .while _ _ body _ | .synchronous _ body _ => heap.determine_max_stack_size body
  | .if _ _ true_body false_body _ =>
    max (heap.determine_max_stack_size true_body) (heap.option_max_stack_size false_body)
  | .labeled _ _ body => heap.stmt_max_stack_size body
  | _ => 0

def Heap.determine_max_stack_size (heap : Heap) : BlockStatement → Nat
  | ⟨this, statements, _⟩ =>
    max (heap.next_unique_id_in_scope this) (heap.stmts_max_stack_size statements)

def Heap.stmts_max_stack_size (heap : Heap) : List Statement → Nat
  | [] => 0
  | stmt :: stmts => max (heap.stmt_max_stack_size stmt) (heap.stmts_max_stack_size stmts)

def Heap.option_max_stack_size (heap : Heap) : Option BlockStatement → Nat
  | none => 0
  | some body => heap.determine_max_stack_size body

end

end Reowolf
