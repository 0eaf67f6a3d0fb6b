import Reowolf.Protocol.ExpressionVisits
import Reowolf.Protocol.LinkingStatements

-- The pass as the source writes it: the traversal state is one mutable value, into which a visitor puts
-- what it wants to be there for the parts of its element, and which it sets back in the end.
namespace Reowolf.PassValidationLinking

variable (ctx : LinkCtx)

mutual

def visit_expr : Expression → Traversal → Names → Except LinkError (Traversal × Names)
  | .assignment this operation left right, t, names =>
    let expr := Expression.assignment this operation left right
    match t.expr_parent with
    | .expressionStmt _ => do
      let old_expr_parent := t.expr_parent
      let names := names.number this old_expr_parent
      let t := { t with expr_parent := .expression expr 0 old_expr_parent, must_be_assignable := true }
      let (t, names) ← visit_expr left t names
      let t := { t with expr_parent := .expression expr 1 old_expr_parent, must_be_assignable := false }
      let (t, names) ← visit_expr right t names
      .ok ({ t with expr_parent := old_expr_parent }, names)
    | _ => .error (.parseError "assignments are statements, and cannot be used in expressions" [])
  | .binding this bound_to bound_from, t, names =>
    let expr := Expression.binding this bound_to bound_from
    if t.must_be_assignable then .error (not_assignable "binding")
    else if t.in_test_expr.isNone then
      .error (.parseError ("binding expressions can only be used inside the testing expression of " ++
        "'if' and 'while' statements") [])
    else if t.in_binding_expr.isSome then
      .error (.parseError "nested binding expressions are not allowed"
        ["the outer binding expression is found here"])
    else do
      check_binding_parents t.expr_parent
      let old_expr_parent := t.expr_parent
      let names := names.number this old_expr_parent
      let t := { t with in_binding_expr := some this }
      match bound_to with
      | .variable .. | .literal .. =>
        let t := { t with in_binding_expr_lhs := true, expr_parent := .expression expr 0 old_expr_parent }
        let (t, names) ← visit_expr bound_to t names
        let t := { t with in_binding_expr_lhs := false, expr_parent := .expression expr 1 old_expr_parent }
        let (t, names) ← visit_expr bound_from t names
        .ok ({ t with expr_parent := old_expr_parent, in_binding_expr := none }, names)
      | _ => .error (.parseError ("the left hand side of a binding expression may only be a variable " ++
          "or a literal expression") [])
  | .conditional this test true_expression false_expression, t, names =>
    let expr := Expression.conditional this test true_expression false_expression
    if t.must_be_assignable then .error (not_assignable "conditional")
    else do
      let old_expr_parent := t.expr_parent
      let names := names.number this old_expr_parent
      let t := { t with expr_parent := .expression expr 0 old_expr_parent }
      let (t, names) ← visit_expr test t names
      let t := { t with expr_parent := .expression expr 1 old_expr_parent }
      let (t, names) ← visit_expr true_expression t names
      let t := { t with expr_parent := .expression expr 2 old_expr_parent }
      let (t, names) ← visit_expr false_expression t names
      .ok ({ t with expr_parent := old_expr_parent }, names)
  | .binary this operation left right, t, names =>
    let expr := Expression.binary this operation left right
    if t.must_be_assignable then .error (not_assignable "binary")
    else do
      let old_expr_parent := t.expr_parent
      let names := names.number this old_expr_parent
      let t := { t with expr_parent := .expression expr 0 old_expr_parent }
      let (t, names) ← visit_expr left t names
      let t := { t with expr_parent := .expression expr 1 old_expr_parent }
      let (t, names) ← visit_expr right t names
      .ok ({ t with expr_parent := old_expr_parent }, names)
  | .unary this operation expression, t, names =>
    if t.must_be_assignable then .error (not_assignable "unary")
    else do
      let old_expr_parent := t.expr_parent
      let names := names.number this old_expr_parent
      let t :=
        { t with expr_parent := .expression (.unary this operation expression) 0 old_expr_parent }
      let (t, names) ← visit_expr expression t names
      .ok ({ t with expr_parent := old_expr_parent }, names)
  | .indexing this subject index, t, names => do
    let expr := Expression.indexing this subject index
    let old_expr_parent := t.expr_parent
    let names := names.number this old_expr_parent
    let t := { t with expr_parent := .expression expr 0 old_expr_parent }
    let (t, names) ← visit_expr subject t names
    let old_assignable := t.must_be_assignable
    let t := { t with must_be_assignable := false, expr_parent := .expression expr 1 old_expr_parent }
    let (t, names) ← visit_expr index t names
    .ok ({ t with must_be_assignable := old_assignable, expr_parent := old_expr_parent }, names)
  | .slicing this subject from_index to_index, t, names =>
    let expr := Expression.slicing this subject from_index to_index
    if t.must_be_assignable then
      .error (.parseError ("assignment to slices should be valid in the final language, but is " ++
        "currently not implemented") [])
    else do
      let old_expr_parent := t.expr_parent
      let names := names.number this old_expr_parent
      let t := { t with expr_parent := .expression expr 0 old_expr_parent }
      let (t, names) ← visit_expr subject t names
      let old_assignable := t.must_be_assignable
      let t := { t with must_be_assignable := false, expr_parent := .expression expr 1 old_expr_parent }
      let (t, names) ← visit_expr from_index t names
      let t := { t with expr_parent := .expression expr 2 old_expr_parent }
      let (t, names) ← visit_expr to_index t names
      .ok ({ t with must_be_assignable := old_assignable, expr_parent := old_expr_parent }, names)
  | .select this subject field_name, t, names => do
    let old_expr_parent := t.expr_parent
    let names := names.number this old_expr_parent
    let t := { t with expr_parent := .expression (.select this subject field_name) 0 old_expr_parent }
    let (t, names) ← visit_expr subject t names
    .ok ({ t with expr_parent := old_expr_parent }, names)
  | .literal this value values, t, names => do
    let old_expr_parent := t.expr_parent
    let names := names.number this old_expr_parent
    if t.must_be_assignable then
      .error (.parseError "cannot assign to a literal expression" [])
    else
      let names ← check_literal ctx this values.length names value
      let (t, names) ← visit_exprs (.literal this value values) old_expr_parent 0 values t names
      .ok ({ t with expr_parent := old_expr_parent }, names)
  | .cast this subject, t, names =>
    if t.must_be_assignable then .error (not_assignable "cast")
    else do
      let old_expr_parent := t.expr_parent
      let names := names.number this old_expr_parent
      let t := { t with expr_parent := .expression (.cast this subject) 0 old_expr_parent }
      let (t, names) ← visit_expr subject t names
      .ok ({ t with expr_parent := old_expr_parent }, names)
  | .call this method arguments definition, t, names =>
    if t.must_be_assignable then .error (not_assignable "call")
    else do
      check_method t method
      check_new t method
      check_num_arguments ctx definition arguments.length
      let old_expr_parent := t.expr_parent
      let names := names.number this old_expr_parent
      let (t, names) ←
        visit_exprs (.call this method arguments definition) old_expr_parent 0 arguments t names
      .ok ({ t with expr_parent := old_expr_parent }, names)
  | .variable this identifier, t, names => do
    let names ← visit_variable_expr ctx t this identifier names
    .ok (t, names)

-- The loop over the arguments of a call or the values of a literal.
def visit_exprs (parent : Expression) (old_expr_parent : ExpressionParent) (idx : Nat) :
    List Expression → Traversal → Names → Except LinkError (Traversal × Names)
  | [], t, names => .ok (t, names)
  | expr :: exprs, t, names => do
    let t := { t with expr_parent := .expression parent idx old_expr_parent }
    let (t, names) ← visit_expr expr t names
    visit_exprs parent old_expr_parent (idx + 1) exprs t names

end

-- The traversal state with the part of the heap that an expression changes.
def visit_expr_in_state (expr : Expression) (t : Traversal) (σ : LinkState) :
    Except LinkError (Traversal × LinkState) := do
  let (t, names) ← visit_expr ctx expr t σ.names
  .ok (t, { σ with names })

-- The breadth-first pass over the statements of a block.
def visit_statements_for_locals_labels_and_in_sync (pos : Nat) :
    List Statement → Traversal → LinkState → Except LinkError (Traversal × LinkState)
  | [], t, σ => .ok (t, σ)
  | stmt :: stmts, t, σ => do
    let t := { t with relative_pos_in_block := pos }
    let σ ← visit_statement_for_locals_labels_and_in_sync ctx t t.relative_pos_in_block stmt σ
    visit_statements_for_locals_labels_and_in_sync (pos + stmt.width) stmts t σ

mutual

def visit_stmt : Statement → Traversal → LinkState → Except LinkError (Traversal × LinkState)
  | .block body, t, σ => visit_block_stmt body t σ
  | .memory this _, t, σ | .channel this _ _, t, σ => .ok (t, σ.assign_and_replace_next_stmt this)
  | .labeled _ _ body, t, σ => visit_stmt body t σ
  | .if this test true_body false_body end_if, t, σ => do
    let t := { t with in_test_expr := some true_body.this, expr_parent := .if this }
    let (t, σ) ← visit_expr_in_state ctx test t σ
    let t := { t with in_test_expr := none, expr_parent := .none }
    let σ := σ.assign_then_erase_next_stmt this
    let (t, σ) ← visit_block_stmt true_body t σ
    let σ := σ.assign_then_erase_next_stmt end_if
    let (t, σ) ← visit_false_body end_if false_body t σ
    .ok (t, { σ with prev_stmt := some end_if })
  | .while this test body end_while, t, σ => do
    let old_while := t.in_while
    let t := { t with
      in_while     := some ⟨this, body.this, end_while⟩
      in_test_expr := some body.this
      expr_parent  := .while this }
    let (t, σ) ← visit_expr_in_state ctx test t σ
    let t := { t with in_test_expr := none }
    let σ := σ.assign_then_erase_next_stmt this
    let t := { t with expr_parent := .none }
    let (t, σ) ← visit_block_stmt body t σ
    let t := { t with in_while := old_while }
    let σ := σ.assign_then_erase_next_stmt this
    .ok (t, { σ with prev_stmt := some end_while })
  | .break this label, t, σ => do
    let target ← resolve_break_or_continue_target t σ label
    .ok (t, (σ.assign_then_erase_next_stmt this).set_target this target.end_while)
  | .continue this label, t, σ => do
    let target ← resolve_break_or_continue_target t σ label
    .ok (t, (σ.assign_then_erase_next_stmt this).set_target this target.this)
  | .synchronous this body end_sync, t, σ =>
    if t.in_sync.isSome then
      .error (.parseError "Illegal nested synchronous statement"
        ["It is nested in this synchronous statement"])
    else if ¬t.is_primitive then
      .error (.parseError "synchronous statements may only be used in primitive components" [])
    else do
      let σ := σ.assign_then_erase_next_stmt this
      let t := { t with in_sync := some this }
      let (t, σ) ← visit_block_stmt body t σ
      let σ := σ.assign_and_replace_next_stmt end_sync
      .ok ({ t with in_sync := none }, σ)
  | .return this expression, t, σ =>
    if ¬t.is_function then
      .error (.parseError "return statements may only appear in function bodies" [])
    else do
      let σ := σ.assign_then_erase_next_stmt this
      let t := { t with expr_parent := .return this }
      let (t, σ) ← visit_expr_in_state ctx expression t σ
      .ok ({ t with expr_parent := .none }, σ)
  | .goto this label, t, σ => do
    let target ← find_label σ label t.cur_scope
    let σ := σ.set_target this target.this
    if t.in_sync ≠ target.in_sync then
      .error (.parseError "goto may not escape the surrounding synchronous block"
        ["this is the target of the goto statement", "which will jump past this statement"])
    else .ok (t, σ.assign_then_erase_next_stmt this)
  | .new this call method arguments definition, t, σ =>
    if ¬t.is_composite then
      .error (.parseError "instantiating components may only be done in composite components" [])
    else do
      let σ := σ.assign_and_replace_next_stmt this
      let t := { t with expr_parent := .new this }
      let (t, σ) ← visit_expr_in_state ctx (.call call method arguments definition) t σ
      .ok ({ t with expr_parent := .none }, σ)
  | .expression this expression, t, σ => do
    let σ := σ.assign_and_replace_next_stmt this
    let t := { t with expr_parent := .expressionStmt this }
    let (t, σ) ← visit_expr_in_state ctx expression t σ
    .ok ({ t with expr_parent := .none }, σ)

-- `visit_block_stmt_with_hint`. The hint is not needed to find the block of a scope.
def visit_block_stmt : BlockStatement → Traversal → LinkState → Except LinkError (Traversal × LinkState)
  | ⟨this, statements, end_block⟩, t, σ => do
    let old_scope := t.cur_scope
    let old_relative_pos := t.relative_pos_in_block
    let t := t.enter ⟨this, statements, end_block⟩
    let (t, σ) ← visit_statements_for_locals_labels_and_in_sync ctx 0 statements t σ
    let σ := σ.assign_and_replace_next_stmt this
    let (t, σ) ← visit_stmts 0 statements t σ
    let σ := σ.assign_and_replace_next_stmt end_block
    .ok ({ t with cur_scope := old_scope, relative_pos_in_block := old_relative_pos }, σ)

-- The depth-first pass over the statements of a block.
def visit_stmts (pos : Nat) :
    List Statement → Traversal → LinkState → Except LinkError (Traversal × LinkState)
  | [], t, σ => .ok (t, σ)
  | stmt :: stmts, t, σ => do
    let t := { t with relative_pos_in_block := pos }
    let (t, σ) ← visit_stmt stmt t σ
    visit_stmts (pos + stmt.width) stmts t σ

def visit_false_body (end_if : StatementId) :
    Option BlockStatement → Traversal → LinkState → Except LinkError (Traversal × LinkState)
  | none, t, σ => .ok (t, σ)
  | some body, t, σ => do
    let (t, σ) ← visit_block_stmt body t σ
    .ok (t, σ.assign_then_erase_next_stmt end_if)

end

-- `visit_component_definition` and `visit_function_definition`, from whatever state the pass is left in
-- by the procedure before.
def visit_definition (definition : Definition) (heap : Heap) : Except LinkError Heap := do
  let heap := assign_parameter_ids definition.parameters 0 heap
  let (_, σ) ← visit_block_stmt ctx definition.body (.new definition)
    { heap with prev_stmt := none, names := { heap.names with next_expr_index := 0 } }
  .ok (visit_definition_and_assign_local_ids definition { σ.toHeap with
    num_expressions_in_body :=
      Function.update σ.num_expressions_in_body definition.this σ.names.next_expr_index })

def visit_module : List Definition → Heap → Except LinkError Heap
  | [], heap => .ok heap
  | definition :: definitions, heap => do
    let heap ← visit_definition ctx definition heap
    visit_module definitions heap

end Reowolf.PassValidationLinking

namespace Except

variable {ε τ α β : Type} {x : Except ε (τ × α)} {y : Except ε α} {t t' : τ}

-- A step with a state of its own does the same as one without, and leaves the state at `t`.
theorem then_congr {f : τ × α → Except ε β} {g : α → Except ε β} (hx : x = y.map (Prod.mk t))
    (h : ∀ a, f (t, a) = g a) : (x >>= f) = y >>= g := by
  subst hx
  cases y with
  | error => rfl
  | ok a  => exact h a

theorem then_set {f : τ × α → Except ε (τ × α)} (hx : x = y.map (Prod.mk t))
    (h : ∀ a, f (t, a) = .ok (t', a)) : (x >>= f) = y.map (Prod.mk t') := by
  subst hx
  cases y with
  | error => rfl
  | ok a  => exact h a

-- The checks that come first are the same.
theorem guard_congr {c : Prop} [Decidable c] {e : ε} {z : Except ε (τ × α)}
    (h : ¬c → z = y.map (Prod.mk t)) :
    (if c then .error e else z) = (if c then .error e else y).map (Prod.mk t) := by
  split
  case isTrue     => rfl
  case isFalse hc => exact h hc

theorem map_then {γ : Type} {f : α → Except ε β} {g : β → γ} :
    (y >>= f).map g = y >>= fun a => (f a).map g := by
  cases y <;> rfl

end Except

namespace Reowolf

-- What holds of the state before a visitor of the source, and makes it the state after the visitor: no
-- trace of a binding expression is left behind, and what has to be assignable is not a statement.
structure Traversal.Settled (t : Traversal) : Prop where
  binding    : t.in_binding_expr = none → t.in_binding_expr_lhs = false
  assignable : ∀ stmt, t.expr_parent = .expressionStmt stmt → t.must_be_assignable = false

namespace Traversal

variable {t : Traversal}

theorem Settled.descend (h : t.Settled) (expr : Expression) (idx : Nat) :
    (t.descend expr idx).Settled := by
  have hchild : (t.child expr idx).Settled := ⟨h.binding, fun _ he => by cases he⟩
  cases expr with
  | assignment => exact ⟨h.binding, fun _ he => by cases he⟩
  | binding    => exact ⟨fun he => (by cases he), fun _ he => by cases he⟩
  | indexing =>
    cases idx with
    | zero   => exact hchild
    | succ _ => exact ⟨h.binding, fun _ he => by cases he⟩
  | _ => exact hchild

end Traversal

namespace PassValidationLinking

variable {ctx : LinkCtx}

theorem visit_exprs_eq {parent : Expression} {t : Traversal} {exprs : List Expression} {names : Names}
    {t' : Traversal} (hparent : ∀ idx, (t.child parent idx).Settled)
    (ht : ∃ p, t' = { t with expr_parent := p })
    (ih : ∀ expr ∈ exprs, ∀ (t : Traversal) (names : Names), t.Settled →
      visit_expr ctx expr t names = (Reowolf.visit_expr ctx t expr names).map (Prod.mk t)) (idx : Nat) :
    (do
      let (t', names) ← visit_exprs ctx parent t.expr_parent idx exprs t' names
      .ok ({ t' with expr_parent := t.expr_parent }, names)) =
      (Reowolf.visit_exprs ctx t parent idx exprs names).map (Prod.mk t) := by
  obtain ⟨p, rfl⟩ := ht
  induction exprs generalizing idx names p with
  | nil => rfl
  | cons expr exprs ih' =>
    simp only [visit_exprs, Reowolf.visit_exprs, Except.map_then, bind_assoc]
    refine Except.then_congr (ih expr (.head _) _ _ (hparent idx)) fun names₁ => ?_
    exact ih' (fun expr hmem => ih expr (.tail _ hmem)) (idx + 1) _

-- A visitor of the source leaves the traversal state as it finds it.
theorem visit_expr_eq (expr : Expression) (t : Traversal) (names : Names) (h : t.Settled) :
    visit_expr ctx expr t names = (Reowolf.visit_expr ctx t expr names).map (Prod.mk t) := by
  induction expr using Expression.children_induction generalizing t names with
  | h expr ih =>
    have hset := h.descend expr
    cases expr with
    | assignment this operation left right =>
      obtain ⟨_, _, _, _, _, _, _, expr_parent, must_be_assignable, _⟩ := t
      cases expr_parent with
      | expressionStmt stmt =>
        have hm : must_be_assignable = false := h.assignable stmt rfl
        subst hm
        simp only [visit_expr, Reowolf.visit_expr, Except.map_then]
        refine Except.then_congr (ih left (.head _) _ _ (hset 0)) fun names₁ => ?_
        exact Except.then_set (ih right (.tail _ (.head _)) _ _ (hset 1)) fun _ => rfl
      | _ => rfl
    | binding this bound_to bound_from =>
      obtain ⟨_, _, _, in_test_expr, in_binding_expr, in_binding_expr_lhs, _, _, must_be_assignable, _⟩ := t
      cases must_be_assignable with
      | true => rfl
      | false =>
        cases in_test_expr with
        | none => rfl
        | some =>
          cases in_binding_expr with
          | some => rfl
          | none =>
            have hlhs : in_binding_expr_lhs = false := h.binding rfl
            subst hlhs
            cases bound_to with
            | «variable» | literal =>
              rw [visit_expr.eq_def, Reowolf.visit_expr.eq_def]
              simp only [Option.isNone_some, Option.isSome_none, Bool.false_eq_true, if_false,
                Except.map_then]
              refine bind_congr fun _ => ?_
              refine Except.then_congr (ih _ (.head _) _ _ (hset 0)) fun names₁ => ?_
              exact Except.then_set (ih bound_from (.tail _ (.head _)) _ _ (hset 1)) fun _ => rfl
            | _ =>
              rw [visit_expr.eq_def, Reowolf.visit_expr.eq_def]
              simp only [Option.isNone_some, Option.isSome_none, Bool.false_eq_true, if_false,
                Except.map_then]
              exact bind_congr fun _ => rfl
    | conditional this test true_expression false_expression =>
      simp only [visit_expr, Reowolf.visit_expr]
      refine Except.guard_congr fun _ => ?_
      simp only [Except.map_then]
      refine Except.then_congr (ih test (.head _) _ _ (hset 0)) fun names₁ => ?_
      refine Except.then_congr (ih true_expression (.tail _ (.head _)) _ _ (hset 1)) fun names₂ => ?_
      exact Except.then_set (ih false_expression (.tail _ (.tail _ (.head _))) _ _ (hset 2)) fun _ => rfl
    | binary this operation left right =>
      simp only [visit_expr, Reowolf.visit_expr]
      refine Except.guard_congr fun _ => ?_
      rw [Except.map_then]
      refine Except.then_congr (ih left (.head _) _ _ (hset 0)) fun names₁ => ?_
      exact Except.then_set (ih right (.tail _ (.head _)) _ _ (hset 1)) fun _ => rfl
    | unary this operation expression =>
      simp only [visit_expr, Reowolf.visit_expr]
      refine Except.guard_congr fun _ => ?_
      exact Except.then_set (ih expression (.head _) _ _ (hset 0)) fun _ => rfl
    | indexing this subject index =>
      simp only [visit_expr, Reowolf.visit_expr, Except.map_then]
      refine Except.then_congr (ih subject (.head _) _ _ (hset 0)) fun names₁ => ?_
      exact Except.then_set (ih index (.tail _ (.head _)) _ _ (hset 1)) fun _ => rfl
    | slicing this subject from_index to_index =>
      obtain ⟨_, _, _, _, _, _, _, _, must_be_assignable, _⟩ := t
      cases must_be_assignable with
      | true => rfl
      | false =>
        simp only [visit_expr, Reowolf.visit_expr, Bool.false_eq_true, if_false, Except.map_then]
        refine Except.then_congr (ih subject (.head _) _ _ (hset 0)) fun names₁ => ?_
        refine Except.then_congr (ih from_index (.tail _ (.head _)) _ _ (hset 1)) fun names₂ => ?_
        exact Except.then_set (ih to_index (.tail _ (.tail _ (.head _))) _ _ (hset 2)) fun _ => rfl
    | select this subject field_name =>
      simp only [visit_expr, Reowolf.visit_expr]
      exact Except.then_set (ih subject (.head _) _ _ (hset 0)) fun _ => rfl
    | literal this value values =>
      simp only [visit_expr, Reowolf.visit_expr]
      refine Except.guard_congr fun _ => ?_
      rw [Except.map_then]
      refine bind_congr fun names₁ => ?_
      exact visit_exprs_eq hset ⟨_, rfl⟩ ih 0
    | cast this subject =>
      simp only [visit_expr, Reowolf.visit_expr]
      refine Except.guard_congr fun _ => ?_
      exact Except.then_set (ih subject (.head _) _ _ (hset 0)) fun _ => rfl
    | call this method arguments definition =>
      simp only [visit_expr, Reowolf.visit_expr]
      refine Except.guard_congr fun _ => ?_
      simp only [Except.map_then]
      refine bind_congr fun _ => bind_congr fun _ => bind_congr fun _ => ?_
      exact visit_exprs_eq hset ⟨_, rfl⟩ ih 0
    | «variable» this identifier =>
      simp only [visit_expr, Reowolf.visit_expr]
      cases visit_variable_expr ctx t this identifier names <;> rfl

theorem visit_expr_in_state_eq {expr : Expression} {t : Traversal} {σ : LinkState} (h : t.Settled) :
    visit_expr_in_state ctx expr t σ = (Reowolf.visit_expr_in_state ctx t expr σ).map (Prod.mk t) := by
  simp only [visit_expr_in_state, Reowolf.visit_expr_in_state, Except.map_then]
  exact Except.then_congr (visit_expr_eq expr t σ.names h) fun _ => rfl

end PassValidationLinking

-- The traversal state at the start of a statement.
structure Traversal.Idle (t : Traversal) : Prop where
  in_test_expr        : t.in_test_expr = none
  in_binding_expr     : t.in_binding_expr = none
  in_binding_expr_lhs : t.in_binding_expr_lhs = false
  expr_parent         : t.expr_parent = .none
  must_be_assignable  : t.must_be_assignable = false

namespace Traversal

variable {t : Traversal}

theorem Idle.settled (h : t.Idle) (in_test_expr : Option StatementId) (in_while : Option WhileStatement)
    (expr_parent : ExpressionParent) :
    { t with in_test_expr, in_while, expr_parent : Traversal }.Settled :=
  ⟨fun _ => h.in_binding_expr_lhs, fun _ _ => h.must_be_assignable⟩

theorem Idle.inside (h : t.Idle) (in_sync : Option StatementId) (in_while : Option WhileStatement)
    (cur_scope : List Scope) (relative_pos_in_block : Nat) :
    { t with in_sync, in_while, cur_scope, relative_pos_in_block : Traversal }.Idle :=
  ⟨h.in_test_expr, h.in_binding_expr, h.in_binding_expr_lhs, h.expr_parent, h.must_be_assignable⟩

-- The state after a loop over the statements of a block.
def passed (pos : Nat) : List Statement → Traversal → Traversal
  | [], t            => t
  | stmt :: stmts, t => passed (pos + stmt.width) stmts { t with relative_pos_in_block := pos }

theorem exists_passed_eq {pos : Nat} {stmts : List Statement} :
    ∃ relative_pos, t.passed pos stmts = { t with relative_pos_in_block := relative_pos } := by
  induction stmts generalizing t pos with
  | nil => exact ⟨t.relative_pos_in_block, rfl⟩
  | cons stmt stmts ih =>
    obtain ⟨relative_pos, he⟩ := @ih { t with relative_pos_in_block := pos } (pos + stmt.width)
    exact ⟨relative_pos, he⟩

end Traversal

namespace PassValidationLinking

variable {ctx : LinkCtx} {t : Traversal}

theorem visit_locals_relative_pos (stmt : Statement) {relative_pos pos : Nat} {σ : LinkState} :
    visit_statement_for_locals_labels_and_in_sync ctx { t with relative_pos_in_block := relative_pos } pos
      stmt σ = visit_statement_for_locals_labels_and_in_sync ctx t pos stmt σ := by
  cases stmt with
  | labeled this label body =>
    simp only [visit_statement_for_locals_labels_and_in_sync]
    exact bind_congr fun σ₁ => visit_locals_relative_pos body
  | _ => rfl

theorem visit_statements_relative_pos {relative_pos pos : Nat} {stmts : List Statement}
    {σ : LinkState} :
    Reowolf.visit_statements_for_locals_labels_and_in_sync ctx
      { t with relative_pos_in_block := relative_pos } pos stmts σ =
      Reowolf.visit_statements_for_locals_labels_and_in_sync ctx t pos stmts σ := by
  induction stmts generalizing pos σ with
  | nil => rfl
  | cons stmt stmts ih =>
    simp only [Reowolf.visit_statements_for_locals_labels_and_in_sync, visit_locals_relative_pos]
    exact bind_congr fun σ₁ => ih

theorem visit_stmts_relative_pos {relative_pos pos : Nat} {stmts : List Statement} {σ : LinkState} :
    Reowolf.visit_stmts ctx { t with relative_pos_in_block := relative_pos } pos stmts σ =
      Reowolf.visit_stmts ctx t pos stmts σ := by
  induction stmts generalizing pos σ with
  | nil => rfl
  | cons stmt stmts ih =>
    simp only [Reowolf.visit_stmts]
    exact bind_congr fun σ₁ => ih

theorem visit_statements_eq {pos : Nat} {stmts : List Statement} {σ : LinkState} :
    visit_statements_for_locals_labels_and_in_sync ctx pos stmts t σ =
      (Reowolf.visit_statements_for_locals_labels_and_in_sync ctx t pos stmts σ).map
        (Prod.mk (t.passed pos stmts)) := by
  induction stmts generalizing pos t σ with
  | nil => rfl
  | cons stmt stmts ih =>
    simp only [visit_statements_for_locals_labels_and_in_sync,
      Reowolf.visit_statements_for_locals_labels_and_in_sync, Except.map_then, visit_locals_relative_pos]
    refine bind_congr fun σ₁ => ?_
    rw [ih, visit_statements_relative_pos]
    rfl

mutual

-- A visitor of a statement, too, leaves the traversal state as it finds it.
theorem visit_stmt_eq : (stmt : Statement) → ∀ {t : Traversal} (_ : t.Idle) (σ : LinkState),
    visit_stmt ctx stmt t σ = (Reowolf.visit_stmt ctx t stmt σ).map (Prod.mk t)
  | .block body, t, ht, σ => by
    simp only [visit_stmt, Reowolf.visit_stmt]
    exact visit_block_stmt_eq body ht σ
  | .memory .., _, _, _ | .channel .., _, _, _ => rfl
  | .labeled _ _ body, t, ht, σ => by
    simp only [visit_stmt, Reowolf.visit_stmt]
    exact visit_stmt_eq body ht σ
  | .if this test true_body false_body end_if, t, ht, σ => by
    have hsettled := ht.settled (some true_body.this) t.in_while (.if this)
    obtain ⟨_, _, _, _, _, _, _, _, _, _⟩ := t
    cases ht.in_test_expr
    cases ht.expr_parent
    simp only [visit_stmt, Reowolf.visit_stmt, Except.map_then]
    refine Except.then_congr (visit_expr_in_state_eq hsettled) fun σ₁ => ?_
    refine Except.then_congr (visit_block_stmt_eq true_body ht _) fun σ₂ => ?_
    exact Except.then_congr (visit_false_body_eq end_if false_body ht _) fun _ => rfl
  | .while this test body end_while, t, ht, σ => by
    have hsettled := ht.settled (some body.this) (some ⟨this, body.this, end_while⟩) (.while this)
    have hidle := ht.inside t.in_sync (some ⟨this, body.this, end_while⟩) t.cur_scope t.relative_pos_in_block
    obtain ⟨_, _, _, _, _, _, _, _, _, _⟩ := t
    cases ht.in_test_expr
    cases ht.expr_parent
    simp only [visit_stmt, Reowolf.visit_stmt, Except.map_then]
    refine Except.then_congr (visit_expr_in_state_eq hsettled) fun σ₁ => ?_
    exact Except.then_congr (visit_block_stmt_eq body hidle _) fun σ₂ => rfl
  | .break this label, t, ht, σ | .continue this label, t, ht, σ => by
    simp only [visit_stmt, Reowolf.visit_stmt, Except.map_then]
    exact bind_congr fun _ => rfl
  | .synchronous this body end_sync, t, ht, σ => by
    have hidle := ht.inside (some this) t.in_while t.cur_scope t.relative_pos_in_block
    obtain ⟨_, in_sync, _, _, _, _, _, _, _, _⟩ := t
    cases in_sync with
    | some => rfl
    | none =>
      simp only [visit_stmt, Reowolf.visit_stmt]
      refine Except.guard_congr fun _ => Except.guard_congr fun _ => ?_
      rw [Except.map_then]
      exact Except.then_congr (visit_block_stmt_eq body hidle _) fun σ₁ => rfl
  | .return this expression, t, ht, σ => by
    have hsettled := ht.settled t.in_test_expr t.in_while (.return this)
    obtain ⟨_, _, _, _, _, _, _, _, _, _⟩ := t
    cases ht.expr_parent
    simp only [visit_stmt, Reowolf.visit_stmt]
    refine Except.guard_congr fun _ => ?_
    exact Except.then_set (visit_expr_in_state_eq hsettled) fun _ => rfl
  | .goto this label, t, ht, σ => by
    simp only [visit_stmt, Reowolf.visit_stmt, Except.map_then]
    refine bind_congr fun target => ?_
    split <;> rfl
  | .new this call method arguments definition, t, ht, σ => by
    have hsettled := ht.settled t.in_test_expr t.in_while (.new this)
    obtain ⟨_, _, _, _, _, _, _, _, _, _⟩ := t
    cases ht.expr_parent
    simp only [visit_stmt, Reowolf.visit_stmt]
    refine Except.guard_congr fun _ => ?_
    exact Except.then_set (visit_expr_in_state_eq hsettled) fun _ => rfl
  | .expression this expression, t, ht, σ => by
    have hsettled := ht.settled t.in_test_expr t.in_while (.expressionStmt this)
    obtain ⟨_, _, _, _, _, _, _, _, _, _⟩ := t
    cases ht.expr_parent
    simp only [visit_stmt, Reowolf.visit_stmt]
    exact Except.then_set (visit_expr_in_state_eq hsettled) fun _ => rfl

theorem visit_block_stmt_eq : (body : BlockStatement) → ∀ {t : Traversal} (_ : t.Idle) (σ : LinkState),
    visit_block_stmt ctx body t σ = (Reowolf.visit_block_stmt ctx t body σ).map (Prod.mk t)
  | ⟨this, statements, end_block⟩, t, ht, σ => by
    simp only [visit_block_stmt, Reowolf.visit_block_stmt, Except.map_then]
    refine Except.then_congr visit_statements_eq fun σ₁ => ?_
    obtain ⟨relative_pos, he⟩ :=
      @Traversal.exists_passed_eq (t.enter ⟨this, statements, end_block⟩) 0 statements
    have hidle : ((t.enter ⟨this, statements, end_block⟩).passed 0 statements).Idle := by
      rw [he]
      exact ht.inside ..
    have hstmts := visit_stmts_eq statements hidle 0 (σ₁.assign_and_replace_next_stmt this)
    obtain ⟨relative_pos', he'⟩ :=
      @Traversal.exists_passed_eq ((t.enter ⟨this, statements, end_block⟩).passed 0 statements) 0
        statements
    rw [he', he, visit_stmts_relative_pos] at hstmts
    rw [he]
    exact Except.then_congr hstmts fun σ₂ => rfl

theorem visit_stmts_eq : (stmts : List Statement) → ∀ {t : Traversal} (_ : t.Idle) (pos : Nat)
    (σ : LinkState),
    visit_stmts ctx pos stmts t σ =
      (Reowolf.visit_stmts ctx t pos stmts σ).map (Prod.mk (t.passed pos stmts))
  | [], _, _, _, _ => rfl
  | stmt :: stmts, t, ht, pos, σ => by
    have hidle := ht.inside t.in_sync t.in_while t.cur_scope pos
    simp only [visit_stmts, Reowolf.visit_stmts, Except.map_then]
    refine Except.then_congr (visit_stmt_eq stmt hidle σ) fun σ₁ => ?_
    have hstmts := visit_stmts_eq stmts hidle (pos + stmt.width) σ₁
    rwa [visit_stmts_relative_pos] at hstmts

theorem visit_false_body_eq (end_if : StatementId) : (body : Option BlockStatement) →
    ∀ {t : Traversal} (_ : t.Idle) (σ : LinkState),
    visit_false_body ctx end_if body t σ =
      (Reowolf.visit_false_body ctx t end_if body σ).map (Prod.mk t)
  | none, _, _, _ => rfl
  | some body, t, ht, σ => by
    simp only [visit_false_body, Reowolf.visit_false_body, Except.map_then]
    exact Except.then_congr (visit_block_stmt_eq body ht σ) fun σ₁ => rfl

end

theorem visit_definition_eq (definition : Definition) (heap : Heap) :
    visit_definition ctx definition heap = Reowolf.visit_definition ctx definition heap := by
  have hidle : (Traversal.new definition).Idle := ⟨rfl, rfl, rfl, rfl, rfl⟩
  simp only [visit_definition, Reowolf.visit_definition]
  exact Except.then_congr (visit_block_stmt_eq definition.body hidle _) fun _ => rfl

theorem visit_module_eq (definitions : List Definition) (heap : Heap) :
    visit_module ctx definitions heap = Reowolf.visit_module ctx definitions heap := by
  induction definitions generalizing heap with
  | nil => rfl
  | cons definition definitions ih =>
    simp only [visit_module, Reowolf.visit_module, visit_definition_eq]
    exact bind_congr fun heap₁ => ih heap₁

end PassValidationLinking
end Reowolf
