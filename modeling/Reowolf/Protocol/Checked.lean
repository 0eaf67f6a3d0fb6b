import Reowolf.Library.Machine
import Reowolf.Protocol.Executor
import Reowolf.Protocol.Linked

namespace Reowolf

abbrev Calls := List (Method × DefinitionId)

mutual

-- The calls in an expression.
def Expression.calls : Expression → Calls
  | .assignment _ _ left right | .binding _ left right | .binary _ _ left right
  | .indexing _ left right => left.calls ++ right.calls
  | .conditional _ test t f => test.calls ++ (t.calls ++ f.calls)
  | .unary _ _ e | .select _ e _ | .cast _ e => e.calls
  | .slicing _ subject from_index to_index => subject.calls ++ (from_index.calls ++ to_index.calls)
  | .literal _ _ values => Expression.listCalls values
  | .call _ method arguments definition => (method, definition) :: Expression.listCalls arguments
  | .variable .. => []

def Expression.listCalls : List Expression → Calls
  | [] => []
  | e :: es => e.calls ++ Expression.listCalls es

end

-- The calls in the expressions that are evaluated for a statement.
def Statement.calls : Statement → Calls
  | .if _ test .. | .while _ test .. => test.calls
  | .return _ e | .expression _ e    => e.calls
  | .new _ _ _ arguments _           => Expression.listCalls arguments
  | _                                => []

def ExprInstruction.calls : ExprInstruction → Calls
  | evalExpr expr  => expr.calls
  | pushValToFront => []

-- Where the methods may be called.
def Method.allowed (kind : DefinitionKind) (in_sync : Bool) : Method → Prop
  | .get | .put | .fires => kind = .primitive ∧ in_sync
  | .assert              => kind ≠ .function ∧ in_sync
  | .create | .length | .userFunction | .userComponent => True

def Calls.Allowed (kind : DefinitionKind) (in_sync : Bool) (calls : Calls) : Prop :=
  ∀ call ∈ calls, call.1.allowed kind in_sync

-- What the pass checks of a statement that the rest of the compiler and the runtime rely on.
def Statement.Checked (kind : DefinitionKind) (stack : ControlStack) (stmt : Statement) : Prop :=
  stmt.calls.Allowed kind stack.in_sync.isSome ∧
  match stmt with
  | .synchronous .. => kind = .primitive ∧ stack.in_sync = none
  | .new ..         => kind = .composite
  | .return ..      => kind = .function
  | _               => True

theorem ExprInstruction.calls_of_mem_cons {expr : Expression} {rest : List ExprInstruction}
    {instruction : ExprInstruction} (hi : instruction ∈ evalExpr expr :: rest)
    (h : instruction ∈ rest → instruction.calls ⊆ expr.calls) : instruction.calls ⊆ expr.calls := by
  cases List.mem_cons.mp hi
  case inl hi =>
    subst hi
    exact List.Subset.refl _
  case inr hi => exact h hi

mutual

-- Evaluating an expression makes no other calls.
theorem serialize_expression_calls (names : Names) : (expr : Expression) →
    ∀ instruction ∈ serialize_expression names expr, instruction.calls ⊆ expr.calls
  | .variable this identifier, instruction, hi => by
    apply ExprInstruction.calls_of_mem_cons hi
    intro hi
    cases hi
  | .assignment this op left right, instruction, hi => by
    apply ExprInstruction.calls_of_mem_cons hi
    simp only [List.mem_append, Expression.calls]
    intro hi
    cases hi
    case inl hi =>
      exact List.subset_append_of_subset_left _ (serialize_expression_calls names left instruction hi)
    case inr hi =>
      exact List.subset_append_of_subset_right _ (serialize_expression_calls names right instruction hi)
  | .binding this left right, instruction, hi => by
    apply ExprInstruction.calls_of_mem_cons hi
    simp only [List.mem_append, Expression.calls]
    intro hi
    cases hi
    case inl hi =>
      exact List.subset_append_of_subset_left _ (serialize_expression_calls names left instruction hi)
    case inr hi =>
      exact List.subset_append_of_subset_right _ (serialize_expression_calls names right instruction hi)
  | .binary this op left right, instruction, hi => by
    apply ExprInstruction.calls_of_mem_cons hi
    simp only [List.mem_append, Expression.calls]
    intro hi
    cases hi
    case inl hi =>
      exact List.subset_append_of_subset_left _ (serialize_expression_calls names left instruction hi)
    case inr hi =>
      exact List.subset_append_of_subset_right _ (serialize_expression_calls names right instruction hi)
  | .indexing this subject index, instruction, hi => by
    apply ExprInstruction.calls_of_mem_cons hi
    simp only [List.mem_append, Expression.calls]
    intro hi
    cases hi
    case inl hi =>
      exact List.subset_append_of_subset_right _ (serialize_expression_calls names index instruction hi)
    case inr hi =>
      exact List.subset_append_of_subset_left _ (serialize_expression_calls names subject instruction hi)
  | .unary this op e, instruction, hi => by
    apply ExprInstruction.calls_of_mem_cons hi
    simp only [Expression.calls]
    exact serialize_expression_calls names e instruction
  | .select this e field_name, instruction, hi => by
    apply ExprInstruction.calls_of_mem_cons hi
    simp only [Expression.calls]
    exact serialize_expression_calls names e instruction
  | .cast this e, instruction, hi => by
    apply ExprInstruction.calls_of_mem_cons hi
    simp only [Expression.calls]
    exact serialize_expression_calls names e instruction
  | .conditional this test t f, instruction, hi => by
    apply ExprInstruction.calls_of_mem_cons hi
    intro hi
    simp only [Expression.calls]
    exact List.subset_append_of_subset_left _ (serialize_expression_calls names test instruction hi)
  | .slicing this subject from_index to_index, instruction, hi => by
    apply ExprInstruction.calls_of_mem_cons hi
    intro hi
    simp only [List.mem_append] at hi
    have hfrom := serialize_expression_calls names from_index instruction
    have hto := serialize_expression_calls names to_index instruction
    have hsubject := serialize_expression_calls names subject instruction
    simp only [Expression.calls]
    intro call hc
    simp only [List.mem_append]
    cases hi
    case inl hi => exact .inr (hi.imp (fun hi => hfrom hi hc) (fun hi => hto hi hc))
    case inr hi => exact .inl (hsubject hi hc)
  | .call this method arguments definition, instruction, hi => by
    apply ExprInstruction.calls_of_mem_cons hi
    intro hi
    obtain ⟨instructions, h, hi⟩ := List.mem_flatten.mp hi
    simp only [Expression.calls]
    exact List.subset_cons_of_subset _
      (serialize_values_calls names arguments instructions h instruction hi)
  | .literal this value values, instruction, hi => by
    apply ExprInstruction.calls_of_mem_cons hi
    intro hi
    simp only [Expression.calls]
    obtain ⟨instructions, h, hi⟩ : ∃ instructions ∈ serialize_values names values,
        instruction ∈ instructions := by
      cases value
      case struct =>
        obtain ⟨instructions, h, hi⟩ := List.mem_flatten.mp hi
        simp only [List.mem_flatMap, List.mem_map, List.mem_filter] at h
        obtain ⟨_, _, numbered, ⟨hm, _⟩, he⟩ := h
        exact ⟨instructions, he ▸ (List.of_mem_zip hm).2, hi⟩
      case union | array => exact List.mem_flatten.mp hi
      all_goals cases hi
    exact serialize_values_calls names values instructions h instruction hi

theorem serialize_values_calls (names : Names) : (exprs : List Expression) →
    ∀ instructions ∈ serialize_values names exprs, ∀ instruction ∈ instructions,
    instruction.calls ⊆ Expression.listCalls exprs
  | [], _, h, _, _ => by simp [serialize_values] at h
  | expr :: exprs, instructions, h, instruction, hi => by
    simp only [serialize_values, List.mem_cons] at h
    simp only [Expression.listCalls]
    cases h
    case inl h =>
      subst h
      cases List.mem_cons.mp hi
      case inl hi =>
        subst hi
        simp [ExprInstruction.calls]
      case inr hi =>
        exact List.subset_append_of_subset_left _
          (serialize_expression_calls names expr instruction hi)
    case inr h =>
      exact List.subset_append_of_subset_right _
        (serialize_values_calls names exprs instructions h instruction hi)

end

variable {ctx : LinkCtx} {kind : DefinitionKind} {in_sync : Bool}

@[simp]
theorem Calls.allowed_nil : Calls.Allowed kind in_sync [] := by
  simp [Calls.Allowed]

@[simp]
theorem Calls.allowed_append {calls calls' : Calls} :
    Calls.Allowed kind in_sync (calls ++ calls') ↔
      calls.Allowed kind in_sync ∧ calls'.Allowed kind in_sync := by
  simp [Calls.Allowed, or_imp, forall_and]

@[simp]
theorem Calls.allowed_cons {call : Method × DefinitionId} {calls : Calls} :
    Calls.Allowed kind in_sync (call :: calls) ↔
      call.1.allowed kind in_sync ∧ calls.Allowed kind in_sync := by
  simp [Calls.Allowed]

theorem check_method_allowed {t : Traversal} {method : Method} (h : check_method t method = .ok ()) :
    method.allowed t.definition.kind t.in_sync.isSome := by
  cases method
  case get | put | fires =>
    simp only [check_method, check_port_call] at h
    split at h
    case isTrue => cases h
    case isFalse hp =>
      split at h
      case isTrue => cases h
      case isFalse hs => exact ⟨not_not.mp hp, Option.isSome_iff_ne_none.mpr (by simpa using hs)⟩
  case assert =>
    simp only [check_method] at h
    split at h
    case isTrue => cases h
    case isFalse hp =>
      split at h
      case isTrue => cases h
      case isFalse hs => exact ⟨hp, Option.isSome_iff_ne_none.mpr (by simpa using hs)⟩
  all_goals trivial

mutual

theorem visit_expr_allowed : (expr : Expression) → ∀ {t : Traversal} {names names' : Names},
    visit_expr ctx t expr names = .ok names' →
    expr.calls.Allowed t.definition.kind t.in_sync.isSome
  | .assignment this operation left right, t, names, names', h => by
    simp only [visit_expr] at h
    split at h
    case h_2 => cases h
    case h_1 =>
      simp only [Except.bind_eq_ok] at h
      obtain ⟨_, hl, hr⟩ := h
      have hl := visit_expr_allowed left hl
      have hr := visit_expr_allowed right hr
      simp only [Expression.calls, Calls.allowed_append]
      exact ⟨hl, hr⟩
  | .binding this bound_to bound_from, t, names, names', h => by
    simp only [visit_expr] at h
    split at h; · cases h
    split at h; · cases h
    split at h; · cases h
    simp only [Except.bind_eq_ok] at h
    obtain ⟨_, _, h⟩ := h
    simp only [Expression.calls, Calls.allowed_append]
    split at h
    case h_3 => cases h
    all_goals
      simp only [Except.bind_eq_ok] at h
      obtain ⟨_, hto, hfrom⟩ := h
      have hto := visit_expr_allowed _ hto
      have hfrom := visit_expr_allowed bound_from hfrom
      exact ⟨hto, hfrom⟩
  | .conditional this test t_expr f_expr, t, names, names', h => by
    simp only [visit_expr] at h
    split at h; · cases h
    simp only [Except.bind_eq_ok] at h
    obtain ⟨_, htest, _, ht, hf⟩ := h
    have htest := visit_expr_allowed test htest
    have ht := visit_expr_allowed t_expr ht
    have hf := visit_expr_allowed f_expr hf
    simp only [Expression.calls, Calls.allowed_append]
    exact ⟨htest, ht, hf⟩
  | .binary this operation left right, t, names, names', h => by
    simp only [visit_expr] at h
    split at h; · cases h
    simp only [Except.bind_eq_ok] at h
    obtain ⟨_, hl, hr⟩ := h
    have hl := visit_expr_allowed left hl
    have hr := visit_expr_allowed right hr
    simp only [Expression.calls, Calls.allowed_append]
    exact ⟨hl, hr⟩
  | .unary this operation expression, t, names, names', h => by
    simp only [visit_expr] at h
    split at h; · cases h
    have he := visit_expr_allowed expression h
    simp only [Expression.calls]
    exact he
  | .indexing this subject index, t, names, names', h => by
    simp only [visit_expr, Except.bind_eq_ok] at h
    obtain ⟨_, hl, hr⟩ := h
    have hl := visit_expr_allowed subject hl
    have hr := visit_expr_allowed index hr
    simp only [Expression.calls, Calls.allowed_append]
    exact ⟨hl, hr⟩
  | .slicing this subject from_index to_index, t, names, names', h => by
    simp only [visit_expr] at h
    split at h; · cases h
    simp only [Except.bind_eq_ok] at h
    obtain ⟨_, hs, _, hfrom, hto⟩ := h
    have hs := visit_expr_allowed subject hs
    have hfrom := visit_expr_allowed from_index hfrom
    have hto := visit_expr_allowed to_index hto
    simp only [Expression.calls, Calls.allowed_append]
    exact ⟨hs, hfrom, hto⟩
  | .select this subject field_name, t, names, names', h => by
    simp only [visit_expr] at h
    have hs := visit_expr_allowed subject h
    simp only [Expression.calls]
    exact hs
  | .literal this value values, t, names, names', h => by
    simp only [visit_expr] at h
    split at h; · cases h
    simp only [Except.bind_eq_ok] at h
    obtain ⟨_, _, h⟩ := h
    simp only [Expression.calls]
    exact visit_exprs_allowed values h
  | .cast this subject, t, names, names', h => by
    simp only [visit_expr] at h
    split at h; · cases h
    have hs := visit_expr_allowed subject h
    simp only [Expression.calls]
    exact hs
  | .call this method arguments definition, t, names, names', h => by
    simp only [visit_expr] at h
    split at h; · cases h
    simp only [Except.bind_eq_ok] at h
    obtain ⟨_, hm, _, _, _, _, h⟩ := h
    simp only [Expression.calls, Calls.allowed_cons]
    exact ⟨check_method_allowed hm, visit_exprs_allowed arguments h⟩
  | .variable .., _, _, _, _ => by simp [Expression.calls]

theorem visit_exprs_allowed : (exprs : List Expression) → ∀ {t : Traversal} {parent : Expression}
    {idx : Nat} {names names' : Names}, visit_exprs ctx t parent idx exprs names = .ok names' →
    (Expression.listCalls exprs).Allowed t.definition.kind t.in_sync.isSome
  | [], _, _, _, _, _, _ => by simp [Expression.listCalls]
  | expr :: exprs, t, parent, idx, names, names', h => by
    simp only [visit_exprs, Except.bind_eq_ok] at h
    obtain ⟨_, he, hes⟩ := h
    simp only [Expression.listCalls, Calls.allowed_append]
    exact ⟨(visit_expr_allowed expr he :), visit_exprs_allowed exprs hes⟩

end

theorem visit_expr_in_state_allowed {t : Traversal} {expr : Expression} {σ σ' : LinkState}
    {stack : ControlStack} (h : visit_expr_in_state ctx t expr σ = .ok σ')
    (hs : t.in_sync = stack.in_sync) :
    expr.calls.Allowed t.definition.kind stack.in_sync.isSome := by
  simp only [visit_expr_in_state, Except.bind_eq_ok] at h
  obtain ⟨names, h, _⟩ := h
  exact hs ▸ visit_expr_allowed expr h

mutual

theorem visit_stmt_checked : (stmt : Statement) → ∀ {t : Traversal} {σ σ' : LinkState}
    {stack : ControlStack} {label : Option Identifier}, visit_stmt ctx t stmt σ = .ok σ' →
    t.in_sync = stack.in_sync →
    stmt.Everywhere (Statement.Checked t.definition.kind) stack label
  | .block body, t, σ, σ', stack, label, h, hs => by
    simp only [Statement.Everywhere]
    exact visit_block_stmt_checked body h hs
  | .memory .., t, σ, σ', stack, label, h, hs | .channel .., t, σ, σ', stack, label, h, hs
  | .break .., t, σ, σ', stack, label, h, hs | .continue .., t, σ, σ', stack, label, h, hs
  | .goto .., t, σ, σ', stack, label, h, hs => by
    simp [Statement.Everywhere, Statement.Checked, Statement.calls]
  | .labeled this l body, t, σ, σ', stack, label, h, hs => by
    simp only [Statement.Everywhere]
    exact ⟨by simp [Statement.Checked, Statement.calls], visit_stmt_checked body h hs⟩
  | .if this test true_body false_body end_if, t, σ, σ', stack, label, h, hs => by
    simp only [visit_stmt, Except.bind_eq_ok] at h
    obtain ⟨_, htest, _, ht, _, hf, _⟩ := h
    have htest := visit_expr_in_state_allowed htest hs
    simp only [Statement.Everywhere]
    exact ⟨⟨htest, trivial⟩, visit_block_stmt_checked true_body ht hs,
      visit_false_body_checked false_body hf hs⟩
  | .while this test body end_while, t, σ, σ', stack, label, h, hs => by
    simp only [visit_stmt, Except.bind_eq_ok] at h
    obtain ⟨_, htest, _, hb, _⟩ := h
    have htest := visit_expr_in_state_allowed htest hs
    simp only [Statement.Everywhere]
    have hs' : t.in_sync = ControlStack.in_sync (.loop label this test body end_while :: stack) := hs
    exact ⟨⟨htest, trivial⟩, (visit_block_stmt_checked body hb hs' :)⟩
  | .synchronous this body end_sync, t, σ, σ', stack, label, h, hs => by
    simp only [visit_stmt] at h
    split at h; · cases h
    case isFalse hin =>
      split at h; · cases h
      case isFalse hp =>
        simp only [Except.bind_eq_ok] at h
        obtain ⟨_, hb, _⟩ := h
        have hnone : stack.in_sync = none := hs ▸ Option.not_isSome_iff_eq_none.mp hin
        simp only [Statement.Everywhere]
        have hs' : some this = ControlStack.in_sync (.sync this body end_sync :: stack) := rfl
        exact ⟨⟨by simp [Statement.calls], not_not.mp hp, hnone⟩,
          (visit_block_stmt_checked body hb hs' :)⟩
  | .return this expression, t, σ, σ', stack, label, h, hs => by
    simp only [visit_stmt] at h
    split at h; · cases h
    case isFalse hf =>
      simp only [Statement.Everywhere]
      have ha := visit_expr_in_state_allowed h hs
      exact ⟨ha, not_not.mp hf⟩
  | .new this call method arguments definition, t, σ, σ', stack, label, h, hs => by
    simp only [visit_stmt] at h
    split at h; · cases h
    case isFalse hc =>
      simp only [Except.bind_eq_ok] at h
      obtain ⟨names, h, _⟩ := h
      have ha := visit_expr_allowed _ h
      simp only [Expression.calls, Calls.allowed_cons] at ha
      simp only [Statement.Everywhere]
      exact ⟨hs ▸ ha.2, not_not.mp hc⟩
  | .expression this expression, t, σ, σ', stack, label, h, hs => by
    simp only [visit_stmt] at h
    simp only [Statement.Everywhere]
    have ha := visit_expr_in_state_allowed h hs
    exact ⟨ha, trivial⟩

theorem visit_block_stmt_checked : (body : BlockStatement) → ∀ {t : Traversal} {σ σ' : LinkState}
    {stack : ControlStack}, visit_block_stmt ctx t body σ = .ok σ' → t.in_sync = stack.in_sync →
    body.Everywhere (Statement.Checked t.definition.kind) stack
  | ⟨this, statements, end_block⟩, t, σ, σ', stack, h, hs => by
    simp only [visit_block_stmt, Except.bind_eq_ok] at h
    obtain ⟨_, _, _, h, _⟩ := h
    simp only [BlockOf.Everywhere]
    exact ⟨by simp [Statement.Checked, Statement.calls], (visit_stmts_checked statements h hs :)⟩

theorem visit_stmts_checked {body : BlockStatement} : (stmts : List Statement) →
    ∀ {t : Traversal} {σ σ' : LinkState} {stack : ControlStack} {pos : Nat},
    visit_stmts ctx t pos stmts σ = .ok σ' → t.in_sync = stack.in_sync →
    Statement.ListEverywhere (Statement.Checked t.definition.kind) body stack stmts
  | [], _, _, _, _, _, _, _ => by simp [Statement.ListEverywhere]
  | stmt :: stmts, t, σ, σ', stack, pos, h, hs => by
    simp only [visit_stmts, Except.bind_eq_ok] at h
    obtain ⟨_, h, ht⟩ := h
    simp only [Statement.ListEverywhere]
    have hs' : t.in_sync = ControlStack.in_sync (.block body stmts :: stack) := hs
    exact ⟨(visit_stmt_checked stmt h hs' :), visit_stmts_checked stmts ht hs⟩

theorem visit_false_body_checked {end_if : StatementId} : (body : Option BlockStatement) →
    ∀ {t : Traversal} {σ σ' : LinkState} {stack : ControlStack},
    visit_false_body ctx t end_if body σ = .ok σ' → t.in_sync = stack.in_sync →
    BlockOf.OptionEverywhere (Statement.Checked t.definition.kind) stack body
  | none, _, _, _, _, _, _ => by simp [BlockOf.OptionEverywhere]
  | some body, t, σ, σ', stack, h, hs => by
    simp only [visit_false_body, Except.bind_eq_ok] at h
    obtain ⟨_, h, _⟩ := h
    simp only [BlockOf.OptionEverywhere]
    exact visit_block_stmt_checked body h hs

end

theorem visit_module_checked {definitions : List Definition} {heap heap' : Heap}
    (h : visit_module ctx definitions heap = .ok heap') :
    ∀ definition ∈ definitions, definition.body.Everywhere (Statement.Checked definition.kind) [] := by
  induction definitions generalizing heap
  case nil =>
    intro definition hm
    cases hm
  case cons definition definitions ih =>
    simp only [visit_module, Except.bind_eq_ok] at h
    obtain ⟨heap₁, h₁, h₂⟩ := h
    simp only [visit_definition, Except.bind_eq_ok] at h₁
    obtain ⟨σ', h₁, _⟩ := h₁
    intro definition' hm
    cases List.mem_cons.mp hm
    case inl hm =>
      subst hm
      exact visit_block_stmt_checked _ h₁ rfl
    case inr hm => exact ih h₂ definition' hm

end Reowolf
