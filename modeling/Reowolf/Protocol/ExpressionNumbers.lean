import Reowolf.Protocol.ExpressionNodes
import Reowolf.Protocol.LinkingTraversal
import Reowolf.Protocol.Program

namespace Reowolf

-- What the pass writes into expressions for an expression and what refers to it.
def ExpressionNode.entry (node : ExpressionNode) : ExpressionId × ExpressionParent :=
  (node.1.this, node.2)

def Names.numbering (names : Names) : SerialNumbering ExpressionId ExpressionParent where
  next       := names.next_expr_index
  entries id := ((names.expressions id).parent, (names.expressions id).unique_id_in_definition)

section

variable {ctx : LinkCtx} {t : Traversal} {names names' : Names} {expr : Expression} {id : ExpressionId}
variable {parent : ExpressionParent}

namespace Names

theorem numbering_number : (names.number id parent).numbering = names.numbering.assign (id, parent) := by
  refine congrArg (SerialNumbering.mk _) (funext fun id' => ?_)
  by_cases h : id' = id
  · subst h
    simp only [number, Function.update_self]
    rfl
  · simp only [number, numbering, Function.update_of_ne h]

theorem numbering_update {data : ExpressionData} (hp : data.parent = (names.expressions id).parent)
    (hn : data.unique_id_in_definition = (names.expressions id).unique_id_in_definition) :
    { names with expressions := Function.update names.expressions id data : Names }.numbering =
      names.numbering := by
  refine congrArg (SerialNumbering.mk _) (funext fun id' => ?_)
  by_cases h : id' = id
  · subst h
    simp only [Function.update_self, hp, hn]
  · simp only [Function.update_of_ne h]

theorem numbering_set_declaration {declaration : VariableId} {used_as_binding_target : Bool} :
    (names.set_declaration id declaration used_as_binding_target).numbering = names.numbering :=
  numbering_update rfl rfl

theorem numbering_add_local {block : StatementId} {pos : Nat} {var : VariableId} :
    (names.add_local block pos var).numbering = names.numbering :=
  rfl

end Names

theorem check_literal_numbering {num_values : Nat} {value : Literal}
    (h : check_literal ctx id num_values names value = .ok names') :
    names'.numbering = names.numbering := by
  cases value with
  | struct definition fields =>
    simp only [check_literal] at h
    split at h
    case h_2 => cases h
    case h_1 =>
      simp only [Except.bind_eq_ok] at h
      obtain ⟨_, _, h⟩ := h
      cases h
      exact Names.numbering_update rfl rfl
  | enum definition variant_name =>
    simp only [check_literal] at h
    split at h
    case h_2 => cases h
    case h_1 =>
      split at h <;> cases h
      exact Names.numbering_update rfl rfl
  | union definition variant_name =>
    simp only [check_literal] at h
    split at h
    case h_2 => cases h
    case h_1 =>
      split at h
      case h_1 => cases h
      case h_2 =>
        split at h <;> cases h
        exact Names.numbering_update rfl rfl
  | _ =>
    cases h
    rfl

theorem Expression.Proceeds.numbering (h : expr.Proceeds ctx t names names') :
    names'.numbering = names.numbering.assign (expr.this, t.expr_parent) := by
  cases expr with
  | assignment | conditional | binary | unary | slicing | cast => exact h.2 ▸ Names.numbering_number
  | binding => exact h.2.2.2.2.2 ▸ Names.numbering_number
  | indexing | select => exact Eq.symm h ▸ Names.numbering_number
  | literal => exact (check_literal_numbering h.2).trans Names.numbering_number
  | call => exact h.2.2.2.2 ▸ Names.numbering_number
  | «variable» => cases h

theorem visit_variable_expr_numbering {identifier : Identifier}
    (h : visit_variable_expr ctx t id identifier names = .ok names') :
    names'.numbering = names.numbering.assign (id, t.expr_parent) := by
  simp only [visit_variable_expr] at h
  split at h
  case h_1 =>
    cases h
    rw [Names.numbering_number, Names.numbering_set_declaration]
  case h_2 =>
    split at h; · cases h
    split at h; · cases h
    split at h
    case h_1 => cases h
    case h_2 =>
      simp only [Except.bind_eq_ok, checked_at_single_scope_add_local_eq] at h
      obtain ⟨names₁, ⟨_, _, h₁⟩, h₂⟩ := h
      cases h₂
      subst h₁
      rw [Names.numbering_number, Names.numbering_set_declaration, Names.numbering_add_local]
      rfl

theorem Traversal.descend_expr_parent {idx : Nat} :
    (t.descend expr idx).expr_parent = .expression expr idx t.expr_parent := by
  cases expr with
  | indexing => cases idx <;> rfl
  | _ => rfl

theorem visit_children_numbering {children : List Expression} {idx : Nat}
    (ih : ∀ child ∈ children, ∀ {t : Traversal} {names names' : Names},
      visit_expr ctx t child names = .ok names' →
      names'.numbering =
        names.numbering.assignAll ((child.nodes t.expr_parent).map ExpressionNode.entry))
    (h : visit_children ctx t expr idx children names = .ok names') :
    names'.numbering = names.numbering.assignAll
      ((Expression.listNodes expr t.expr_parent idx children).map ExpressionNode.entry) := by
  induction children generalizing idx names with
  | nil =>
    cases h
    rfl
  | cons child children ih' =>
    simp only [visit_children, Except.bind_eq_ok] at h
    obtain ⟨names₁, h₁, h₂⟩ := h
    rw [ih' (fun c hc => ih c (.tail _ hc)) h₂, ih child (.head _) h₁, Traversal.descend_expr_parent,
      Expression.listNodes, List.map_append, SerialNumbering.assignAll_append]

-- The pass numbers an expression and everything below it in the order of its visits.
theorem visit_expr_numbering (h : visit_expr ctx t expr names = .ok names') :
    names'.numbering =
      names.numbering.assignAll ((expr.nodes t.expr_parent).map ExpressionNode.entry) := by
  induction expr using Expression.children_induction generalizing t names names' with
  | h expr ih =>
    by_cases hv : ∃ this identifier, expr = .variable this identifier
    case pos =>
      obtain ⟨this, identifier, he⟩ := hv
      subst he
      exact visit_variable_expr_numbering h
    case neg =>
      obtain ⟨names₁, hp, hc⟩ := visit_expr_children h fun this identifier he => hv ⟨_, _, he⟩
      rw [visit_children_numbering (fun child hm _ _ _ h => ih child hm h) hc, hp.numbering,
        Expression.nodes_eq]
      rfl

end

-- The pass has numbered expressions of a procedure. Only a function may return one.
structure LinkState.Numbers (kind : DefinitionKind) (nodes : List ExpressionNode)
    (σ σ' : LinkState) : Prop where
  numbering       : σ'.names.numbering =
    σ.names.numbering.assignAll (nodes.map ExpressionNode.entry)
  num_expressions : σ'.num_expressions_in_body = σ.num_expressions_in_body
  returns         : ∀ node ∈ nodes, ∀ stmt, node.2 = .return stmt → kind = .function

namespace LinkState.Numbers

variable {kind : DefinitionKind} {nodes nodes₁ nodes₂ : List ExpressionNode} {σ σ₁ σ₂ : LinkState}

theorem of_eq (hn : σ₁.names.numbering = σ.names.numbering)
    (he : σ₁.num_expressions_in_body = σ.num_expressions_in_body) : Numbers kind [] σ σ₁ where
  numbering       := hn
  num_expressions := he
  returns _ hm    := by cases hm

theorem trans (h₁ : Numbers kind nodes₁ σ σ₁) (h₂ : Numbers kind nodes₂ σ₁ σ₂) :
    Numbers kind (nodes₁ ++ nodes₂) σ σ₂ where
  numbering       := by
    rw [h₂.numbering, h₁.numbering, List.map_append, SerialNumbering.assignAll_append]
  num_expressions := h₂.num_expressions.trans h₁.num_expressions
  returns node hm := by
    obtain hm | hm := List.mem_append.mp hm
    · exact h₁.returns node hm
    · exact h₂.returns node hm

theorem after (h : Numbers kind nodes σ₁ σ₂) (hl : Numbers kind [] σ σ₁) : Numbers kind nodes σ σ₂ :=
  hl.trans h

theorem before (h : Numbers kind nodes σ σ₁) (hl : Numbers kind [] σ₁ σ₂) : Numbers kind nodes σ σ₂ :=
  List.append_nil nodes ▸ h.trans hl

theorem erase {stmt : StatementId} : Numbers kind [] σ (σ.assign_then_erase_next_stmt stmt) := by
  simp only [assign_then_erase_next_stmt]
  split <;> exact of_eq rfl rfl

theorem replace {stmt : StatementId} : Numbers kind [] σ (σ.assign_and_replace_next_stmt stmt) := by
  simp only [assign_and_replace_next_stmt]
  split <;> exact of_eq rfl rfl

end LinkState.Numbers

section

variable {ctx : LinkCtx} {t : Traversal} {σ σ' : LinkState}

theorem Expression.return_of_mem_nodes {expr : Expression} {parent : ExpressionParent}
    {node : ExpressionNode} {stmt : StatementId} (h : node ∈ expr.nodes parent)
    (hr : node.2 = .return stmt) : parent = .return stmt := by
  obtain ⟨node', hbelow, hm⟩ := @TreeListing.below_of_mem _ _ ExpressionNode.listing (expr, parent) _ h
  cases List.mem_singleton.mp hm
  cases hbelow with
  | refl => exact hr
  | tail _ hc =>
    obtain ⟨i, hi, he⟩ := List.mem_mapIdx.mp hc
    subst he
    cases hr

theorem visit_expr_in_state_numbers {expr : Expression}
    (hr : ∀ stmt, t.expr_parent = .return stmt → t.is_function)
    (h : visit_expr_in_state ctx t expr σ = .ok σ') :
    LinkState.Numbers t.definition.kind (expr.nodes t.expr_parent) σ σ' := by
  simp only [visit_expr_in_state, Except.bind_eq_ok] at h
  obtain ⟨names, hv, h⟩ := h
  cases h
  exact {
    numbering            := visit_expr_numbering hv
    num_expressions      := rfl
    returns _ hm stmt he := hr stmt (Expression.return_of_mem_nodes hm he) }

theorem add_local_to_state_numbers {kind : DefinitionKind} {pos : Nat} {id : VariableId}
    (h : add_local_to_state ctx t pos id σ = .ok σ') : LinkState.Numbers kind [] σ σ' := by
  simp only [add_local_to_state, Except.bind_eq_ok] at h
  obtain ⟨names, hv, h⟩ := h
  cases h
  simp only [checked_add_local] at hv
  split at hv
  case h_1 => cases hv
  case h_2 =>
    simp only [Except.bind_eq_ok, checked_at_single_scope_add_local_eq] at hv
    obtain ⟨_, _, _, _, he⟩ := hv
    subst he
    exact .of_eq rfl rfl

theorem checked_add_label_numbers {kind : DefinitionKind} {pos : Nat} {this : StatementId}
    {label : Identifier} {body : Statement} (h : checked_add_label t pos this label body σ = .ok σ') :
    LinkState.Numbers kind [] σ σ' := by
  simp only [checked_add_label] at h
  split at h
  case isTrue => cases h
  case isFalse =>
    split at h <;> cases h
    exact .of_eq rfl rfl

theorem visit_statement_for_locals_numbers {kind : DefinitionKind} {pos : Nat} (stmt : Statement)
    {σ σ' : LinkState} (h : visit_statement_for_locals_labels_and_in_sync ctx t pos stmt σ = .ok σ') :
    LinkState.Numbers kind [] σ σ' := by
  cases stmt with
  | memory this id => exact add_local_to_state_numbers h
  | channel this from_id to_id =>
    simp only [visit_statement_for_locals_labels_and_in_sync, Except.bind_eq_ok] at h
    obtain ⟨σ₁, h₁, h₂⟩ := h
    exact (add_local_to_state_numbers h₁).trans (add_local_to_state_numbers h₂)
  | labeled this label body =>
    simp only [visit_statement_for_locals_labels_and_in_sync, Except.bind_eq_ok] at h
    obtain ⟨σ₁, h₁, h₂⟩ := h
    exact (checked_add_label_numbers h₁).trans (visit_statement_for_locals_numbers body h₂)
  | _ =>
    cases h
    exact .of_eq rfl rfl

theorem visit_statements_for_locals_numbers {kind : DefinitionKind} {pos : Nat} {stmts : List Statement}
    (h : visit_statements_for_locals_labels_and_in_sync ctx t pos stmts σ = .ok σ') :
    LinkState.Numbers kind [] σ σ' := by
  induction stmts generalizing pos σ with
  | nil =>
    cases h
    exact .of_eq rfl rfl
  | cons stmt stmts ih =>
    simp only [visit_statements_for_locals_labels_and_in_sync, Except.bind_eq_ok] at h
    obtain ⟨σ₁, h₁, h₂⟩ := h
    exact (visit_statement_for_locals_numbers stmt h₁).trans (ih h₂)

end

mutual

theorem visit_stmt_numbers {ctx : LinkCtx} : (stmt : Statement) → ∀ {t : Traversal} {σ σ' : LinkState},
    visit_stmt ctx t stmt σ = .ok σ' →
    LinkState.Numbers t.definition.kind stmt.expressions σ σ'
  | .block body, t, σ, σ', h => by
    simp only [visit_stmt] at h
    exact visit_block_stmt_numbers body h
  | .memory .., t, σ, σ', h | .channel .., t, σ, σ', h => by
    cases h
    exact .replace
  | .labeled _ _ body, t, σ, σ', h => by
    simp only [visit_stmt] at h
    exact visit_stmt_numbers body h
  | .if this test true_body false_body end_if, t, σ, σ', h => by
    simp only [visit_stmt, Except.bind_eq_ok] at h
    obtain ⟨σ₁, htest, σ₂, htrue, σ₃, hfalse, h⟩ := h
    cases h
    have htest := visit_expr_in_state_numbers (fun _ he => by cases he) htest
    have htrue := (visit_block_stmt_numbers true_body htrue).after .erase
    have hfalse := (visit_false_body_numbers false_body hfalse).after .erase
    exact (htest.trans (htrue.trans hfalse)).before (.of_eq rfl rfl)
  | .while this test body end_while, t, σ, σ', h => by
    simp only [visit_stmt, Except.bind_eq_ok] at h
    obtain ⟨σ₁, htest, σ₂, hbody, h⟩ := h
    cases h
    have htest := visit_expr_in_state_numbers (fun _ he => by cases he) htest
    have hbody := (visit_block_stmt_numbers body hbody).after .erase
    exact (htest.trans hbody).before (LinkState.Numbers.erase.trans (.of_eq rfl rfl))
  | .break this label, t, σ, σ', h | .continue this label, t, σ, σ', h => by
    simp only [visit_stmt, Except.bind_eq_ok] at h
    obtain ⟨_, _, h⟩ := h
    cases h
    exact LinkState.Numbers.erase.trans (.of_eq rfl rfl)
  | .synchronous this body end_sync, t, σ, σ', h => by
    simp only [visit_stmt] at h
    split at h; · cases h
    split at h; · cases h
    simp only [Except.bind_eq_ok] at h
    obtain ⟨σ₁, hbody, h⟩ := h
    cases h
    exact ((visit_block_stmt_numbers body hbody).after .erase).before .replace
  | .return this expression, t, σ, σ', h => by
    simp only [visit_stmt] at h
    split at h; · cases h
    rename_i hf
    refine LinkState.Numbers.after (visit_expr_in_state_numbers ?_ h) .erase
    exact fun _ _ => of_not_not hf
  | .goto this label, t, σ, σ', h => by
    simp only [visit_stmt, Except.bind_eq_ok] at h
    obtain ⟨target, _, h⟩ := h
    split at h <;> cases h
    exact .after .erase (.of_eq rfl rfl)
  | .new this call method arguments definition, t, σ, σ', h => by
    simp only [visit_stmt] at h
    split at h; · cases h
    exact (visit_expr_in_state_numbers (fun _ he => by cases he) h).after .replace
  | .expression this expression, t, σ, σ', h => by
    simp only [visit_stmt] at h
    exact (visit_expr_in_state_numbers (fun _ he => by cases he) h).after .replace

theorem visit_block_stmt_numbers {ctx : LinkCtx} : (body : BlockStatement) →
    ∀ {t : Traversal} {σ σ' : LinkState}, visit_block_stmt ctx t body σ = .ok σ' →
    LinkState.Numbers t.definition.kind (BlockOf.expressions body) σ σ'
  | ⟨this, statements, end_block⟩, t, σ, σ', h => by
    simp only [visit_block_stmt, Except.bind_eq_ok] at h
    obtain ⟨σ₁, hlocals, σ₂, hstmts, h⟩ := h
    cases h
    have hstmts := (visit_stmts_numbers statements hstmts).after .replace
    exact (hstmts.after (visit_statements_for_locals_numbers hlocals)).before .replace

theorem visit_stmts_numbers {ctx : LinkCtx} : (stmts : List Statement) →
    ∀ {t : Traversal} {pos : Nat} {σ σ' : LinkState}, visit_stmts ctx t pos stmts σ = .ok σ' →
    LinkState.Numbers t.definition.kind (Statement.listExpressions stmts) σ σ'
  | [], t, pos, σ, σ', h => by
    cases h
    exact .of_eq rfl rfl
  | stmt :: stmts, t, pos, σ, σ', h => by
    simp only [visit_stmts, Except.bind_eq_ok] at h
    obtain ⟨σ₁, h₁, h₂⟩ := h
    have hstmt := visit_stmt_numbers stmt h₁
    have hstmts := visit_stmts_numbers stmts h₂
    exact hstmt.trans hstmts

theorem visit_false_body_numbers {ctx : LinkCtx} : (body : Option BlockStatement) →
    ∀ {t : Traversal} {end_if : StatementId} {σ σ' : LinkState},
    visit_false_body ctx t end_if body σ = .ok σ' →
    LinkState.Numbers t.definition.kind (BlockOf.optionExpressions body) σ σ'
  | none, t, end_if, σ, σ', h => by
    cases h
    exact .of_eq rfl rfl
  | some body, t, end_if, σ, σ', h => by
    simp only [visit_false_body, Except.bind_eq_ok] at h
    obtain ⟨σ₁, hbody, h⟩ := h
    cases h
    exact (visit_block_stmt_numbers body hbody).before .erase

end

-- The numbers that the pass gives to the expressions, and how many it says there are.
def Heap.expression_numbers (heap : Heap) :
    SerialNumbering ExpressionId ExpressionParent × (DefinitionId → Nat) :=
  (heap.names.numbering, heap.num_expressions_in_body)

theorem Heap.expression_numbers_kept : Heap.KeptByIds Heap.expression_numbers :=
  ⟨fun _ _ _ => rfl, fun _ _ => rfl, fun _ _ => rfl⟩

def Definition.expression_ids (definition : Definition) : List ExpressionId :=
  (BlockOf.expressions definition.body).map (·.1.this)

-- The expressions of a procedure have the numbers up to the one recorded for the procedure, and their
-- parents are what refers to them.
structure Heap.Numbered (heap : Heap) (definition : Definition) : Prop where
  unique_id : Set.BijOn (fun expr => (heap.names.expressions expr.this).unique_id_in_definition)
    {expr | ∃ parent, definition.body.Refers (expr, parent)}
    (Set.Ico 0 (heap.num_expressions_in_body definition.this))
  parent    : ∀ node, definition.body.Refers node →
    (heap.names.expressions node.1.this).parent = node.2
  returns   : ∀ node, definition.body.Refers node → ∀ stmt, node.2 = .return stmt →
    definition.kind = .function

section

variable {ctx : LinkCtx} {definition : Definition} {definitions : List Definition} {heap heap' : Heap}

theorem Definition.entries_fst :
    ((BlockOf.expressions definition.body).map ExpressionNode.entry).map Prod.fst =
      definition.expression_ids :=
  List.map_map

theorem Definition.mem_expression_ids {node : ExpressionNode} (h : definition.body.Refers node) :
    node.1.this ∈ definition.expression_ids :=
  List.mem_map_of_mem (BlockOf.mem_expressions.mpr h)

theorem Definition.this_bijOn (hn : definition.expression_ids.Nodup) :
    Set.BijOn Expression.this {expr | ∃ parent, definition.body.Refers (expr, parent)}
      {id | id ∈ definition.expression_ids} := by
  refine ⟨?_, ?_, ?_⟩
  · rintro expr ⟨parent, hr⟩
    exact Definition.mem_expression_ids hr
  · rintro expr ⟨parent, hr⟩ expr' ⟨parent', hr'⟩ he
    have hmem  := BlockOf.mem_expressions.mpr hr
    have hmem' := BlockOf.mem_expressions.mpr hr'
    exact congrArg Prod.fst (List.inj_on_of_nodup_map hn hmem hmem' he)
  · intro id hid
    obtain ⟨⟨expr, parent⟩, hmem, he⟩ := List.mem_map.mp hid
    exact ⟨expr, ⟨parent, BlockOf.mem_expressions.mp hmem⟩, he⟩

-- What visiting a procedure does to the numbers.
theorem visit_definition_numbers (h : visit_definition ctx definition heap = .ok heap') :
    heap'.names.numbering = SerialNumbering.assignAll { heap.names.numbering with next := 0 }
      ((BlockOf.expressions definition.body).map ExpressionNode.entry) ∧
    heap'.num_expressions_in_body =
      Function.update heap.num_expressions_in_body definition.this heap'.names.numbering.next ∧
    ∀ node ∈ BlockOf.expressions definition.body, ∀ stmt, node.2 = .return stmt →
      definition.kind = .function := by
  simp only [visit_definition, Except.bind_eq_ok] at h
  obtain ⟨σ, hv, h⟩ := h
  cases h
  have hbody := visit_block_stmt_numbers definition.body hv
  have hparameters :=
    @assign_parameter_ids_keeps _ _ Heap.expression_numbers_kept definition.parameters 0 heap
  have hlocals := visit_definition_and_assign_local_ids_keeps Heap.expression_numbers_kept definition
    { σ.toHeap with num_expressions_in_body :=
        Function.update σ.num_expressions_in_body definition.this σ.names.next_expr_index }
  simp only [Heap.expression_numbers, Prod.mk.injEq] at hparameters hlocals
  refine ⟨?_, ?_, hbody.returns⟩
  · rw [hlocals.1]
    refine hbody.numbering.trans (congrArg (SerialNumbering.assignAll · _) ?_)
    rw [← hparameters.1]
    rfl
  · rw [hlocals.2, hlocals.1, hbody.num_expressions, ← hparameters.2]
    rfl

theorem Heap.Numbered.visit_definition (hn : definition.expression_ids.Nodup)
    (h : visit_definition ctx definition heap = .ok heap') : heap'.Numbered definition := by
  obtain ⟨hnumbering, hnum, hreturns⟩ := visit_definition_numbers h
  have hn' := hn
  rw [← Definition.entries_fst] at hn'
  exact {
    unique_id := by
      have hbij := @SerialNumbering.bijOn _ _ _ { heap.names.numbering with next := 0 } _ hn'
      rw [← hnumbering, Definition.entries_fst] at hbij
      rw [hnum, Function.update_self]
      exact hbij.comp (Definition.this_bijOn hn)
    parent node hr := by
      have hmem : node.entry ∈ (BlockOf.expressions definition.body).map ExpressionNode.entry :=
        List.mem_map_of_mem (BlockOf.mem_expressions.mpr hr)
      have hmark := @SerialNumbering.mark_of_mem _ _ _ { heap.names.numbering with next := 0 } _ _ _ hn' hmem
      rwa [← hnumbering] at hmark
    returns node hr := hreturns node (BlockOf.mem_expressions.mpr hr) }

-- The numbers of a procedure are kept when those of other procedures are written.
theorem Heap.Numbered.of_eq (h : heap.Numbered definition)
    (he : ∀ id ∈ definition.expression_ids,
      heap'.names.numbering.entries id = heap.names.numbering.entries id)
    (hnum : heap'.num_expressions_in_body definition.this =
      heap.num_expressions_in_body definition.this) :
    heap'.Numbered definition where
  unique_id := by
    rw [hnum]
    refine h.unique_id.congr ?_
    rintro expr ⟨parent, hr⟩
    have := he expr.this (Definition.mem_expression_ids hr)
    exact (congrArg Prod.snd this).symm
  parent node hr := by
    rw [← h.parent node hr]
    exact congrArg Prod.fst (he node.1.this (Definition.mem_expression_ids hr))
  returns := h.returns

theorem visit_module_numbers (hn : (definitions.flatMap Definition.expression_ids).Nodup)
    (hd : (definitions.map Definition.this).Nodup)
    (h : visit_module ctx definitions heap = .ok heap') :
    (∀ id ∉ definitions.flatMap Definition.expression_ids,
      heap'.names.numbering.entries id = heap.names.numbering.entries id) ∧
    (∀ id ∉ definitions.map Definition.this,
      heap'.num_expressions_in_body id = heap.num_expressions_in_body id) ∧
    ∀ definition ∈ definitions, heap'.Numbered definition := by
  induction definitions generalizing heap with
  | nil =>
    cases h
    exact ⟨fun _ _ => rfl, fun _ _ => rfl, fun _ hm => by cases hm⟩
  | cons definition definitions ih =>
    simp only [visit_module, Except.bind_eq_ok] at h
    obtain ⟨heap₁, h₁, h₂⟩ := h
    simp only [List.flatMap_cons, List.nodup_append'] at hn
    obtain ⟨hnew, hd⟩ := List.nodup_cons.mp hd
    obtain ⟨hentries, hnums, hnumbered⟩ := ih hn.2.1 hd h₂
    obtain ⟨hnumbering, hnum, _⟩ := visit_definition_numbers h₁
    refine ⟨?_, ?_, ?_⟩
    · intro id hi
      simp only [List.flatMap_cons, List.mem_append, not_or] at hi
      rw [hentries id hi.2, hnumbering, SerialNumbering.entries_of_not_mem]
      exact Definition.entries_fst ▸ hi.1
    · intro id hi
      simp only [List.map_cons, List.mem_cons, not_or] at hi
      rw [hnums id hi.2, hnum, Function.update_of_ne hi.1]
    · intro definition' hm
      obtain hm | hm := List.mem_cons.mp hm
      · subst hm
        exact (Heap.Numbered.visit_definition hn.1 h₁).of_eq
          (fun id hi => hentries id fun hm => hn.2.2 hi hm) (hnums _ hnew)
      · exact hnumbered definition' hm

end

end Reowolf
