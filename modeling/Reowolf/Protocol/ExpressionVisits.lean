import Reowolf.Library.Machine
import Reowolf.Protocol.Linking

theorem List.modify_concat {α : Type*} (l : List α) (a : α) (f : α → α) :
    (l ++ [a]).modify l.length f = l ++ [f a] := by
  induction l
  case nil => rfl
  case cons b l ih => simp only [List.cons_append, List.length_cons, List.modify_succ_cons, ih]

namespace Reowolf

-- The traversal state for the child with the given index of an expression.
def Traversal.descend (t : Traversal) (expr : Expression) (idx : Nat) : Traversal :=
  match expr with
  | .assignment .. => { t.child expr idx with must_be_assignable := idx = 0 }
  | .binding this .. =>
    { t.child expr idx with in_binding_expr := some this, in_binding_expr_lhs := idx = 0 }
  | .indexing .. =>
    if idx = 0 then t.child expr idx else { t.child expr idx with must_be_assignable := false }
  | _ => t.child expr idx

-- The checks that let the pass go on to the children of an expression, and what it has recorded then.
def Expression.Proceeds (ctx : LinkCtx) (t : Traversal) (names names' : Names) : Expression → Prop
  | .assignment this .. =>
    (∃ stmt, t.expr_parent = .expressionStmt stmt) ∧ names' = names.number this t.expr_parent
  | .binding this bound_to _ =>
    ¬t.must_be_assignable ∧ t.in_test_expr.isSome ∧ t.in_binding_expr = none ∧
      check_binding_parents t.expr_parent = .ok () ∧
      (match bound_to with | .variable .. | .literal .. => True | _ => False) ∧
      names' = names.number this t.expr_parent
  | .conditional this .. | .binary this .. | .unary this .. | .slicing this .. | .cast this .. =>
    ¬t.must_be_assignable ∧ names' = names.number this t.expr_parent
  | .indexing this .. | .select this .. => names' = names.number this t.expr_parent
  | .literal this value values =>
    ¬t.must_be_assignable ∧
      check_literal ctx this values.length (names.number this t.expr_parent) value = .ok names'
  | .call this method arguments definition =>
    ¬t.must_be_assignable ∧ check_method t method = .ok () ∧ check_new t method = .ok () ∧
      check_num_arguments ctx definition arguments.length = .ok () ∧
      names' = names.number this t.expr_parent
  | .variable .. => False

-- The visit of the children of an expression from the given index on.
def visit_children (ctx : LinkCtx) (t : Traversal) (expr : Expression) (idx : Nat) :
    List Expression → Names → Except LinkError Names
  | [], names => .ok names
  | child :: children, names => do
    let names ← visit_expr ctx (t.descend expr idx) child names
    visit_children ctx t expr (idx + 1) children names

section

variable {ctx : LinkCtx} {t : Traversal} {expr : Expression} {names names' : Names}

theorem visit_exprs_eq (exprs : List Expression) (idx : Nat) (names : Names)
    (h : ∀ i, t.descend expr i = t.child expr i) :
    visit_exprs ctx t expr idx exprs names = visit_children ctx t expr idx exprs names := by
  induction exprs generalizing idx names
  case nil => rfl
  case cons child children ih =>
    simp only [visit_exprs, visit_children, h, ih]

-- A visit of an expression with children makes the checks and then visits the children.
theorem visit_expr_children (h : visit_expr ctx t expr names = .ok names')
    (hv : ∀ this identifier, expr ≠ .variable this identifier) :
    ∃ names₁, expr.Proceeds ctx t names names₁ ∧
      visit_children ctx t expr 0 expr.children names₁ = .ok names' := by
  cases expr
  case «variable» this identifier => exact absurd rfl (hv this identifier)
  case assignment this operation left right =>
    simp only [visit_expr] at h
    split at h
    case h_2 => cases h
    case h_1 stmt he =>
      simp only [Except.bind_eq_ok] at h
      obtain ⟨names₁, hl, hr⟩ := h
      refine ⟨_, ⟨⟨stmt, he⟩, rfl⟩, ?_⟩
      simp only [visit_children, Expression.children, Except.bind_eq_ok]
      exact ⟨names₁, hl, _, hr, rfl⟩
  case binding this bound_to bound_from =>
    simp only [visit_expr] at h
    split at h; · cases h
    rename_i hm
    split at h; · cases h
    rename_i ht
    split at h; · cases h
    rename_i hb
    simp only [Except.bind_eq_ok] at h
    obtain ⟨_, hp, h⟩ := h
    have ht : t.in_test_expr.isSome := by simpa [Option.isSome_iff_ne_none] using ht
    have hb : t.in_binding_expr = none := by simpa using hb
    split at h
    case h_3 => cases h
    all_goals
      simp only [Except.bind_eq_ok] at h
      obtain ⟨names₁, hl, hr⟩ := h
      refine ⟨_, ⟨hm, ht, hb, hp, trivial, rfl⟩, ?_⟩
      simp only [visit_children, Expression.children, Except.bind_eq_ok]
      exact ⟨names₁, hl, _, hr, rfl⟩
  case conditional | slicing =>
    simp only [visit_expr] at h
    split at h; · cases h
    rename_i hm
    simp only [Except.bind_eq_ok] at h
    obtain ⟨names₁, h₁, names₂, h₂, h₃⟩ := h
    refine ⟨_, ⟨hm, rfl⟩, ?_⟩
    simp only [visit_children, Expression.children, Except.bind_eq_ok]
    exact ⟨names₁, h₁, names₂, h₂, _, h₃, rfl⟩
  case binary =>
    simp only [visit_expr] at h
    split at h; · cases h
    rename_i hm
    simp only [Except.bind_eq_ok] at h
    obtain ⟨names₁, hl, hr⟩ := h
    refine ⟨_, ⟨hm, rfl⟩, ?_⟩
    simp only [visit_children, Expression.children, Except.bind_eq_ok]
    exact ⟨names₁, hl, _, hr, rfl⟩
  case unary | cast =>
    simp only [visit_expr] at h
    split at h; · cases h
    rename_i hm
    refine ⟨_, ⟨hm, rfl⟩, ?_⟩
    simp only [visit_children, Expression.children, Except.bind_eq_ok]
    exact ⟨_, h, rfl⟩
  case indexing =>
    simp only [visit_expr, Except.bind_eq_ok] at h
    obtain ⟨names₁, hl, hr⟩ := h
    refine ⟨_, rfl, ?_⟩
    simp only [visit_children, Expression.children, Except.bind_eq_ok]
    exact ⟨names₁, hl, _, hr, rfl⟩
  case select =>
    simp only [visit_expr] at h
    refine ⟨_, rfl, ?_⟩
    simp only [visit_children, Expression.children, Except.bind_eq_ok]
    exact ⟨_, h, rfl⟩
  case literal this value values =>
    simp only [visit_expr] at h
    split at h; · cases h
    rename_i hm
    simp only [Except.bind_eq_ok] at h
    obtain ⟨names₁, hl, h⟩ := h
    refine ⟨names₁, ⟨hm, hl⟩, ?_⟩
    rw [← visit_exprs_eq _ _ _ fun _ => rfl]
    exact h
  case call this method arguments definition =>
    simp only [visit_expr] at h
    split at h; · cases h
    rename_i hm
    simp only [Except.bind_eq_ok] at h
    obtain ⟨_, h₁, _, h₂, _, h₃, h⟩ := h
    refine ⟨_, ⟨hm, h₁, h₂, h₃, rfl⟩, ?_⟩
    rw [← visit_exprs_eq _ _ _ fun _ => rfl]
    exact h

theorem Expression.sizeOf_children {child : Expression} (h : child ∈ expr.children) :
    sizeOf child < sizeOf expr := by
  cases expr
  case literal this value values =>
    have : sizeOf child < sizeOf values := List.sizeOf_lt_of_mem h
    simp only [literal.sizeOf_spec]
    omega
  case call this method arguments definition =>
    have : sizeOf child < sizeOf arguments := List.sizeOf_lt_of_mem h
    simp only [call.sizeOf_spec]
    omega
  case «variable» => cases h
  all_goals
    simp only [Expression.children, List.mem_cons, List.not_mem_nil, or_false] at h
    rcases h with rfl | rfl | rfl <;> simp_wf <;> omega

end

theorem Expression.children_induction {P : Expression → Prop}
    (h : ∀ expr : Expression, (∀ child ∈ expr.children, P child) → P expr) (expr : Expression) :
    P expr :=
  h expr fun child _ => children_induction h child
termination_by sizeOf expr
decreasing_by exact Expression.sizeOf_children ‹_›

-- The effect of an expression on the variables: binding variables, each at the start of the block,
-- are added to the block that the test is in front of.
structure Names.Binds (block : Option StatementId) (names names' : Names)
    (identifiers : List Identifier) : Prop where
  arena  : names'.arena = names.arena ++ identifiers.map (⟨·, 0, 0⟩)
  locals : ∀ id, names'.locals id = names.locals id ++
    if block = some id then List.range' names.arena.length identifiers.length else []
  none   : block = none → identifiers = []

namespace Names.Binds

variable {block : Option StatementId} {names names₁ names₂ : Names}

theorem of_eq (ha : names₁.arena = names.arena) (hl : names₁.locals = names.locals) :
    Names.Binds block names names₁ [] where
  arena     := by simp [ha]
  locals id := by simp [hl]
  none _    := rfl

theorem trans {identifiers₁ identifiers₂ : List Identifier}
    (h₁ : Names.Binds block names names₁ identifiers₁)
    (h₂ : Names.Binds block names₁ names₂ identifiers₂) :
    Names.Binds block names names₂ (identifiers₁ ++ identifiers₂) where
  arena     := by rw [h₂.arena, h₁.arena, List.append_assoc, List.map_append]
  locals id := by
    rw [h₂.locals, h₁.locals, List.append_assoc, h₁.arena]
    split
    · simp only [List.length_append, List.length_map, List.range'_append_1]
    · rfl
  none hb   := by rw [h₁.none hb, h₂.none hb, List.append_nil]

end Names.Binds

section

variable {ctx : LinkCtx} {t : Traversal} {expr : Expression} {names names' : Names}

theorem check_literal_binds {this : ExpressionId} {num_values : Nat} {value : Literal}
    (h : check_literal ctx this num_values names value = .ok names') :
    names'.arena = names.arena ∧ names'.locals = names.locals := by
  cases value
  case struct definition fields =>
    simp only [check_literal] at h
    split at h
    case h_2 => cases h
    case h_1 =>
      simp only [Except.bind_eq_ok] at h
      obtain ⟨_, _, h⟩ := h
      cases h
      exact ⟨rfl, rfl⟩
  case enum definition variant_name =>
    simp only [check_literal] at h
    split at h
    case h_2 => cases h
    case h_1 =>
      split at h <;> cases h
      exact ⟨rfl, rfl⟩
  case union definition variant_name =>
    simp only [check_literal] at h
    split at h
    case h_2 => cases h
    case h_1 =>
      split at h
      case h_1 => cases h
      case h_2 =>
        split at h <;> cases h
        exact ⟨rfl, rfl⟩
  all_goals
    cases h
    exact ⟨rfl, rfl⟩

theorem Expression.Proceeds.binds (h : expr.Proceeds ctx t names names') :
    names'.arena = names.arena ∧ names'.locals = names.locals := by
  cases expr
  case assignment | conditional | binary | unary | slicing | cast => exact h.2 ▸ ⟨rfl, rfl⟩
  case binding => exact h.2.2.2.2.2 ▸ ⟨rfl, rfl⟩
  case indexing | select => exact Eq.symm h ▸ ⟨rfl, rfl⟩
  case literal =>
    obtain ⟨ha, hl⟩ := check_literal_binds h.2
    exact ⟨ha, hl⟩
  case call => exact h.2.2.2.2 ▸ ⟨rfl, rfl⟩
  case «variable» => cases h

-- A variable is added to the locals of a block when the checks allow it.
theorem checked_at_single_scope_add_local_eq {block : StatementId} {pos : Nat} {id : VariableId} :
    checked_at_single_scope_add_local ctx t block pos id names = .ok names' ↔
      ctx.has_symbol t.definition.this (names.get id).identifier = false ∧
      ¬names.conflicts block pos id ∧ names' = names.add_local block pos id := by
  simp only [checked_at_single_scope_add_local]
  split
  case isTrue hs => simp [hs]
  case isFalse hs =>
    split
    case isTrue hc => simp [hc]
    case isFalse hc =>
      simp only [Except.ok.injEq, hc, not_false_eq_true, true_and]
      exact ⟨fun h => ⟨by simpa using hs, h.symm⟩, fun h => h.2.symm⟩

theorem visit_variable_expr_binds {this : ExpressionId} {identifier : Identifier}
    (h : visit_variable_expr ctx t this identifier names = .ok names') :
    ∃ identifiers, Names.Binds t.in_test_expr names names' identifiers := by
  simp only [visit_variable_expr] at h
  split at h
  case h_1 =>
    cases h
    exact ⟨[], .of_eq rfl rfl⟩
  case h_2 =>
    split at h; · cases h
    split at h; · cases h
    split at h
    case h_1 => cases h
    case h_2 body hbody =>
      simp only [Except.bind_eq_ok, checked_at_single_scope_add_local_eq] at h
      obtain ⟨names₁, ⟨_, _, h₁⟩, h₂⟩ := h
      cases h₂
      subst h₁
      refine ⟨[identifier], ?_, ?_, ?_⟩
      · simp only [Names.number, Names.set_declaration, Names.add_local, Names.alloc_variable,
          Names.set_relative_pos, List.map_cons, List.map_nil]
        rw [List.modify_concat]
      · intro id
        by_cases hi : body = id
        · subst hi
          simp [Names.number, Names.set_declaration, Names.add_local, Names.alloc_variable,
            Names.set_relative_pos, hbody]
        · simp [Names.number, Names.set_declaration, Names.add_local, Names.alloc_variable,
            Names.set_relative_pos, hbody, hi, Function.update_of_ne (Ne.symm hi)]
      · simp [hbody]

@[simp]
theorem Traversal.descend_in_test_expr (t : Traversal) (expr : Expression) (idx : Nat) :
    (t.descend expr idx).in_test_expr = t.in_test_expr := by
  cases expr <;> simp only [Traversal.descend] <;> try rfl
  split <;> rfl

theorem visit_children_binds {children : List Expression} {idx : Nat}
    (ih : ∀ child ∈ children, ∀ {t : Traversal} {names names' : Names},
      visit_expr ctx t child names = .ok names' →
      ∃ identifiers, Names.Binds t.in_test_expr names names' identifiers)
    (h : visit_children ctx t expr idx children names = .ok names') :
    ∃ identifiers, Names.Binds t.in_test_expr names names' identifiers := by
  induction children generalizing idx names
  case nil =>
    cases h
    exact ⟨[], .of_eq rfl rfl⟩
  case cons child children ih' =>
    simp only [visit_children, Except.bind_eq_ok] at h
    obtain ⟨names₁, h₁, h₂⟩ := h
    obtain ⟨identifiers₁, hb₁⟩ := ih child (List.mem_cons_self ..) h₁
    obtain ⟨identifiers₂, hb₂⟩ := ih' (fun c hc => ih c (List.mem_cons_of_mem _ hc)) h₂
    rw [Traversal.descend_in_test_expr] at hb₁
    exact ⟨_, hb₁.trans hb₂⟩

theorem visit_expr_binds (expr : Expression) {t : Traversal} {names names' : Names}
    (h : visit_expr ctx t expr names = .ok names') :
    ∃ identifiers, Names.Binds t.in_test_expr names names' identifiers := by
  induction expr using Expression.children_induction generalizing t names names' with
  | h expr ih =>
    by_cases hv : ∃ this identifier, expr = .variable this identifier
    case pos =>
      obtain ⟨this, identifier, he⟩ := hv
      subst he
      exact visit_variable_expr_binds h
    case neg =>
      obtain ⟨names₁, hp, hc⟩ := visit_expr_children h fun this identifier he => hv ⟨_, _, he⟩
      obtain ⟨identifiers, hb⟩ := visit_children_binds (fun child hm _ _ _ h => ih child hm h) hc
      exact ⟨_, (Names.Binds.of_eq hp.binds.1 hp.binds.2).trans hb⟩

end

end Reowolf
