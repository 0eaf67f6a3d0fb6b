import Reowolf.Protocol.ExpressionVisits
import Reowolf.Protocol.LinkingScan

namespace Reowolf

-- The variables that a statement declares in the block it is in.
def Statement.declares : Statement → List VariableId
  | .memory _ id             => [id]
  | .channel _ from_id to_id => [from_id, to_id]
  | .labeled _ _ body        => body.declares
  | _                        => []

-- The variables that statements of a block declare in it, with the positions of the statements. The
-- first statement is at the given position.
def Statement.listDeclares (pos : Nat) : List Statement → List (VariableId × Nat)
  | []            => []
  | stmt :: stmts => stmt.declares.map (·, pos) ++ listDeclares (pos + stmt.width) stmts

def BlockOf.declares (body : BlockStatement) : List (VariableId × Nat) :=
  Statement.listDeclares 0 body.statements

-- The labels in front of a statement, with the position of the statement.
def Statement.labelsAt (pos : Nat) (in_sync : Option StatementId) (stmt : Statement) :
    List LabeledStatement :=
  stmt.labels.map fun (this, label, body) => ⟨this, label, body, pos, in_sync⟩

def Statement.listLabelsAt (pos : Nat) (in_sync : Option StatementId) :
    List Statement → List LabeledStatement
  | []            => []
  | stmt :: stmts => stmt.labelsAt pos in_sync ++ listLabelsAt (pos + stmt.width) in_sync stmts

def BlockOf.labelsAt (body : BlockStatement) (in_sync : Option StatementId) : List LabeledStatement :=
  Statement.listLabelsAt 0 in_sync body.statements

namespace Names

-- Adds variables to a block, one after the other.
def declare (names : Names) (block : StatementId) (declared : List (VariableId × Nat)) : Names :=
  declared.foldl (fun names local_variable =>
    names.add_local block local_variable.2 local_variable.1) names

variable {names : Names} {block : StatementId} {pos : Nat} {id id' : VariableId}
variable {declared : List (VariableId × Nat)}

@[simp]
theorem declare_nil : names.declare block [] = names := rfl

@[simp]
theorem declare_cons : names.declare block ((id, pos) :: declared) =
    (names.add_local block pos id).declare block declared := rfl

theorem declare_append (declared₁ declared₂ : List (VariableId × Nat)) :
    names.declare block (declared₁ ++ declared₂) =
      (names.declare block declared₁).declare block declared₂ :=
  List.foldl_append ..

@[simp]
theorem set_relative_pos_length : (names.set_relative_pos id pos).arena.length = names.arena.length :=
  List.length_modify ..

theorem get_set_relative_pos_of_ne (h : id ≠ id') :
    (names.set_relative_pos id pos).get id' = names.get id' := by
  simp only [get, set_relative_pos, List.getD_eq_getElem?_getD, List.getElem?_modify_ne _ _ h]

theorem get_set_relative_pos_self (h : id < names.arena.length) :
    (names.set_relative_pos id pos).get id =
      { names.get id with relative_pos_in_block := pos } := by
  simp only [get, set_relative_pos, List.getD_eq_getElem?_getD, List.getElem?_modify_eq,
    List.getElem?_eq_getElem h, Option.map_eq_map, Option.map_some, Option.getD_some]

theorem identifier_set_relative_pos :
    ((names.set_relative_pos id pos).get id').identifier = (names.get id').identifier := by
  by_cases he : id = id'
  case neg => rw [get_set_relative_pos_of_ne he]
  case pos =>
    subst he
    by_cases hl : id < names.arena.length
    case pos => rw [get_set_relative_pos_self hl]
    case neg =>
      simp only [get, set_relative_pos, List.getD_eq_getElem?_getD, List.getElem?_modify_eq]
      rw [List.getElem?_eq_none (Nat.le_of_not_lt hl)]
      rfl

@[simp]
theorem add_local_length : (names.add_local block pos id).arena.length = names.arena.length :=
  List.length_modify ..

@[simp]
theorem add_local_locals : (names.add_local block pos id).locals =
    Function.update names.locals block (names.locals block ++ [id]) := rfl

theorem get_add_local_of_ne (h : id ≠ id') :
    (names.add_local block pos id).get id' = names.get id' :=
  get_set_relative_pos_of_ne h

theorem get_add_local_self (h : id < names.arena.length) :
    (names.add_local block pos id).get id = { names.get id with relative_pos_in_block := pos } :=
  get_set_relative_pos_self h

theorem identifier_add_local :
    ((names.add_local block pos id).get id').identifier = (names.get id').identifier :=
  identifier_set_relative_pos

@[simp]
theorem declare_length : (names.declare block declared).arena.length = names.arena.length := by
  induction declared generalizing names
  case nil => rfl
  case cons head declared ih => rw [declare_cons, ih, add_local_length]

theorem declare_locals : (names.declare block declared).locals =
    Function.update names.locals block (names.locals block ++ declared.map Prod.fst) := by
  induction declared generalizing names
  case nil => simp
  case cons head declared ih =>
    rw [declare_cons, ih, add_local_locals]
    simp

theorem identifier_declare :
    ((names.declare block declared).get id).identifier = (names.get id).identifier := by
  induction declared generalizing names
  case nil => rfl
  case cons head declared ih => rw [declare_cons, ih, identifier_add_local]

theorem get_declare_of_not_mem (h : id ∉ declared.map Prod.fst) :
    (names.declare block declared).get id = names.get id := by
  induction declared generalizing names
  case nil => rfl
  case cons head declared ih =>
    simp only [List.map_cons, List.mem_cons, not_or] at h
    rw [declare_cons, ih h.2, get_add_local_of_ne (Ne.symm h.1)]

-- The positions are those of the declarations.
theorem pos_declare (hn : (declared.map Prod.fst).Nodup) (hl : id < names.arena.length)
    (hm : (id, pos) ∈ declared) :
    ((names.declare block declared).get id).relative_pos_in_block = pos := by
  induction declared generalizing names
  case nil => cases hm
  case cons head declared ih =>
    simp only [List.map_cons, List.nodup_cons] at hn
    rw [declare_cons]
    cases List.mem_cons.mp hm
    case inl he =>
      subst he
      rw [get_declare_of_not_mem hn.1, get_add_local_self hl]
    case inr hm => exact ih hn.2 (by simpa using hl) hm

end Names

section

variable {ctx : LinkCtx} {t : Traversal} {pos : Nat} {id : VariableId} {scope : Scope}
variable {scopes : List Scope} {σ σ' : LinkState}

theorem checked_add_local_eq {names names' : Names} (ht : t.cur_scope = scope :: scopes) :
    checked_add_local ctx t pos id names = .ok names' ↔
      names.check_scopes t.definition.parameters id (scope :: scopes) = .ok () ∧
      checked_at_single_scope_add_local ctx t scope.block pos id names = .ok names' := by
  simp only [checked_add_local, ht, Except.bind_eq_ok]
  exact ⟨fun h => h.elim fun _ h => h, fun h => ⟨(), h⟩⟩

-- The breadth-first pass over statements of a block adds what they declare and their labels.
structure Declares (block : StatementId) (σ σ' : LinkState) (declared : List (VariableId × Nat))
    (labels : List LabeledStatement) : Prop where
  names  : σ'.names = σ.names.declare block declared
  labels : σ'.labels = Function.update σ.labels block (σ.labels block ++ labels)

theorem Declares.refl {block : StatementId} : Declares block σ σ [] [] where
  names  := rfl
  labels := by simp

theorem Declares.trans {block : StatementId} {σ₁ : LinkState}
    {declared₁ declared₂ : List (VariableId × Nat)} {labels₁ labels₂ : List LabeledStatement}
    (h₁ : Declares block σ σ₁ declared₁ labels₁) (h₂ : Declares block σ₁ σ' declared₂ labels₂) :
    Declares block σ σ' (declared₁ ++ declared₂) (labels₁ ++ labels₂) where
  names  := by rw [h₂.names, h₁.names, Names.declare_append]
  labels := by rw [h₂.labels, h₁.labels]; simp

theorem add_local_to_state_declares (ht : t.cur_scope = scope :: scopes)
    (h : add_local_to_state ctx t pos id σ = .ok σ') :
    Declares scope.block σ σ' [(id, pos)] [] := by
  simp only [add_local_to_state, Except.bind_eq_ok, checked_add_local_eq ht,
    checked_at_single_scope_add_local_eq] at h
  obtain ⟨_, ⟨_, _, _, he⟩, h⟩ := h
  cases h
  subst he
  exact ⟨rfl, by simp⟩

theorem visit_statement_declares (ht : t.cur_scope = scope :: scopes) (stmt : Statement)
    {σ σ' : LinkState}
    (h : visit_statement_for_locals_labels_and_in_sync ctx t pos stmt σ = .ok σ') :
    Declares scope.block σ σ' (stmt.declares.map (·, pos)) (stmt.labelsAt pos t.in_sync) := by
  match stmt with
  | .memory _ id => exact add_local_to_state_declares ht h
  | .channel _ from_id to_id =>
    simp only [visit_statement_for_locals_labels_and_in_sync, Except.bind_eq_ok] at h
    obtain ⟨σ₁, h₁, h₂⟩ := h
    exact (add_local_to_state_declares ht h₁).trans (add_local_to_state_declares ht h₂)
  | .labeled this label body =>
    simp only [visit_statement_for_locals_labels_and_in_sync, Except.bind_eq_ok] at h
    obtain ⟨σ₁, h₁, h₂⟩ := h
    have hlabel : Declares scope.block σ σ₁ [] [⟨this, label, body, pos, t.in_sync⟩] := by
      simp only [checked_add_label, ht] at h₁
      split at h₁
      · cases h₁
      · cases h₁
        exact ⟨rfl, rfl⟩
    exact hlabel.trans (visit_statement_declares ht body h₂)
  | .while .. =>
    cases h
    exact ⟨rfl, by simp [Statement.labelsAt, Statement.labels]⟩
  | .block _ | .if .. | .break .. | .continue .. | .synchronous .. | .return .. | .goto .. | .new ..
  | .expression .. =>
    cases h
    exact .refl

theorem visit_statements_declares (ht : t.cur_scope = scope :: scopes) {stmts : List Statement}
    (h : visit_statements_for_locals_labels_and_in_sync ctx t pos stmts σ = .ok σ') :
    Declares scope.block σ σ' (Statement.listDeclares pos stmts)
      (Statement.listLabelsAt pos t.in_sync stmts) := by
  induction stmts generalizing pos σ
  case nil =>
    cases h
    exact .refl
  case cons stmt stmts ih =>
    simp only [visit_statements_for_locals_labels_and_in_sync, Except.bind_eq_ok] at h
    obtain ⟨σ₁, h₁, h₂⟩ := h
    exact (visit_statement_declares ht stmt h₁).trans (ih h₂)

end

end Reowolf
