import Reowolf.Protocol.Ast
import Mathlib.Logic.Function.Basic

namespace Reowolf

-- Why the pass stops: an error for the programmer (with the texts of its further infos), or a place
-- that the source holds to be unreachable.
inductive LinkError
  | parseError (message : String) (infos : List String)
  | unreachable
deriving DecidableEq

-- A block that we are in, with the position that its `relative_pos_in_parent` records.
structure Scope where
  block                  : StatementId
  relative_pos_in_parent : Nat
deriving DecidableEq

-- What a break or continue statement needs to know of a while statement.
structure WhileStatement where
  this      : StatementId
  body      : StatementId
  end_while : StatementId
deriving DecidableEq

structure LabeledStatement where
  this                  : StatementId
  label                 : Identifier
  body                  : Statement
  relative_pos_in_block : Nat
  in_sync               : Option StatementId

-- The parent of an expression. A parent that is an expression comes with its own parent.
inductive ExpressionParent
  | none
  | «if» (stmt : StatementId)
  | «while» (stmt : StatementId)
  | «return» (stmt : StatementId)
  | new (stmt : StatementId)
  | expressionStmt (stmt : StatementId)
  | expression (expr : Expression) (idx : Nat) (parent : ExpressionParent)

def ExpressionParent.is_new : ExpressionParent → Bool
  | new _ => true
  | _     => false

-- What the pass reads of the rest of the compiler: the type table, and whether a name is a symbol in
-- the scope of a definition.
structure LinkCtx where
  types      : DefinitionId → DefinedType
  has_symbol : DefinitionId → Identifier → Bool

-- The part of the traversal state that is set around an element of the syntax tree and set back
-- after it.
structure Traversal where
  definition            : Definition
  in_sync               : Option StatementId
  in_while              : Option WhileStatement
  in_test_expr          : Option StatementId -- the body of the if or while statement
  in_binding_expr       : Option ExpressionId
  in_binding_expr_lhs   : Bool
  cur_scope             : List Scope -- from the current block to the body of the definition
  expr_parent           : ExpressionParent
  must_be_assignable    : Bool
  relative_pos_in_block : Nat

namespace Traversal

def is_primitive (t : Traversal) : Prop := t.definition.kind = .primitive
def is_composite (t : Traversal) : Prop := t.definition.kind = .composite
def is_function  (t : Traversal) : Prop := t.definition.kind = .function

instance (t : Traversal) : Decidable t.is_primitive := inferInstanceAs (Decidable (_ = _))
instance (t : Traversal) : Decidable t.is_composite := inferInstanceAs (Decidable (_ = _))
instance (t : Traversal) : Decidable t.is_function  := inferInstanceAs (Decidable (_ = _))

-- The state for the child with the given index of an expression.
def child (t : Traversal) (expr : Expression) (idx : Nat) : Traversal :=
  { t with expr_parent := .expression expr idx t.expr_parent }

def new (definition : Definition) : Traversal where
  definition            := definition
  in_sync               := none
  in_while              := none
  in_test_expr          := none
  in_binding_expr       := none
  in_binding_expr_lhs   := false
  cur_scope             := []
  expr_parent           := .none
  must_be_assignable    := false
  relative_pos_in_block := 0

end Traversal

-- What the pass writes into an expression.
structure ExpressionData where
  parent                  : ExpressionParent
  unique_id_in_definition : Nat
  declaration             : Option VariableId
  used_as_binding_target  : Bool
  variant_idx             : Nat
  field_idx               : List Nat

-- What the pass writes for names and expressions.
structure Names where
  arena           : List Variable
  locals          : StatementId → List VariableId
  expressions     : ExpressionId → ExpressionData
  next_expr_index : Nat

namespace Names

def get (names : Names) (id : VariableId) : Variable :=
  names.arena.getD id ⟨"", 0, 0⟩

def set_relative_pos (names : Names) (id : VariableId) (relative_pos : Nat) : Names :=
  { names with arena := names.arena.modify id ({ · with relative_pos_in_block := relative_pos }) }

-- Gives an expression its parent and its number.
def number (names : Names) (id : ExpressionId) (parent : ExpressionParent) : Names :=
  { names with
    expressions := Function.update names.expressions id
      { names.expressions id with parent, unique_id_in_definition := names.next_expr_index }
    next_expr_index := names.next_expr_index + 1 }

def set_fields (names : Names) (id : ExpressionId) (field_idx : List Nat) : Names :=
  { names with
    expressions := Function.update names.expressions id { names.expressions id with field_idx } }

def set_variant (names : Names) (id : ExpressionId) (variant_idx : Nat) : Names :=
  { names with
    expressions := Function.update names.expressions id { names.expressions id with variant_idx } }

def set_declaration (names : Names) (id : ExpressionId) (declaration : VariableId)
    (used_as_binding_target : Bool) : Names :=
  { names with
    expressions := Function.update names.expressions id
      { names.expressions id with declaration := some declaration, used_as_binding_target } }

def alloc_variable (names : Names) (identifier : Identifier) : VariableId × Names :=
  (names.arena.length, { names with arena := names.arena ++ [⟨identifier, 0, 0⟩] })

-- Looks for a variable that appears before the relative position, from the current scope outwards.
def find_variable (names : Names) (parameters : List VariableId) (identifier : Identifier) :
    List Scope → Nat → Option VariableId
  | [], _ => parameters.find? fun id => (names.get id).identifier = identifier
  | scope :: scopes, relative_pos =>
    match (names.locals scope.block).find? fun id =>
        (names.get id).relative_pos_in_block ≤ relative_pos ∧ identifier = (names.get id).identifier with
    | some id => some id
    | none    => names.find_variable parameters identifier scopes scope.relative_pos_in_parent

-- Whether a local of the block has the same name as the variable and is not declared after the
-- relative position.
def conflicts (names : Names) (block : StatementId) (relative_pos : Nat) (id : VariableId) : Prop :=
  ∃ other ∈ names.locals block, id ≠ other ∧
    (names.get other).relative_pos_in_block ≤ relative_pos ∧
    (names.get id).identifier = (names.get other).identifier

instance (names : Names) (block relative_pos id) : Decidable (names.conflicts block relative_pos id) :=
  inferInstanceAs (Decidable (∃ other ∈ names.locals block, _))

def add_local (names : Names) (block : StatementId) (relative_pos : Nat) (id : VariableId) : Names :=
  { names with locals := Function.update names.locals block (names.locals block ++ [id]) }
    |>.set_relative_pos id relative_pos

end Names

def checked_at_single_scope_add_local (ctx : LinkCtx) (t : Traversal) (block : StatementId)
    (relative_pos : Nat) (id : VariableId) (names : Names) : Except LinkError Names :=
  if ctx.has_symbol t.definition.this (names.get id).identifier then
    .error (.parseError "local variable declaration conflicts with symbol"
      ["the conflicting symbol is introduced here"])
  else if names.conflicts block relative_pos id then
    .error (.parseError "Local variable name conflicts with another variable"
      ["Previous variable is found here"])
  else
    .ok (names.add_local block relative_pos id)

-- The walk of `checked_add_local` over the scopes. Having moved on to the parent it compares with
-- the locals of the block it comes from, up to the position of the parent in its own parent.
def Names.check_scopes (names : Names) (parameters : List VariableId) (id : VariableId) :
    List Scope → Except LinkError Unit
  | [] => .ok ()
  | [_] =>
    if ∃ parameter ∈ parameters, (names.get id).identifier = (names.get parameter).identifier then
      .error (.parseError "Local variable name conflicts with parameter"
        ["Parameter definition is found here"])
    else .ok ()
  | scope :: parent :: scopes =>
    if names.conflicts scope.block parent.relative_pos_in_parent id then
      .error (.parseError "Local variable name conflicts with another variable"
        ["Previous variable is found here"])
    else names.check_scopes parameters id (parent :: scopes)

def checked_add_local (ctx : LinkCtx) (t : Traversal) (relative_pos : Nat) (id : VariableId)
    (names : Names) : Except LinkError Names :=
  match t.cur_scope with
  | [] => .error .unreachable
  | scope :: _ => do
    names.check_scopes t.definition.parameters id t.cur_scope
    checked_at_single_scope_add_local ctx t scope.block relative_pos id names

-- Only the logical-and operator may stand between a binding expression and the test it is part of.
def check_binding_parents : ExpressionParent → Except LinkError Unit
  | .if _ | .while _                                        => .ok ()
  | .expression (.binary _ .logicalAnd _ _) _ parent        => check_binding_parents parent
  | .expression ..                                          =>
    .error (.parseError "only the logical-and operator (&&) may be applied to binding expressions"
      ["this was the disallowed operation applied to the result from a binding expression"])
  | .none | .return _ | .new _ | .expressionStmt _          => .error .unreachable

-- The indices in the struct definition of the fields of a struct literal.
def field_indices (struct_name : Identifier) (definition_fields : List Identifier) :
    List Identifier → List Nat → Except LinkError (List Nat)
  | [], specified => .ok specified
  | field :: fields, specified =>
    match definition_fields.idxOf? field with
    | none =>
      .error (.parseError ("This field does not exist on the struct '" ++ struct_name ++ "'") [])
    | some idx =>
      if idx ∈ specified then .error (.parseError "This field is specified more than once" [])
      else field_indices struct_name definition_fields fields (specified ++ [idx])

def check_fields (struct_name : Identifier) (definition_fields fields : List Identifier) :
    Except LinkError (List Nat) := do
  let specified ← field_indices struct_name definition_fields fields []
  let not_specified := (definition_fields.zipIdx.filter (·.2 ∉ specified)).map Prod.fst
  match not_specified with
  | []      => .ok specified
  | [field] =>
    .error (.parseError ("not all fields are specified, '" ++ field ++ "' is missing") [])
  | fields  =>
    .error (.parseError
      ("not all fields are specified, [" ++ ", ".intercalate fields ++ "] are missing") [])

-- What a literal must satisfy, and what is recorded of it.
def check_literal (ctx : LinkCtx) (this : ExpressionId) (num_values : Nat) (names : Names) :
    Literal → Except LinkError Names
  | .struct definition fields =>
    match ctx.types definition with
    | .struct name definition_fields => do
      let field_idx ← check_fields name definition_fields fields
      .ok (names.set_fields this field_idx)
    | _ => .error .unreachable
  | .enum definition «variant» =>
    match ctx.types definition with
    | .enum name variants =>
      match variants.idxOf? «variant» with
      | none =>
        .error (.parseError
          ("the variant '" ++ «variant» ++ "' does not exist on the enum '" ++ name ++ "'") [])
      | some idx => .ok (names.set_variant this idx)
    | _ => .error .unreachable
  | .union definition «variant» =>
    match ctx.types definition with
    | .union name variants =>
      match variants.findIdx? (·.1 = «variant») with
      | none =>
        .error (.parseError
          ("the variant '" ++ «variant» ++ "' does not exist on the union '" ++ name ++ "'") [])
      | some idx =>
        let embedded := (variants.getD idx ("", 0)).2
        if embedded ≠ num_values then
          .error (.parseError ("The variant '" ++ «variant» ++ "' of union '" ++ name ++ "' expects " ++
            toString embedded ++ " embedded values, but " ++ toString num_values ++
            " were specified") [])
        else .ok (names.set_variant this idx)
    | _ => .error .unreachable
  | .null | .true | .false | .character _ | .string _ | .integer _ | .array => .ok names

-- The three calls that concern ports.
def check_port_call (t : Traversal) (func_name : String) : Except LinkError Unit :=
  if ¬t.is_primitive then
    .error (.parseError
      ("a call to '" ++ func_name ++ "' may only occur in primitive component definitions") [])
  else if t.in_sync.isNone then
    .error (.parseError
      ("a call to '" ++ func_name ++ "' may only occur inside synchronous blocks") [])
  else .ok ()

def check_method (t : Traversal) : Method → Except LinkError Unit
  | .get   => check_port_call t "get"
  | .put   => check_port_call t "put"
  | .fires => check_port_call t "fires"
  | .assert =>
    if t.is_function then
      .error (.parseError "assert statement may only occur in components" [])
    else if t.in_sync.isNone then
      .error (.parseError "assert statements may only occur inside synchronous blocks" [])
    else .ok ()
  | .create | .length | .userFunction | .userComponent => .ok ()

def check_new (t : Traversal) (method : Method) : Except LinkError Unit :=
  if method = .userComponent then
    if t.expr_parent.is_new then .ok ()
    else .error (.parseError
      "cannot call a component, it can only be instantiated by using 'new'" [])
  else if t.expr_parent.is_new then
    .error (.parseError "only components can be instantiated, this is a function" [])
  else .ok ()

def check_num_arguments (ctx : LinkCtx) (definition : DefinitionId) (num_provided : Nat) :
    Except LinkError Unit :=
  match ctx.types definition with
  | .function num_expected | .component num_expected =>
    if num_provided ≠ num_expected then
      .error (.parseError ("expected " ++ toString num_expected ++
        (if num_expected = 1 then " argument" else " arguments") ++ ", but " ++
        toString num_provided ++ " were provided") [])
    else .ok ()
  | _ => .error .unreachable

-- Whether a variable directly under this parent may be a binding variable.
def is_valid_binding : ExpressionParent → Bool
  | .expression (.binding ..) _ _ | .expression (.literal ..) _ _ => true
  | _ => false

def visit_variable_expr (ctx : LinkCtx) (t : Traversal) (this : ExpressionId)
    (identifier : Identifier) (names : Names) : Except LinkError Names :=
  match names.find_variable t.definition.parameters identifier t.cur_scope t.relative_pos_in_block with
  | some id => .ok ((names.set_declaration this id false).number this t.expr_parent)
  | none =>
    if t.in_binding_expr.isNone ∨ ¬t.in_binding_expr_lhs then
      .error (.parseError "unresolved variable" [])
    else if ¬is_valid_binding t.expr_parent then
      .error (.parseError ("illegal location for binding variable: binding variables may only be " ++
          "nested under a binding expression, or a struct, union or array literal")
        ["'" ++ identifier ++ "' was interpreted as a binding variable because the variable is not " ++
          "declared and it is nested under this binding expression"])
    else
      -- The variable goes to the body of the statement that the test belongs to.
      match t.in_test_expr with
      | none => .error .unreachable
      | some body => do
        let (id, names) := names.alloc_variable identifier
        let names ← checked_at_single_scope_add_local ctx t body 0 id names
        .ok ((names.set_declaration this id true).number this t.expr_parent)

def not_assignable (what : String) : LinkError :=
  .parseError ("cannot assign to the result from a " ++ what ++ " expression") []

mutual

def visit_expr (ctx : LinkCtx) (t : Traversal) : Expression → Names → Except LinkError Names
  | .assignment this operation left right, names =>
    let expr := Expression.assignment this operation left right
    match t.expr_parent with
    | .expressionStmt _ => do
      let names := names.number this t.expr_parent
      let names ← visit_expr ctx { t.child expr 0 with must_be_assignable := true } left names
      visit_expr ctx { t.child expr 1 with must_be_assignable := false } right names
    | _ => .error (.parseError "assignments are statements, and cannot be used in expressions" [])
  | .binding this bound_to bound_from, names =>
    let expr := Expression.binding this bound_to bound_from
    if t.must_be_assignable then .error (not_assignable "binding")
    else if t.in_test_expr.isNone then
      .error (.parseError ("binding expressions can only be used inside the testing expression of " ++
        "'if' and 'while' statements") [])
    else if t.in_binding_expr.isSome then
      .error (.parseError "nested binding expressions are not allowed"
        ["the outer binding expression is found here"])
    else do
      check_binding_parents t.expr_parent
      let names := names.number this t.expr_parent
      let t' := { t with in_binding_expr := some this }
      match bound_to with
      | .variable .. | .literal .. =>
        let names ← visit_expr ctx { t'.child expr 0 with in_binding_expr_lhs := true } bound_to names
        visit_expr ctx { t'.child expr 1 with in_binding_expr_lhs := false } bound_from names
      | _ => .error (.parseError ("the left hand side of a binding expression may only be a variable " ++
          "or a literal expression") [])
  | .conditional this test true_expression false_expression, names =>
    let expr := Expression.conditional this test true_expression false_expression
    if t.must_be_assignable then .error (not_assignable "conditional")
    else do
      let names := names.number this t.expr_parent
      let names ← visit_expr ctx (t.child expr 0) test names
      let names ← visit_expr ctx (t.child expr 1) true_expression names
      visit_expr ctx (t.child expr 2) false_expression names
  | .binary this operation left right, names =>
    let expr := Expression.binary this operation left right
    if t.must_be_assignable then .error (not_assignable "binary")
    else do
      let names := names.number this t.expr_parent
      let names ← visit_expr ctx (t.child expr 0) left names
      visit_expr ctx (t.child expr 1) right names
  | .unary this operation expression, names =>
    if t.must_be_assignable then .error (not_assignable "unary")
    else
      visit_expr ctx (t.child (.unary this operation expression) 0) expression
        (names.number this t.expr_parent)
  | .indexing this subject index, names => do
    let expr := Expression.indexing this subject index
    let names := names.number this t.expr_parent
    let names ← visit_expr ctx (t.child expr 0) subject names
    visit_expr ctx { t.child expr 1 with must_be_assignable := false } index names
  | .slicing this subject from_index to_index, names =>
    let expr := Expression.slicing this subject from_index to_index
    if t.must_be_assignable then
      .error (.parseError ("assignment to slices should be valid in the final language, but is " ++
        "currently not implemented") [])
    else do
      let names := names.number this t.expr_parent
      let names ← visit_expr ctx (t.child expr 0) subject names
      let names ← visit_expr ctx (t.child expr 1) from_index names
      visit_expr ctx (t.child expr 2) to_index names
  | .select this subject field_name, names =>
    visit_expr ctx (t.child (.select this subject field_name) 0) subject
      (names.number this t.expr_parent)
  | .literal this value values, names =>
    if t.must_be_assignable then
      .error (.parseError "cannot assign to a literal expression" [])
    else do
      let names := names.number this t.expr_parent
      let names ← check_literal ctx this values.length names value
      visit_exprs ctx t (.literal this value values) 0 values names
  | .cast this subject, names =>
    if t.must_be_assignable then .error (not_assignable "cast")
    else visit_expr ctx (t.child (.cast this subject) 0) subject (names.number this t.expr_parent)
  | .call this method arguments definition, names => do
    if t.must_be_assignable then .error (not_assignable "call")
    else
      check_method t method
      check_new t method
      check_num_arguments ctx definition arguments.length
      let names := names.number this t.expr_parent
      visit_exprs ctx t (.call this method arguments definition) 0 arguments names
  | .variable this identifier, names => visit_variable_expr ctx t this identifier names

def visit_exprs (ctx : LinkCtx) (t : Traversal) (parent : Expression) (idx : Nat) :
    List Expression → Names → Except LinkError Names
  | [], names => .ok names
  | expr :: exprs, names => do
    let names ← visit_expr ctx (t.child parent idx) expr names
    visit_exprs ctx t parent (idx + 1) exprs names

end

def visit_call_expr (ctx : LinkCtx) (t : Traversal) (this : ExpressionId) (method : Method)
    (arguments : List Expression) (definition : DefinitionId) (names : Names) :
    Except LinkError Names :=
  visit_expr ctx t (.call this method arguments definition) names

end Reowolf
