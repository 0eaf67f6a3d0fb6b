import Reowolf.Types.InitialTypes
import Reowolf.Types.ProcedureInference

namespace Reowolf.Types

open InferenceTypePart (signature)
open InferenceType

-- Types for the expressions and the variables of a procedure, and for the polymorphic variables of its
-- calls, literals and selections.
structure Typing where
  expr : Nat → List InferenceTypePart
  var  : VariableId → List InferenceTypePart
  args : Nat → List (List InferenceTypePart)

namespace Typing

-- A type that a template stands for.
def Fits (template t : List InferenceTypePart) : Prop :=
  signature.Refines template t

def AssignmentRule (operation : AssignmentOperator) (left : List InferenceTypePart) : Prop :=
  match operation with
  | .set => True
  | .concatenated => Fits ARRAYLIKE_TEMPLATE left
  | .multiplied | .divided | .added | .subtracted => Fits NUMBERLIKE_TEMPLATE left
  | .remained | .shiftedLeft | .shiftedRight | .bitwiseAnded | .bitwiseXored | .bitwiseOred =>
    Fits INTEGERLIKE_TEMPLATE left

-- Strings are concatenated with strings, and what has the same elements is concatenated to an array.
def ConcatenateRule (expr left right : List InferenceTypePart) : Prop :=
  expr = STRING_TEMPLATE ∧ left = STRING_TEMPLATE ∧ right = STRING_TEMPLATE ∨
  Fits ARRAY_TEMPLATE expr ∧ Fits ARRAYLIKE_TEMPLATE left ∧ Fits ARRAYLIKE_TEMPLATE right ∧
    left.head? ≠ some .string ∧ right.head? ≠ some .string ∧ left.tail = expr.tail ∧
    right.tail = expr.tail

-- The operands of a logical conjunction may have any types.
def BinaryRule (operation : BinaryOperator) (expr left right : List InferenceTypePart) : Prop :=
  match operation with
  | .concatenate => ConcatenateRule expr left right
  | .logicalAnd => expr = BOOL_TEMPLATE
  | .logicalOr => expr = BOOL_TEMPLATE ∧ left = BOOL_TEMPLATE ∧ right = BOOL_TEMPLATE
  | .bitwiseOr | .bitwiseXor | .bitwiseAnd | .remainder | .shiftLeft | .shiftRight =>
    Fits INTEGERLIKE_TEMPLATE expr ∧ left = expr ∧ right = expr
  | .equality | .inequality => expr = BOOL_TEMPLATE ∧ left = right
  | .lessThan | .greaterThan | .lessThanEqual | .greaterThanEqual =>
    expr = BOOL_TEMPLATE ∧ Fits NUMBERLIKE_TEMPLATE left ∧ left = right
  | .add | .subtract | .multiply | .divide =>
    Fits NUMBERLIKE_TEMPLATE expr ∧ left = expr ∧ right = expr

-- The operand of a logical negation may have any type.
def UnaryRule (operation : UnaryOperator) (expr operand : List InferenceTypePart) : Prop :=
  match operation with
  | .positive | .negative => Fits NUMBERLIKE_TEMPLATE expr ∧ operand = expr
  | .bitwiseNot => Fits INTEGERLIKE_TEMPLATE expr ∧ operand = expr
  | .logicalNot => expr = BOOL_TEMPLATE

def SliceRule (expr subject : List InferenceTypePart) : Prop :=
  expr = STRING_TEMPLATE ∧ subject = STRING_TEMPLATE ∨
  Fits SLICE_TEMPLATE expr ∧ subject.head? ≠ some .string ∧ subject.tail = expr.tail

def LiteralRule (literal : PlainLiteral) (expr : List InferenceTypePart) : Prop :=
  match literal with
  | .null => Fits MESSAGE_TEMPLATE expr
  | .integer => Fits INTEGERLIKE_TEMPLATE expr
  | .true | .false => expr = BOOL_TEMPLATE
  | .character => expr = CHARACTER_TEMPLATE
  | .string => expr = STRING_TEMPLATE

def Castable (expr subject : List InferenceTypePart) : Prop :=
  ProcedureBody.is_bool_int_or_char expr = true ∧ ProcedureBody.is_bool_int_or_char subject = true ∨
    expr = subject

variable (body : ProcedureBody) (τ : Typing)

-- The types at the places of a signature.
def places (expr_id : Nat) (expr : PolymorphicExpression) : SignatureIdx → List InferenceTypePart
  | .embedded idx => (expr.expr_args[idx]?.map τ.expr).getD []
  | .returned => τ.expr expr_id

-- The subject of a selection is a struct that has the field.
structure SelectRule (expr_id subject : Nat) (field_name : Identifier) : Prop where
  exists_field : ∃ struct_def_id num rest definition fields field_idx data,
    τ.expr subject = .«instance» struct_def_id num :: rest ∧
    body.heap.definitions[struct_def_id]? = some definition ∧
    definition.variant = .struct fields ∧
    fields.findIdx? (fun field => field.field = field_name) = some field_idx ∧
    insert_initial_select_polymorph_data body.heap body.poly_vars expr_id struct_def_id field_idx =
      some data ∧
    data.Admits (τ.args expr_id) (τ.places expr_id (.select subject field_name))

-- What is asked of the types at an expression.
def Obeys (expr_id : Nat) : TypedExpression → Prop
  | .assignment operation left right => τ.expr expr_id = VOID_TEMPLATE ∧
    AssignmentRule operation (τ.expr left) ∧ τ.expr left = τ.expr right
  | .binding bound_to bound_from => τ.expr expr_id = BOOL_TEMPLATE ∧ τ.expr bound_from = τ.expr bound_to
  | .conditional _ true_expression false_expression =>
    τ.expr true_expression = τ.expr expr_id ∧ τ.expr false_expression = τ.expr expr_id
  | .binary operation left right => BinaryRule operation (τ.expr expr_id) (τ.expr left) (τ.expr right)
  | .unary operation expression => UnaryRule operation (τ.expr expr_id) (τ.expr expression)
  | .indexing subject index => Fits ARRAYLIKE_TEMPLATE (τ.expr subject) ∧
    Fits INTEGERLIKE_TEMPLATE (τ.expr index) ∧ τ.expr expr_id = (τ.expr subject).tail
  | .slicing subject from_index to_index => Fits ARRAYLIKE_TEMPLATE (τ.expr subject) ∧
    Fits INTEGERLIKE_TEMPLATE (τ.expr from_index) ∧ τ.expr from_index = τ.expr to_index ∧
    SliceRule (τ.expr expr_id) (τ.expr subject)
  | .plain_literal literal => LiteralRule literal (τ.expr expr_id)
  | .array_literal elements => Fits ARRAY_TEMPLATE (τ.expr expr_id) ∧
    ∀ element ∈ elements, τ.expr element = (τ.expr expr_id).tail
  | .polymorphic (.select subject field_name) => τ.SelectRule body expr_id subject field_name
  | .polymorphic expr => ∀ data, body.initial_extra_data expr_id = some data →
    data.Admits (τ.args expr_id) (τ.places expr_id expr)
  | .cast to_type subject => ∃ t, body.determine_inference_type to_type = some t ∧
    Fits t.parts (τ.expr expr_id) ∧ Castable (τ.expr expr_id) (τ.expr subject)
  | .variable declaration => τ.expr expr_id = τ.var declaration

-- The types obey the rules of the expressions, and they are what the programmer says that they are. Both
-- ends of a channel have the same interior type.
structure WellTyped : Prop where
  exprs  : ∀ id expr, body.exprs id = some expr → τ.Obeys body id expr
  starts : ∀ id t, body.initial_expr_type id = some t → signature.Refines t.parts (τ.expr id)
  vars   : ∀ var_id data, body.initial_var_data var_id = some data →
    signature.Refines data.var_type.parts (τ.var var_id)
  linked : ∀ var_id data linked_id, body.initial_var_data var_id = some data →
    data.linked_var = some linked_id → (τ.var var_id).tail = (τ.var linked_id).tail

end Typing

namespace TypedExpression

-- The expressions that are directly in it.
def children : TypedExpression → List Nat
  | assignment _ left right | binary _ left right => [left, right]
  | binding bound_to bound_from => [bound_to, bound_from]
  | conditional test true_expression false_expression => [test, true_expression, false_expression]
  | unary _ expression => [expression]
  | indexing subject index => [subject, index]
  | slicing subject from_index to_index => [subject, from_index, to_index]
  | plain_literal _ | «variable» _ => []
  | array_literal elements => elements
  | polymorphic expr => expr.expr_args
  | cast _ subject => [subject]

end TypedExpression

-- A procedure as the parser and the linker leave it, with finitely many expressions and variables. No
-- expression is within itself, all types are complete and the variables are declared. The polymorphic
-- variables of the procedure are known.
structure ProcedureBody.Linked (body : ProcedureBody) : Prop where
  heap      : body.heap.WellWritten
  poly_vars : ∀ c ∈ body.poly_vars, c.Inferable body.heap
  distinct  : ∀ id expr, body.exprs id = some expr → (id :: expr.children).Nodup
  children  : ∀ id expr, body.exprs id = some expr → ∀ child ∈ expr.children, body.exprs child ≠ none
  parents   : ∀ id parent_id, body.parent_expr id = some parent_id → body.exprs parent_id ≠ none
  exprs     : ∀ id expr, body.exprs id = some (.polymorphic expr) →
    expr.Linked body.heap body.poly_vars.length
  casts     : ∀ id to_type subject, body.exprs id = some (.cast to_type subject) →
    Written body.heap body.poly_vars.length 1 to_type
  declared  : ∀ id var_id, body.exprs id = some (.variable var_id) → ∃ declaration,
    body.locals var_id = some declaration
  locals    : ∀ var_id declaration, body.locals var_id = some declaration →
    Written body.heap body.poly_vars.length 1 declaration.parser_type
  -- the variables of a channel are ports
  channels  : ∀ var_id declaration linked_id, body.locals var_id = some declaration →
    declaration.linked_var = some linked_id → linked_id ≠ var_id ∧
    ∃ linked port elements port' elements', body.locals linked_id = some linked ∧
      declaration.parser_type = port :: elements ∧ linked.parser_type = port' :: elements' ∧
      port ∈ [.input, .output] ∧ port' ∈ [.input, .output]
  returned  : ∀ elements, body.return_type = some elements →
    Written body.heap body.poly_vars.length 1 elements
  finite    : (∃ ids : List Nat, ∀ id, body.exprs id ≠ none ↔ id ∈ ids) ∧
    ∃ var_ids : List VariableId, ∀ var_id, body.locals var_id ≠ none → var_id ∈ var_ids

end Reowolf.Types
