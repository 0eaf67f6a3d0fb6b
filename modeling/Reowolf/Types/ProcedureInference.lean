import Reowolf.Library.Propagation
import Reowolf.Protocol.Ast
import Reowolf.Types.EqualityConstraints
import Reowolf.Types.PolymorphicInference

namespace Reowolf.Types

open InferenceType

-- An error for the programmer or a panic. The types that an error about an equality displays are left
-- out.
inductive InferenceStop
  | parse_error (error : ParseError)
  | constraint_error (error : ConstraintError)
  | panic (place : TypingPanic)
deriving DecidableEq

def TypingStop.lift : TypingStop → InferenceStop
  | parse_error error => .parse_error error
  | panic place       => .panic place

-- An index out of range, a malformed type or another failed assertion.
def expect {α : Type} : Option α → Except InferenceStop α
  | some a => .ok a
  | none   => .error (.panic .other)

section Templates

def VOID_TEMPLATE : List InferenceTypePart := [.void]

def MESSAGE_TEMPLATE : List InferenceTypePart := [.message, .uint8]

def BOOL_TEMPLATE : List InferenceTypePart := [.bool]

def CHARACTER_TEMPLATE : List InferenceTypePart := [.character]

def STRING_TEMPLATE : List InferenceTypePart := [.string, .character]

def NUMBERLIKE_TEMPLATE : List InferenceTypePart := [.numberLike]

def INTEGERLIKE_TEMPLATE : List InferenceTypePart := [.integerLike]

def ARRAY_TEMPLATE : List InferenceTypePart := [.array, .unknown]

def SLICE_TEMPLATE : List InferenceTypePart := [.slice, .unknown]

def ARRAYLIKE_TEMPLATE : List InferenceTypePart := [.arrayLike, .unknown]

end Templates

-- The literals that have no expressions in them and no polymorphic variables.
inductive PlainLiteral
  | null
  | true
  | false
  | integer
  | character
  | string

-- The expressions, with the unique ids of those in them.
inductive TypedExpression
  | assignment (operation : AssignmentOperator) (left right : Nat)
  | binding (bound_to bound_from : Nat)
  | conditional (test true_expression false_expression : Nat)
  | binary (operation : BinaryOperator) (left right : Nat)
  | unary (operation : UnaryOperator) (expression : Nat)
  | indexing (subject index : Nat)
  | slicing (subject from_index to_index : Nat)
  | plain_literal (literal : PlainLiteral)
  | array_literal (elements : List Nat)
  | polymorphic (expr : PolymorphicExpression)
  | cast (to_type : ParserType) (subject : Nat)
  | «variable» (declaration : VariableId)

-- What the pass looks at of that in which an expression stands.
inductive TypingParent
  | expression_stmt
  | expression (parent_id idx_in_parent : Nat)
  | test
  | «return»
  | new

-- A variable as it is declared: by a channel statement with the other port.
structure VariableDeclaration where
  identifier  : Identifier
  parser_type : ParserType
  linked_var  : Option VariableId

-- The procedure whose types are inferred. A component has no return type.
structure ProcedureBody where
  heap        : Heap
  poly_vars   : List ConcreteType
  return_type : Option ParserType
  exprs       : Nat → Option TypedExpression
  parent      : Nat → TypingParent
  locals      : VariableId → Option VariableDeclaration

structure VarData where
  var_type   : InferenceType
  used_at    : List Nat
  linked_var : Option VariableId

structure BodyTyping extends PassTyping where
  var_types : VariableId → Option VarData

namespace ProcedureBody

variable (body : ProcedureBody)

def parent_expr (expr_id : Nat) : Option Nat :=
  match body.parent expr_id with
  | .expression parent_id _ => some parent_id
  | _ => none

-- The same procedure with the expressions that have extra data.
def toTypedBody : TypedBody where
  heap      := body.heap
  poly_vars := body.poly_vars
  exprs expr_id := match body.exprs expr_id with
    | some (.polymorphic expr) => some expr
    | _ => none
  parent    := body.parent_expr

def determine_inference_type (elements : ParserType) : Option InferenceType :=
  determine_inference_type_from_parser_type_elements body.poly_vars elements true

-- `insert_initial_expr_inference_type`. It only depends on the parent.
def initial_expr_type (expr_id : Nat) : Option InferenceType :=
  match body.parent expr_id with
  | .expression_stmt => some ⟨false, false, [.unknown]⟩
  | .expression parent_id idx_in_parent =>
    let is_conditional := match body.exprs parent_id with
      | some (.conditional ..) => true
      | _ => false
    -- the test of a conditional expression
    if is_conditional && idx_in_parent = 0 then
      some ⟨false, true, [.bool]⟩
    else
      some ⟨false, false, [.unknown]⟩
  | .test => some ⟨false, true, [.bool]⟩
  | .return => body.return_type.bind body.determine_inference_type
  | .new => some ⟨false, true, [.void]⟩

-- `insert_initial_call_polymorph_data` and its like. A selection has no data at first.
def initial_extra_data (expr_id : Nat) : Option ExtraData :=
  match body.exprs expr_id with
  | some (.polymorphic expr) => body.toTypedBody.initial_polymorph_data expr_id expr
  | _ => none

def initial_var_data (var_id : VariableId) : Option VarData := do
  let declaration ← body.locals var_id
  let var_type ← body.determine_inference_type declaration.parser_type
  return ⟨var_type, [], declaration.linked_var⟩

section Constraints

def construct_template_type_error (expr_type : InferenceType) (template : List InferenceTypePart) :
    InferenceStop :=
  .parse_error ⟨["incompatible types: got a '" ++ expr_type.display_name body.heap ++
    "' but expected a '" ++ partial_display_name body.heap template ++ "'"]⟩

-- With a forced template the type has to be inferred from it.
def apply_template (forced : Bool) (expr_id : Nat) (template : List InferenceTypePart) (s : BodyTyping) :
    Except InferenceStop (Bool × BodyTyping) := do
  let (res, expr_type) ←
    expect (infer_subtree_for_single_type (s.expr_types expr_id) 0 template 0 forced)
  let s := { s with expr_types := Function.update s.expr_types expr_id expr_type }
  match res with
  | .modified     => .ok (true, s)
  | .unmodified   => .ok (false, s)
  | .incompatible => .error (body.construct_template_type_error expr_type template)

def apply_template_constraint (expr_id : Nat) (template : List InferenceTypePart) (s : BodyTyping) :
    Except InferenceStop (Bool × BodyTyping) :=
  body.apply_template false expr_id template s

def apply_forced_constraint (expr_id : Nat) (template : List InferenceTypePart) (s : BodyTyping) :
    Except InferenceStop (Bool × BodyTyping) :=
  body.apply_template true expr_id template s

def apply_equal2_constraint (expr_id arg1_id arg1_start_idx arg2_id arg2_start_idx : Nat)
    (s : BodyTyping) : Except InferenceStop ((Bool × Bool) × BodyTyping) := do
  let (infer_res, arg1_type, arg2_type) ← expect (infer_subtrees_for_both_types
    (s.expr_types arg1_id) arg1_start_idx (s.expr_types arg2_id) arg2_start_idx)
  if infer_res = .incompatible then
    .error (.constraint_error (.arg_type_error expr_id arg1_id arg2_id))
  else
    let expr_types := Function.update s.expr_types arg1_id arg1_type
    let expr_types := Function.update expr_types arg2_id arg2_type
    .ok ((infer_res.modified_lhs, infer_res.modified_rhs), { s with expr_types })

def apply_equal3_constraint (expr_id arg1_id arg2_id start_idx : Nat) (s : BodyTyping) :
    Except InferenceStop ((Bool × Bool × Bool) × BodyTyping) := do
  match ← expect (Types.apply_equal3_constraint s.expr_types expr_id arg1_id arg2_id start_idx) with
  | .ok (expr_types, progress) => .ok (progress, { s with expr_types })
  | .error error => .error (.constraint_error error)

def apply_equal_n_constraint (expr_id : Nat) (args : List Nat) (s : BodyTyping) :
    Except InferenceStop (List Bool × BodyTyping) := do
  match ← expect (Types.apply_equal_n_constraint s.expr_types expr_id args) with
  | .ok (expr_types, progress) => .ok (progress, { s with expr_types })
  | .error error => .error (.constraint_error error)

-- Whether it is certainly a string, and whether it certainly is none.
def type_is_certainly_or_certainly_not_string (expr_id : Nat) (s : BodyTyping) :
    Except InferenceStop (Bool × Bool) :=
  let expr_type := s.expr_types expr_id
  if expr_type.is_done then do
    let part ← expect expr_type.parts[0]?
    .ok (part = .string, part ≠ .string)
  else
    .ok (false, false)

end Constraints

section Queue

def queue_expr (expr_id : Nat) (s : BodyTyping) : BodyTyping :=
  { s with expr_queued := push_back s.expr_queued expr_id }

def queue_expr_parent (expr_id : Nat) (s : BodyTyping) : BodyTyping :=
  match body.parent_expr expr_id with
  | some parent_id => queue_expr parent_id s
  | none => s

def queue_exprs (expr_ids : List Nat) (s : BodyTyping) : BodyTyping :=
  expr_ids.foldl (fun s expr_id => queue_expr expr_id s) s

-- How an expression ends its progress: if its own type has progressed then its parent is queued, and
-- each of the expressions in it that has progressed is.
def queue_progress (expr_id : Nat) (progress_expr : Bool) (args : List (Bool × Nat)) (s : BodyTyping) :
    BodyTyping :=
  let s := if progress_expr then body.queue_expr_parent expr_id s else s
  args.foldl (fun s (progress_arg, arg_id) => if progress_arg then queue_expr arg_id s else s) s

end Queue

section Progress

-- What the operation asks of the type of that which is assigned to.
def progress_assigned (operation : AssignmentOperator) (arg1_id : Nat) (s : BodyTyping) :
    Except InferenceStop (Bool × BodyTyping) :=
  match operation with
  | .set => .ok (false, s)
  | .concatenated => body.apply_template_constraint arg1_id ARRAYLIKE_TEMPLATE s
  | .multiplied | .divided | .added | .subtracted =>
    body.apply_template_constraint arg1_id NUMBERLIKE_TEMPLATE s
  | .remained | .shiftedLeft | .shiftedRight | .bitwiseAnded | .bitwiseXored | .bitwiseOred =>
    body.apply_template_constraint arg1_id INTEGERLIKE_TEMPLATE s

def progress_assignment_expr (id : Nat) (operation : AssignmentOperator) (arg1_id arg2_id : Nat)
    (s : BodyTyping) : Except InferenceStop BodyTyping := do
  -- An assignment does not return anything.
  let (progress_expr, s) ← body.apply_forced_constraint id VOID_TEMPLATE s
  let (progress_forced, s) ← body.progress_assigned operation arg1_id s
  let ((progress_arg1, progress_arg2), s) ← apply_equal2_constraint id arg1_id 0 arg2_id 0 s
  .ok (body.queue_progress id progress_expr
    [(progress_forced || progress_arg1, arg1_id), (progress_arg2, arg2_id)] s)

def progress_binding_expr (id bound_to_id bound_from_id : Nat) (s : BodyTyping) :
    Except InferenceStop BodyTyping := do
  let (progress_expr, s) ← body.apply_forced_constraint id BOOL_TEMPLATE s
  let ((progress_from, progress_to), s) ←
    apply_equal2_constraint id bound_from_id 0 bound_to_id 0 s
  .ok (body.queue_progress id progress_expr
    [(progress_from, bound_from_id), (progress_to, bound_to_id)] s)

-- The type of the test is there from the start.
def progress_conditional_expr (id arg1_id arg2_id : Nat) (s : BodyTyping) :
    Except InferenceStop BodyTyping := do
  let ((progress_expr, progress_arg1, progress_arg2), s) ←
    apply_equal3_constraint id arg1_id arg2_id 0 s
  .ok (body.queue_progress id progress_expr [(progress_arg1, arg1_id), (progress_arg2, arg2_id)] s)

-- If one of the three is a string then all must be strings. Otherwise the operands are like arrays, and
-- the result is an array.
def progress_concatenate (id arg1_id arg2_id : Nat) (s : BodyTyping) :
    Except InferenceStop ((Bool × Bool × Bool) × BodyTyping) := do
  let (expr_is_str, expr_is_not_str) ← type_is_certainly_or_certainly_not_string id s
  let (arg1_is_str, arg1_is_not_str) ← type_is_certainly_or_certainly_not_string arg1_id s
  let (arg2_is_str, arg2_is_not_str) ← type_is_certainly_or_certainly_not_string arg2_id s
  let someone_is_str := expr_is_str || arg1_is_str || arg2_is_str
  let someone_is_not_str := expr_is_not_str || arg1_is_not_str || arg2_is_not_str
  if someone_is_str then
    apply_equal3_constraint id arg1_id arg2_id 0 s
  else
    let (progress_expr, s) ← body.apply_template_constraint id
      (if someone_is_not_str then ARRAY_TEMPLATE else ARRAYLIKE_TEMPLATE) s
    let (progress_arg1, s) ← body.apply_template_constraint arg1_id ARRAYLIKE_TEMPLATE s
    let (progress_arg2, s) ← body.apply_template_constraint arg2_id ARRAYLIKE_TEMPLATE s
    let ((subtype_expr, subtype_arg1, subtype_arg2), s) ←
      apply_equal3_constraint id arg1_id arg2_id 1 s
    .ok ((progress_expr || subtype_expr, progress_arg1 || subtype_arg1,
      progress_arg2 || subtype_arg2), s)

-- All three have the same type, which the template restricts.
def progress_equal_operands (id arg1_id arg2_id : Nat) (template : List InferenceTypePart)
    (s : BodyTyping) : Except InferenceStop ((Bool × Bool × Bool) × BodyTyping) := do
  let (progress_base, s) ← body.apply_template_constraint id template s
  let ((progress_expr, progress_arg1, progress_arg2), s) ←
    apply_equal3_constraint id arg1_id arg2_id 0 s
  .ok ((progress_base || progress_expr, progress_base || progress_arg1,
    progress_base || progress_arg2), s)

def progress_binary_operands (id : Nat) (operation : BinaryOperator) (arg1_id arg2_id : Nat)
    (s : BodyTyping) : Except InferenceStop ((Bool × Bool × Bool) × BodyTyping) :=
  match operation with
  | .concatenate => body.progress_concatenate id arg1_id arg2_id s
  -- The source applies all three constraints to the expression itself.
  | .logicalAnd => do
    let (progress_expr, s) ← body.apply_forced_constraint id BOOL_TEMPLATE s
    let (progress_arg1, s) ← body.apply_forced_constraint id BOOL_TEMPLATE s
    let (progress_arg2, s) ← body.apply_forced_constraint id BOOL_TEMPLATE s
    .ok ((progress_expr, progress_arg1, progress_arg2), s)
  | .logicalOr => do
    let (progress_expr, s) ← body.apply_forced_constraint id BOOL_TEMPLATE s
    let (progress_arg1, s) ← body.apply_forced_constraint arg1_id BOOL_TEMPLATE s
    let (progress_arg2, s) ← body.apply_forced_constraint arg2_id BOOL_TEMPLATE s
    .ok ((progress_expr, progress_arg1, progress_arg2), s)
  | .bitwiseOr | .bitwiseXor | .bitwiseAnd | .remainder | .shiftLeft | .shiftRight =>
    body.progress_equal_operands id arg1_id arg2_id INTEGERLIKE_TEMPLATE s
  | .equality | .inequality => do
    let (progress_expr, s) ← body.apply_forced_constraint id BOOL_TEMPLATE s
    let ((progress_arg1, progress_arg2), s) ← apply_equal2_constraint id arg1_id 0 arg2_id 0 s
    .ok ((progress_expr, progress_arg1, progress_arg2), s)
  | .lessThan | .greaterThan | .lessThanEqual | .greaterThanEqual => do
    let (progress_expr, s) ← body.apply_forced_constraint id BOOL_TEMPLATE s
    let (progress_arg_base, s) ← body.apply_template_constraint arg1_id NUMBERLIKE_TEMPLATE s
    let ((progress_arg1, progress_arg2), s) ← apply_equal2_constraint id arg1_id 0 arg2_id 0 s
    .ok ((progress_expr, progress_arg_base || progress_arg1, progress_arg_base || progress_arg2), s)
  | .add | .subtract | .multiply | .divide =>
    body.progress_equal_operands id arg1_id arg2_id NUMBERLIKE_TEMPLATE s

def progress_binary_expr (id : Nat) (operation : BinaryOperator) (arg1_id arg2_id : Nat)
    (s : BodyTyping) : Except InferenceStop BodyTyping := do
  let ((progress_expr, progress_arg1, progress_arg2), s) ←
    body.progress_binary_operands id operation arg1_id arg2_id s
  .ok (body.queue_progress id progress_expr [(progress_arg1, arg1_id), (progress_arg2, arg2_id)] s)

def progress_unary_operand (id : Nat) (operation : UnaryOperator) (arg_id : Nat) (s : BodyTyping) :
    Except InferenceStop ((Bool × Bool) × BodyTyping) :=
  let equal_types (template : List InferenceTypePart) := do
    let (progress_base, s) ← body.apply_template_constraint id template s
    let ((progress_expr, progress_arg), s) ← apply_equal2_constraint id id 0 arg_id 0 s
    .ok ((progress_base || progress_expr, progress_base || progress_arg), s)
  match operation with
  | .positive | .negative => equal_types NUMBERLIKE_TEMPLATE
  | .bitwiseNot => equal_types INTEGERLIKE_TEMPLATE
  -- The source applies both constraints to the expression itself.
  | .logicalNot => do
    let (progress_expr, s) ← body.apply_forced_constraint id BOOL_TEMPLATE s
    let (progress_arg, s) ← body.apply_forced_constraint id BOOL_TEMPLATE s
    .ok ((progress_expr, progress_arg), s)

def progress_unary_expr (id : Nat) (operation : UnaryOperator) (arg_id : Nat) (s : BodyTyping) :
    Except InferenceStop BodyTyping := do
  let ((progress_expr, progress_arg), s) ← body.progress_unary_operand id operation arg_id s
  .ok (body.queue_progress id progress_expr [(progress_arg, arg_id)] s)

def progress_indexing_expr (id subject_id index_id : Nat) (s : BodyTyping) :
    Except InferenceStop BodyTyping := do
  let (progress_subject_base, s) ← body.apply_template_constraint subject_id ARRAYLIKE_TEMPLATE s
  let (progress_index, s) ← body.apply_template_constraint index_id INTEGERLIKE_TEMPLATE s
  -- If the output is a T then the subject is an array of T.
  let ((progress_expr, progress_subject), s) ← apply_equal2_constraint id id 0 subject_id 1 s
  .ok (body.queue_progress id progress_expr
    [(progress_subject_base || progress_subject, subject_id), (progress_index, index_id)] s)

-- The slice of a string is a string. The slice of anything else is a slice with the same elements, and
-- while it is not known what the subject is only the elements are.
def progress_slice (id subject_id : Nat) (s : BodyTyping) :
    Except InferenceStop ((Bool × Bool) × BodyTyping) := do
  let (is_str, is_not_str) ← type_is_certainly_or_certainly_not_string subject_id s
  if is_str then
    let (progress_expr, s) ← body.apply_forced_constraint id STRING_TEMPLATE s
    .ok ((progress_expr, false), s)
  else
    let (progress_expr_base, s) ← body.apply_template_constraint id
      (if is_not_str then SLICE_TEMPLATE else ARRAYLIKE_TEMPLATE) s
    let ((progress_expr, progress_subject), s) ← apply_equal2_constraint id id 1 subject_id 1 s
    .ok ((progress_expr_base || progress_expr, progress_subject), s)

def progress_slicing_expr (id subject_id from_id to_id : Nat) (s : BodyTyping) :
    Except InferenceStop BodyTyping := do
  let (progress_subject_base, s) ← body.apply_template_constraint subject_id ARRAYLIKE_TEMPLATE s
  let (progress_idx_base, s) ← body.apply_template_constraint from_id INTEGERLIKE_TEMPLATE s
  let ((progress_from, progress_to), s) ← apply_equal2_constraint id from_id 0 to_id 0 s
  let ((progress_expr, progress_subject), s) ← body.progress_slice id subject_id s
  .ok (body.queue_progress id progress_expr
    [(progress_subject_base || progress_subject, subject_id), (progress_idx_base || progress_from, from_id),
      (progress_idx_base || progress_to, to_id)] s)

def apply_literal_constraint (id : Nat) (literal : PlainLiteral) (s : BodyTyping) :
    Except InferenceStop (Bool × BodyTyping) :=
  match literal with
  | .null          => body.apply_template_constraint id MESSAGE_TEMPLATE s
  | .integer       => body.apply_template_constraint id INTEGERLIKE_TEMPLATE s
  | .true | .false => body.apply_forced_constraint id BOOL_TEMPLATE s
  | .character     => body.apply_forced_constraint id CHARACTER_TEMPLATE s
  | .string        => body.apply_forced_constraint id STRING_TEMPLATE s

def progress_plain_literal (id : Nat) (literal : PlainLiteral) (s : BodyTyping) :
    Except InferenceStop BodyTyping := do
  let (progress_expr, s) ← body.apply_literal_constraint id literal s
  .ok (body.queue_progress id progress_expr [] s)

def progress_array_literal (id : Nat) (elements : List Nat) (s : BodyTyping) :
    Except InferenceStop BodyTyping := do
  let (progress, s) ← apply_equal_n_constraint id elements s
  let s := (progress.zip elements).foldl
    (fun s (progress_arg, arg_id) => if progress_arg then queue_expr arg_id s else s) s
  let (progress_expr, s) ← body.apply_template_constraint id ARRAY_TEMPLATE s
  match elements with
  | [] => .ok (body.queue_progress id progress_expr [] s)
  | first_arg_id :: _ => do
    let ((inner_expr_progress, arg_progress), s) ←
      apply_equal2_constraint id id 1 first_arg_id 0 s
    -- The other elements get the type of the first one in another round.
    let s := if arg_progress then queue_expr id s else s
    .ok (body.queue_progress id (progress_expr || inner_expr_progress) [] s)

def is_bool_int_or_char : List InferenceTypePart → Bool
  | [part] => part = .bool || part = .character || part.is_concrete_integer
  | _ => false

-- Both types are known when a cast is checked. Nothing is inferred of the subject.
def progress_cast_expr (id : Nat) (to_type : ParserType) (subject_id : Nat) (s : BodyTyping) :
    Except InferenceStop BodyTyping := do
  let infer_type ← expect (body.determine_inference_type to_type)
  let (expr_progress, s) ← body.apply_template_constraint id infer_type.parts s
  let s := if expr_progress then body.queue_expr_parent id s else s
  let expr_type := s.expr_types id
  let subject_type := s.expr_types subject_id
  if !expr_type.is_done || !subject_type.is_done then
    .ok s
  else if is_bool_int_or_char expr_type.parts && is_bool_int_or_char subject_type.parts then
    .ok s
  else if expr_type.parts = subject_type.parts then
    .ok s
  else
    .error (.parse_error ⟨["invalid casting operation",
      "cannot cast the argument type '" ++ subject_type.display_name body.heap ++
        "' to the cast type '" ++ expr_type.display_name body.heap ++ "'"]⟩)

-- The other port of a channel has the same interior type. It is not inferred the other way round.
def progress_linked_var (var_type : InferenceType) (linked_id : VariableId) (s : BodyTyping) :
    Except InferenceStop BodyTyping := do
  let link_data ← expect (s.var_types linked_id)
  let (res, link_type) ←
    expect (infer_subtree_for_single_type link_data.var_type 1 var_type.parts 1 false)
  let s := { s with
    var_types := Function.update s.var_types linked_id (some { link_data with var_type := link_type }) }
  match res with
  | .modified     => .ok (queue_exprs link_data.used_at s)
  | .unmodified   => .ok s
  | .incompatible => .error (.parse_error
    ⟨["Conflicting types for this variable, assigned the type '" ++
        var_type.display_name body.heap ++ "'",
      "Because it is incompatible with this variable, assigned the type '" ++
        link_type.display_name body.heap ++ "'"]⟩)

-- The type of a variable has progressed: it is used elsewhere, and it may be the end of a channel.
def progress_var_uses (id : Nat) (var_data : VarData) (var_type : InferenceType) (s : BodyTyping) :
    Except InferenceStop BodyTyping :=
  let s := queue_exprs (var_data.used_at.filter (· ≠ id)) s
  match var_data.linked_var with
  | some linked_id => body.progress_linked_var var_type linked_id s
  | none           => .ok s

def progress_variable_expr (id : Nat) (var_id : VariableId) (s : BodyTyping) :
    Except InferenceStop BodyTyping := do
  let var_data ← expect (s.var_types var_id)
  let (infer_res, var_type, expr_type) ←
    expect (infer_subtrees_for_both_types var_data.var_type 0 (s.expr_types id) 0)
  if infer_res = .incompatible then
    .error (.parse_error
      ⟨["Conflicting types for this variable, previously assigned the type '" ++
          var_type.display_name body.heap ++ "'",
        "But inferred to have incompatible type '" ++ expr_type.display_name body.heap ++ "' here"]⟩)
  else
    let s := { s with
      expr_types := Function.update s.expr_types id expr_type
      var_types  := Function.update s.var_types var_id (some { var_data with var_type }) }
    let s ← if infer_res.modified_lhs then body.progress_var_uses id var_data var_type s else .ok s
    .ok (body.queue_progress id infer_res.modified_rhs [] s)

-- The calls, the selections and the literals of structs, enums and unions.
def progress_polymorphic_expr (id : Nat) (s : BodyTyping) : Except InferenceStop BodyTyping :=
  match body.toTypedBody.progress_expr id s.toPassTyping with
  | .ok pass_typing => .ok { s with toPassTyping := pass_typing }
  | .error stop     => .error stop.lift

def progress_expr (id : Nat) (s : BodyTyping) : Except InferenceStop BodyTyping :=
  match body.exprs id with
  | some (.assignment operation left right) => body.progress_assignment_expr id operation left right s
  | some (.binding bound_to bound_from) => body.progress_binding_expr id bound_to bound_from s
  | some (.conditional _ true_expression false_expression) =>
    body.progress_conditional_expr id true_expression false_expression s
  | some (.binary operation left right) => body.progress_binary_expr id operation left right s
  | some (.unary operation expression) => body.progress_unary_expr id operation expression s
  | some (.indexing subject index) => body.progress_indexing_expr id subject index s
  | some (.slicing subject from_index to_index) =>
    body.progress_slicing_expr id subject from_index to_index s
  | some (.plain_literal literal) => body.progress_plain_literal id literal s
  | some (.array_literal elements) => body.progress_array_literal id elements s
  | some (.polymorphic _) => body.progress_polymorphic_expr id s
  | some (.cast to_type subject) => body.progress_cast_expr id to_type subject s
  | some (.variable declaration) => body.progress_variable_expr id declaration s
  | none => .error (.panic .other)

end Progress

-- What the visit of a body does besides inserting the types that expressions and variables start with:
-- it notes where a variable is used, and it lets an expression progress when those in it have been
-- visited.
inductive TypingStep
  | used_at (expr_id : Nat) (var_id : VariableId)
  | progress (expr_id : Nat)

def step : TypingStep → BodyTyping → Except InferenceStop BodyTyping
  | .used_at expr_id var_id, s => .ok { s with
      var_types := Function.update s.var_types var_id
        ((s.var_types var_id).map fun data => { data with used_at := data.used_at ++ [expr_id] }) }
  | .progress expr_id, s => body.progress_expr expr_id s

-- The types before the visit. The source inserts each of them when the visit comes to the expression or
-- to the declaration, and does not look at it before.
structure Starts (s : BodyTyping) : Prop where
  exprs  : ∀ id, body.initial_expr_type id = some (s.expr_types id)
  data   : ∀ id, s.extra_data id = body.initial_extra_data id
  vars   : ∀ var_id, s.var_types var_id = body.initial_var_data var_id
  queued : s.expr_queued = []

def pop_front (s : BodyTyping) : Option (Nat × BodyTyping) :=
  match s.expr_queued with
  | [] => none
  | id :: expr_queued => some (id, { s with expr_queued })

-- The loop of `resolve_types`: it goes on until no progress is made any longer.
def progress_all (fuel : Nat) (s : BodyTyping) : Option (Except InferenceStop BodyTyping) :=
  Propagation.drain pop_front body.progress_expr fuel s

-- The visit of the body, and then the loop.
def infer_types (steps : List TypingStep) (fuel : Nat) (s : BodyTyping) :
    Option (Except InferenceStop BodyTyping) :=
  match steps.foldlM (fun s i => body.step i s) s with
  | .ok s    => body.progress_all fuel s
  | .error e => some (.error e)

end ProcedureBody
end Reowolf.Types
