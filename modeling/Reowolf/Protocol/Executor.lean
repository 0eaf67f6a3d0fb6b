import Reowolf.Protocol.LinkingStatements
import Reowolf.Protocol.Operators

namespace Reowolf

-- What type inference records for an expression of a procedure.
structure MonomorphExpression where
  expr_type              : ConcreteType
  field_or_monomorph_idx : Nat

-- What the evaluator reads: the settings of the compiler, the arena as the front end leaves it, and
-- the data of type inference by definition, monomorph and number of the expression.
structure EvalEnv where
  build       : Build
  definitions : DefinitionId → Option Definition
  arena       : Arena
  heap        : Heap
  expr_data   : DefinitionId → Nat → Nat → Option MonomorphExpression

-- What takes a component down: a fault of the evaluator itself, or an `unreachable!()` of what it runs
-- in, for what belongs to the other kind of run or for a value that is not a port of the direction.
inductive Panic
  | fault (fault : Fault)
  | phase
  | port
deriving DecidableEq

instance : MonadLift (Except Fault) (Except Panic) where
  monadLift := Except.mapError .fault

inductive ExprInstruction
  | evalExpr (expr : Expression)
  | pushValToFront

structure Frame where
  definition     : Definition
  monomorph_idx  : Nat
  position       : Option StatementId
  expr_stack     : List ExprInstruction -- with the back of the deque first
  expr_values    : List Value
  max_stack_size : Nat

-- The innermost frame comes first.
structure Prompt where
  frames : List Frame
  store  : Store

inductive EvalContinuation
  | stepping
  | inconsistent
  | terminal
  | syncBlockStart
  | syncBlockEnd
  | newComponent (definition : DefinitionId) (monomorph_idx : Nat) (args : ValueGroup)
  | blockFires (port : Value)
  | blockGet (port : Value)
  | put (port message : Value)
deriving DecidableEq

-- What the surroundings answer to a component, outside or inside of a synchronous block.
inductive EvalContext
  | none
  | nonsync (new_port_pair : PortId × PortId)
  | sync (is_firing : PortId → Option Bool) (read_msg : PortId → Option Payload)
      (did_put_or_get : PortId → Bool)

namespace EvalContext

def new_channel : EvalContext → Except Panic (Value × Value)
  | nonsync (from_id, to_id) => .ok (.output from_id, .input to_id)
  | _                        => .error .phase

def fires (ctx : EvalContext) (port : Value) : Except Panic (Option Value) :=
  match ctx with
  | sync is_firing _ _ =>
    match port with
    | .output port | .input port => .ok ((is_firing port).map .bool)
    | _                          => .error .port
  | _ => .error .phase

def get (ctx : EvalContext) (port : Value) (store : Store) : Except Panic (Option (Value × Store)) :=
  match ctx with
  | sync _ read_msg _ =>
    match port with
    | .input port =>
      match read_msg port with
      | .none => .ok .none
      | some payload => do
        let (pos, store) := store.alloc_heap
        let values ← (store.region pos : Except Fault (List Value))
        let bytes := payload.map fun byte => Value.integer .u8 byte.toBitVec
        .ok (some (.message pos, store.set_region pos (values ++ bytes)))
    | _ => .error .port
  | _ => .error .phase

def did_put (ctx : EvalContext) (port : Value) : Except Panic Bool :=
  match ctx with
  | sync _ _ did_put_or_get =>
    match port with
    | .output port => .ok (did_put_or_get port)
    | _            => .error .port
  | _ => .error .phase

end EvalContext

mutual

-- The instructions that evaluate an expression, in the order in which they are pushed.
def serialize_expression (names : Names) : Expression → List ExprInstruction
  | .assignment this op left right =>
    .evalExpr (.assignment this op left right) ::
      (serialize_expression names left ++ serialize_expression names right)
  | .binding this bound_to bound_from =>
    .evalExpr (.binding this bound_to bound_from) ::
      (serialize_expression names bound_to ++ serialize_expression names bound_from)
  | .conditional this test t f =>
    .evalExpr (.conditional this test t f) :: serialize_expression names test
  | .binary this op left right =>
    .evalExpr (.binary this op left right) ::
      (serialize_expression names left ++ serialize_expression names right)
  | .unary this op expr =>
    .evalExpr (.unary this op expr) :: serialize_expression names expr
  | .indexing this subject index =>
    .evalExpr (.indexing this subject index) ::
      (serialize_expression names index ++ serialize_expression names subject)
  | .slicing this subject from_index to_index =>
    .evalExpr (.slicing this subject from_index to_index) ::
      (serialize_expression names from_index ++ serialize_expression names to_index ++
        serialize_expression names subject)
  | .select this subject field_name =>
    .evalExpr (.select this subject field_name) :: serialize_expression names subject
  | .literal this value values =>
    let serialized := serialize_values names values
    .evalExpr (.literal this value values) ::
      match value with
      | .struct .. =>
        -- The fields in the order of the definition.
        let numbered := (names.expressions this).field_idx.zip serialized
        ((List.range values.length).flatMap fun want_field_idx =>
          (numbered.filter (·.1 = want_field_idx)).map Prod.snd).flatten
      | .union .. | .array => serialized.flatten
      | _ => []
  | .cast this subject =>
    .evalExpr (.cast this subject) :: serialize_expression names subject
  | .call this method arguments definition =>
    .evalExpr (.call this method arguments definition) ::
      (serialize_values names arguments).flatten
  | .variable this identifier => [.evalExpr (.variable this identifier)]

-- Every one of these expressions has its value moved to the front after it is evaluated.
def serialize_values (names : Names) : List Expression → List (List ExprInstruction)
  | [] => []
  | expr :: exprs =>
    (.pushValToFront :: serialize_expression names expr) :: serialize_values names exprs

end

namespace Frame

def new (heap : Heap) (definition : Definition) (monomorph_idx : Nat) : Frame where
  definition     := definition
  monomorph_idx  := monomorph_idx
  position       := some definition.body.this
  expr_stack     := []
  expr_values    := []
  max_stack_size := heap.determine_max_stack_size definition.body

def serialize (frame : Frame) (heap : Heap) (expr : Expression) : Frame :=
  { frame with
    expr_stack := (serialize_expression heap.names expr).reverse ++ frame.expr_stack }

def prepare_single_expression (frame : Frame) (heap : Heap) (expr : Expression) : Frame :=
  { frame with expr_values := [] }.serialize heap expr

def prepare_multiple_expressions (frame : Frame) (heap : Heap) (exprs : List Expression) : Frame :=
  { frame with
    expr_values := []
    expr_stack  := (serialize_values heap.names exprs).flatten.reverse ++ frame.expr_stack }

end Frame

def EvalEnv.node (env : EvalEnv) (id : StatementId) : Except Fault Node :=
  match env.arena.get id with
  | some node => .ok node
  | none      => .error .index

def EvalEnv.definition (env : EvalEnv) (id : DefinitionId) : Except Fault Definition :=
  match env.definitions id with
  | some definition => .ok definition
  | none            => .error .index

def EvalEnv.unique_id_in_scope (env : EvalEnv) (id : VariableId) : StackPos :=
  (env.heap.names.get id).unique_id_in_scope

-- The data of type inference for an expression of the current frame.
def EvalEnv.data (env : EvalEnv) (frame : Frame) (id : ExpressionId) :
    Except Fault MonomorphExpression :=
  match env.expr_data frame.definition.this frame.monomorph_idx
      (env.heap.names.expressions id).unique_id_in_definition with
  | some data => .ok data
  | none      => .error .index

def Prompt.new (heap : Heap) (definition : Definition) (monomorph_idx : Nat) (args : ValueGroup) :
    Except Fault Prompt := do
  let frame := Frame.new heap definition monomorph_idx
  let store ← args.into_store .new
  .ok ⟨[frame], store.reserve_stack frame.max_stack_size⟩

def pop_back (values : List Value) : Except Fault (Value × List Value) :=
  match values.getLast? with
  | some value => .ok (value, values.dropLast)
  | none       => .error .unwrap

def pop_front : List Value → Except Fault (Value × List Value)
  | []              => .error .unwrap
  | value :: values => .ok (value, values)

-- `rotate_right(1)`.
def rotate_right (values : List Value) : Except Fault (List Value) :=
  match values.getLast? with
  | some value => .ok (value :: values.dropLast)
  | none       => .error .assertion

def take_ownership : List Value → Store → Except Fault (List Value × Store)
  | [], store => .ok ([], store)
  | value :: values, store => do
    let (value, store) ← store.read_take_ownership value
    let (values, store) ← take_ownership values store
    .ok (value :: values, store)

def transfer_expression_values_front_into_heap (values : List Value) (store : Store)
    (num_values : Nat) : Except Fault (HeapPos × List Value × Store) := do
  let (pos, store) := store.alloc_heap
  if values.length < num_values then .error .index
  else
    let (owned, store) ← take_ownership (values.take num_values) store
    let region ← store.region pos
    .ok (pos, values.drop num_values, store.set_region pos (region ++ owned))

-- The position of the region of an array, string or message.
def array_heap_pos : Value → Except Fault HeapPos
  | .string pos | .array pos | .message pos => .ok pos
  | _                                       => .error .unreachable

def construct_array_error (idx : Int) (array_len : Nat) : Fault :=
  .evalError ("index " ++ toString idx ++ " is out of bounds: array length is " ++
    toString array_len)

-- The index of an element, or where `inclusive` is false the end of a range of elements.
def check_array_index (store : Store) (pos : HeapPos) (idx : Int) (inclusive : Bool) :
    Except Fault Nat := do
  let array_len := (← store.region pos).length
  if idx < 0 ∨ (if inclusive then (array_len : Int) ≤ idx else (array_len : Int) < idx) then
    .error (construct_array_error idx array_len)
  else .ok idx.toNat

-- What an expression does to the values and the store.
abbrev Evaluated := Except Fault (List Value × Store)

def eval_assignment (env : EvalEnv) (op : AssignmentOperator) (values : List Value) (store : Store) :
    Evaluated := do
  let (to_value, values) ← pop_back values
  let to_id ← to_value.as_ref
  let (rhs, values) ← pop_back values
  let (rhs, store) ← store.read_take_ownership rhs
  let store ← apply_assignment_operator env.build store to_id op rhs
  .ok (values, store)

def eval_binding (values : List Value) (store : Store) : Evaluated := do
  let (bind_to, values) ← pop_back values
  let (bind_from, values) ← pop_back values
  let (result, store) ← apply_binding_operator store bind_to bind_from
  let store ← store.drop_value bind_to.get_heap_pos
  let store ← store.drop_value bind_from.get_heap_pos
  .ok (values ++ [.bool result], store)

def eval_binary (env : EvalEnv) (op : BinaryOperator) (values : List Value) (store : Store) :
    Evaluated := do
  let (lhs, values) ← pop_back values
  let (rhs, values) ← pop_back values
  let (result, store) ← apply_binary_operator env.build store lhs op rhs
  let store ← store.drop_value lhs.get_heap_pos
  let store ← store.drop_value rhs.get_heap_pos
  .ok (values ++ [result], store)

def eval_unary (env : EvalEnv) (op : UnaryOperator) (values : List Value) (store : Store) :
    Evaluated := do
  let (value, values) ← pop_back values
  let result ← apply_unary_operator env.build store op value
  let store ← store.drop_value value.get_heap_pos
  .ok (values ++ [result], store)

-- Part of a subject: a reference where the subject is one, else a copy after which the subject is
-- dropped.
def eval_part (subject : Value) (pos : HeapPos) (idx : Nat) (values : List Value) (store : Store) :
    Evaluated :=
  match subject with
  | .ref _ => .ok (values ++ [.ref (.heap pos idx)], store)
  | _ => do
    let (value, store) ← store.clone_value (.ref (.heap pos idx))
    let store ← store.drop_value (some pos)
    .ok (values ++ [value], store)

def eval_indexing (values : List Value) (store : Store) : Evaluated := do
  let (index, values) ← pop_back values
  let index ← (← store.maybe_read_ref index).as_index
  let (subject, values) ← pop_back values
  let pos ← array_heap_pos (← store.maybe_read_ref subject)
  let idx ← check_array_index store pos index true
  eval_part subject pos idx values store

def eval_slicing (values : List Value) (store : Store) : Evaluated := do
  let (from_index, values) ← pop_back values
  let from_index ← store.maybe_read_ref from_index
  let (to_index, values) ← pop_back values
  let to_index ← store.maybe_read_ref to_index
  let from_index ← from_index.as_index
  let to_index ← to_index.as_index
  let (subject, values) ← pop_back values
  let deref_subject ← store.maybe_read_ref subject
  let pos ← array_heap_pos deref_subject
  let from_idx ← check_array_index store pos from_index true
  let to_idx ← check_array_index store pos to_index false
  let (new_pos, store) := store.alloc_heap
  let (new_values, store) ← clone_onto pos (List.range' from_idx (to_idx - from_idx)) [] store
  let store := if from_idx < to_idx then store.set_region new_pos new_values else store
  let store ← store.drop_value subject.get_heap_pos
  .ok (values ++ [deref_subject.with_heap_pos new_pos], store)

def eval_select (env : EvalEnv) (frame : Frame) (this : ExpressionId) (values : List Value)
    (store : Store) : Evaluated := do
  let (subject, values) ← pop_back values
  let data ← env.data frame this
  let pos ← (← store.maybe_read_ref subject).as_struct
  eval_part subject pos data.field_or_monomorph_idx values store

-- The characters of a string literal, one for every byte.
def string_values (s : String) : List Value :=
  s.toUTF8.toList.map fun byte => .char (Char.ofNat byte.toNat)

def eval_literal (env : EvalEnv) (frame : Frame) (this : ExpressionId) (value : Literal)
    (num_values : Nat) (values : List Value) (store : Store) : Evaluated :=
  match value with
  | .null        => .ok (values ++ [.null], store)
  | .true        => .ok (values ++ [.bool true], store)
  | .false       => .ok (values ++ [.bool false], store)
  | .character c => .ok (values ++ [.char c], store)
  | .string s => do
    let (pos, store) := store.alloc_heap
    let region ← store.region pos
    .ok (values ++ [.string pos], store.set_region pos (region ++ string_values s))
  | .integer unsigned_value => do
    match (← env.data frame this).expr_type with
    | .integer type :: _ => .ok (values ++ [.integer type (unsigned_value.setWidth type.bits)], store)
    | _                  => .error .unreachable
  | .struct .. => do
    let (pos, values, store) ← transfer_expression_values_front_into_heap values store num_values
    .ok (values ++ [.struct pos], store)
  | .enum .. => .ok (values ++ [.enum (env.heap.names.expressions this).variant_idx], store)
  | .union .. => do
    let (pos, values, store) ← transfer_expression_values_front_into_heap values store num_values
    .ok (values ++ [.union (env.heap.names.expressions this).variant_idx pos], store)
  | .array => do
    let (pos, values, store) ← transfer_expression_values_front_into_heap values store num_values
    .ok (values ++ [.array pos], store)

def eval_cast (env : EvalEnv) (frame : Frame) (this : ExpressionId) (values : List Value)
    (store : Store) : Evaluated := do
  let data ← env.data frame this
  let (subject, values) ← pop_back values
  let (result, store) ← apply_casting env.build store data.expr_type subject
  match result with
  | .error msg => .error (.evalError msg)
  | .ok value =>
    let store ← store.drop_value subject.get_heap_pos
    .ok (values ++ [value], store)

def eval_variable (env : EvalEnv) (this : ExpressionId) (values : List Value) (store : Store) :
    Evaluated :=
  let data := env.heap.names.expressions this
  match data.declaration with
  | none => .error .unwrap
  | some declaration =>
    let pos := env.unique_id_in_scope declaration
    .ok (values ++ [if data.used_as_binding_target then .binding pos else .ref (.stack pos)], store)

def eval_create (values : List Value) (store : Store) : Evaluated := do
  let (length_value, values) ← pop_front values
  let length ← (← store.maybe_read_ref length_value).as_any_integer
  if length < 0 then
    .error (.evalError ("got length '" ++ toString length ++
      "', can only create a message with a non-negative length"))
  else
    let (pos, store) := store.alloc_heap
    let region ← store.region pos
    let zeroes := List.replicate (length.toNat - region.length) (Value.integer .u8 0)
    .ok (values ++ [.message pos], store.set_region pos (region.take length.toNat ++ zeroes))

def eval_length (values : List Value) (store : Store) : Evaluated := do
  let (value, values) ← pop_front values
  let pos ← match ← store.maybe_read_ref value with
    | .array pos | .string pos => .ok pos
    | _ => .error .unreachable
  let len := (← store.region pos).length
  let store ← store.drop_value value.get_heap_pos
  .ok (values ++ [.integer ⟨false, .w32⟩ (BitVec.ofNat _ len)], store)

-- Moves the arguments of a call from the front of the values to the top of the stack.
def push_arguments : Nat → List Value → Store → Evaluated
  | 0, values, store => .ok (values, store)
  | num_args + 1, values, store => do
    let (argument, values) ← pop_front values
    let (argument, store) ← store.read_take_ownership argument
    push_arguments num_args values { store with stack := store.stack ++ [argument] }

-- What comes out of one round of the loop of `Prompt::step`: another round, or its result.
inductive Outcome
  | more (prompt : Prompt)
  | done (continuation : EvalContinuation) (prompt : Prompt)

section

variable (env : EvalEnv) (ctx : EvalContext) (frame : Frame) (frames : List Frame)

-- The result of an expression that did not leave the frame.
def finish_expr (result : Evaluated) : Except Panic Outcome := do
  let (expr_values, store) ← result
  .ok (.more ⟨{ frame with expr_values } :: frames, store⟩)

def call_user_function (this : ExpressionId) (num_args : Nat) (definition : DefinitionId)
    (store : Store) : Except Panic Outcome := do
  let cur_stack_boundary := store.cur_stack_boundary
  let new_stack_boundary := store.stack.length
  let store := { store with stack := store.stack ++ [.prevStackBoundary cur_stack_boundary] }
  let (expr_values, store) ← push_arguments num_args frame.expr_values store
  let data ← env.data frame this
  let definition ← env.definition definition
  let new_frame := Frame.new env.heap definition data.field_or_monomorph_idx
  let store := { store with cur_stack_boundary := new_stack_boundary }
  .ok (.done .stepping
    ⟨new_frame :: { frame with expr_values } :: frames, store.reserve_stack new_frame.max_stack_size⟩)

-- A call that has to be evaluated again, once the component has been heard.
def block_on (call : Expression) (expr_values : List Value) (continuation : EvalContinuation)
    (store : Store) : Except Panic Outcome :=
  .ok (.done continuation
    ⟨{ frame with expr_values, expr_stack := .evalExpr call :: frame.expr_stack } :: frames, store⟩)

def eval_get (call : Expression) (store : Store) : Except Panic Outcome := do
  let (value, values) ← pop_front frame.expr_values
  let value ← store.maybe_read_ref value
  match ← ctx.get value store with
  | some (result, store) => finish_expr frame frames (.ok (values ++ [result], store))
  | none => block_on frame frames call (value :: values) (.blockGet value) store

def eval_put (call : Expression) (store : Store) : Except Panic Outcome := do
  let (port_value, values) ← pop_front frame.expr_values
  let deref_port_value ← store.maybe_read_ref port_value
  let (msg_value, values) ← pop_front values
  let deref_msg_value ← store.maybe_read_ref msg_value
  match deref_msg_value with
  | .message _ =>
    if ← ctx.did_put deref_port_value then
      let store ← store.drop_value msg_value.get_heap_pos
      finish_expr frame frames (.ok (values, store))
    else
      block_on frame frames call (port_value :: msg_value :: values)
        (.put deref_port_value deref_msg_value) store
  | _ => .error (.fault (.evalError ("Calls to `put` are currently restricted to only send instances of " ++
      "`msg` types. This will change in the future")))

def eval_fires (call : Expression) (store : Store) : Except Panic Outcome := do
  let (port_value, values) ← pop_front frame.expr_values
  let port_value_deref ← store.maybe_read_ref port_value
  match ← ctx.fires port_value_deref with
  | none => block_on frame frames call (port_value :: values) (.blockFires port_value_deref) store
  | some value => finish_expr frame frames (.ok (values ++ [value], store))

def eval_assert (store : Store) : Except Panic Outcome := do
  let (value, values) ← pop_front frame.expr_values
  let value ← store.maybe_read_ref value
  if ← value.as_bool then finish_expr frame frames (.ok (values, store))
  else .ok (.done .inconsistent ⟨{ frame with expr_values := values } :: frames, store⟩)

def eval_call (this : ExpressionId) (method : Method) (arguments : List Expression)
    (definition : DefinitionId) (store : Store) : Except Panic Outcome :=
  let call := Expression.call this method arguments definition
  match method with
  | .get           => eval_get ctx frame frames call store
  | .put           => eval_put ctx frame frames call store
  | .fires         => eval_fires ctx frame frames call store
  | .create        => finish_expr frame frames (eval_create frame.expr_values store)
  | .length        => finish_expr frame frames (eval_length frame.expr_values store)
  | .assert        => eval_assert frame frames store
  | .userComponent => finish_expr frame frames (.ok (frame.expr_values, store))
  | .userFunction  => call_user_function env frame frames this arguments.length definition store

def eval_conditional (true_expression false_expression : Expression) (store : Store) :
    Except Panic Outcome := do
  let (test, expr_values) ← pop_back frame.expr_values
  let next := if ← test.as_bool then true_expression else false_expression
  .ok (.more ⟨{ frame with expr_values }.serialize env.heap next :: frames, store⟩)

-- Evaluates an expression whose operands are on the values of the frame.
def eval_expr (expr : Expression) (store : Store) : Except Panic Outcome :=
  let values := frame.expr_values
  match expr with
  | .assignment _ op _ _      => finish_expr frame frames (eval_assignment env op values store)
  | .binding ..               => finish_expr frame frames (eval_binding values store)
  | .conditional _ _ t f      => eval_conditional env frame frames t f store
  | .binary _ op _ _          => finish_expr frame frames (eval_binary env op values store)
  | .unary _ op _             => finish_expr frame frames (eval_unary env op values store)
  | .indexing ..              => finish_expr frame frames (eval_indexing values store)
  | .slicing ..               => finish_expr frame frames (eval_slicing values store)
  | .select this ..           => finish_expr frame frames (eval_select env frame this values store)
  | .literal this value exprs =>
    finish_expr frame frames (eval_literal env frame this value exprs.length values store)
  | .cast this _              => finish_expr frame frames (eval_cast env frame this values store)
  | .call this method arguments definition =>
    eval_call env ctx frame frames this method arguments definition store
  | .variable this _          => finish_expr frame frames (eval_variable env this values store)

def eval_instruction (instruction : ExprInstruction) (store : Store) : Except Panic Outcome :=
  match instruction with
  | .pushValToFront => do
    let expr_values ← rotate_right frame.expr_values
    finish_expr frame frames (.ok (expr_values, store))
  | .evalExpr expr => eval_expr env ctx frame frames expr store

-- Puts the expressions that the statement at the new position needs on the expression stack.
def prepare_position (frame : Frame) : Except Fault Frame :=
  match frame.position with
  | none => .ok frame
  | some position => do
    match ← env.node position with
    | .statement (.if _ test ..)          => .ok (frame.prepare_single_expression env.heap test)
    | .statement (.while _ test ..)       => .ok (frame.prepare_single_expression env.heap test)
    | .statement (.return _ expression)   => .ok (frame.prepare_single_expression env.heap expression)
    | .statement (.new _ _ _ arguments _) =>
      .ok (frame.prepare_multiple_expressions env.heap arguments)
    | .statement (.expression _ expression) =>
      .ok (frame.prepare_single_expression env.heap expression)
    | _ => .ok frame

-- The end of a step that executed a statement and so moved to a new position.
def finish_stmt (continuation : EvalContinuation) (position : Option StatementId)
    (expr_values : List Value) (store : Store) : Except Panic Outcome := do
  if expr_values ≠ [] then .error (.fault .assertion)
  else
    let frame ← prepare_position env { frame with position, expr_values }
    .ok (.done continuation ⟨frame :: frames, store⟩)

-- The test of an if or while statement.
def pop_test (store : Store) : Except Fault (Bool × List Value) := do
  let (value, values) ← pop_back frame.expr_values
  let test ← (← store.maybe_read_ref value).as_bool
  .ok (test, values)

def exec_channel (from_id to_id : VariableId) (position : Option StatementId) (store : Store) :
    Except Panic Outcome := do
  let (from_value, to_value) ← ctx.new_channel
  let store ← store.write (.stack (env.unique_id_in_scope from_id)) from_value
  let store ← store.write (.stack (env.unique_id_in_scope to_id)) to_value
  finish_stmt env frame frames .stepping position frame.expr_values store

-- The rest of a return after its value is at hand: leaves the frame and its part of the stack.
def leave_frame (return_value : Value) (store : Store) : Except Panic Outcome := do
  let store ← store.clear_stack 0
  let stack := store.stack.take (store.cur_stack_boundary + 1)
  let (boundary, stack) ← pop_back stack
  let prev_stack_idx ← boundary.as_stack_boundary
  match frames with
  | [] => .ok (.done .terminal ⟨[], { store with stack := stack ++ [return_value] }⟩)
  | caller :: frames =>
    .ok (.done .stepping
      ⟨{ caller with expr_values := caller.expr_values ++ [return_value] } :: frames,
        { store with stack, cur_stack_boundary := prev_stack_idx.toNat }⟩)

def exec_return (store : Store) : Except Panic Outcome := do
  let (return_value, _) ← pop_back frame.expr_values
  let (return_value, store) ← store.read_take_ownership return_value
  leave_frame frames return_value store

def drop_values : List Value → Store → Except Fault Store
  | [], store => .ok store
  | value :: values, store => do
    let store ← store.drop_value value.get_heap_pos
    drop_values values store

def exec_new (call : ExpressionId) (definition : DefinitionId) (position : Option StatementId)
    (store : Store) : Except Panic Outcome := do
  let data ← env.data frame call
  let args := frame.expr_values
  let argument_group ← ValueGroup.from_store store args
  let store ← drop_values args store
  finish_stmt env frame frames
    (.newComponent definition data.field_or_monomorph_idx argument_group) position [] store

-- Executes the statement at the position.
def exec_stmt (id : StatementId) (node : Node) (store : Store) : Except Panic Outcome :=
  let heap := env.heap
  let finish := finish_stmt env frame frames
  let values := frame.expr_values
  match node with
  | .statement (.block body) => finish .stepping (heap.next body.this) values store
  | .endBlock start_block => do
    let store ← store.clear_stack (heap.first_unique_id_in_scope start_block)
    finish .stepping (heap.next id) values store
  | .statement (.memory _ «variable») => do
    let store ← store.write (.stack (env.unique_id_in_scope «variable»)) .unassigned
    finish .stepping (heap.next id) values store
  | .statement (.channel _ from_id to_id) =>
    exec_channel env ctx frame frames from_id to_id (heap.next id) store
  | .statement (.labeled _ _ body) => finish .stepping (some body.this) values store
  | .statement (.if _ _ true_body false_body end_if) => do
    let (test, values) ← pop_test frame store
    let position := if test then true_body.this else (false_body.map (·.this)).getD end_if
    finish .stepping (some position) values store
  | .statement (.while _ _ body end_while) => do
    let (test, values) ← pop_test frame store
    finish .stepping (some (if test then body.this else end_while)) values store
  | .endIf _ | .endWhile _ => finish .stepping (heap.next id) values store
  | .statement (.break ..) | .statement (.continue ..) | .statement (.goto ..) =>
    match heap.target id with
    | some target => finish .stepping (some target) values store
    | none        => .error (.fault .unwrap)
  | .statement (.synchronous _ body _) => finish .syncBlockStart (some body.this) values store
  | .endSynchronous _ => finish .syncBlockEnd (heap.next id) values store
  | .statement (.return ..) => exec_return frame frames store
  | .statement (.new _ call _ _ definition) =>
    exec_new env frame frames call definition (heap.next id) store
  | .statement (.expression ..) => finish .stepping (heap.next id) values store

end

-- One round of the loop of `Prompt::step`, or what comes after the loop.
def Prompt.advance (env : EvalEnv) (ctx : EvalContext) (prompt : Prompt) : Except Panic Outcome :=
  match prompt.frames with
  | [] => .error (.fault .unwrap)
  | frame :: frames =>
    match frame.position with
    | none =>
      if frame.definition.kind = .function then .error (.fault .todo)
      else .ok (.done .terminal prompt)
    | some position =>
      match frame.expr_stack with
      | instruction :: expr_stack =>
        eval_instruction env ctx { frame with expr_stack } frames instruction prompt.store
      | [] => do
        let node ← env.node position
        exec_stmt env ctx frame frames position node prompt.store

-- `Prompt::step`, with a bound on the rounds of its loop.
def Prompt.step (env : EvalEnv) (ctx : EvalContext) : Nat → Prompt → Except Panic (EvalContinuation × Prompt)
  | 0, _ => .error (.fault .recursion)
  | rounds + 1, prompt => do
    match ← prompt.advance env ctx with
    | .more prompt              => Prompt.step env ctx rounds prompt
    | .done continuation prompt => .ok (continuation, prompt)

end Reowolf
