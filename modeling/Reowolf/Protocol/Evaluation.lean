import Mathlib.Data.List.Perm.Basic
import Reowolf.Library.Machine
import Reowolf.Protocol.Executor

namespace Reowolf

section

variable (env : EvalEnv) (frame : Frame)

-- The operators, on the values of their operands.
def assign (op : AssignmentOperator) (to_value rhs : Value) (store : Store) : Except Fault Store := do
  let to_id ← to_value.as_ref
  let (rhs, store) ← store.read_take_ownership rhs
  apply_assignment_operator env.build store to_id op rhs

def bind_values (bind_to bind_from : Value) (store : Store) : Except Fault (Value × Store) := do
  let (result, store) ← apply_binding_operator store bind_to bind_from
  let store ← store.drop_value bind_to.get_heap_pos
  let store ← store.drop_value bind_from.get_heap_pos
  .ok (.bool result, store)

def binary_value (op : BinaryOperator) (lhs rhs : Value) (store : Store) :
    Except Fault (Value × Store) := do
  let (result, store) ← apply_binary_operator env.build store lhs op rhs
  let store ← store.drop_value lhs.get_heap_pos
  let store ← store.drop_value rhs.get_heap_pos
  .ok (result, store)

def unary_value (op : UnaryOperator) (value : Value) (store : Store) :
    Except Fault (Value × Store) := do
  let result ← apply_unary_operator env.build store op value
  let store ← store.drop_value value.get_heap_pos
  .ok (result, store)

def part_value (subject : Value) (pos : HeapPos) (idx : Nat) (store : Store) :
    Except Fault (Value × Store) :=
  match subject with
  | .ref _ => .ok (.ref (.heap pos idx), store)
  | _ => do
    let (value, store) ← store.clone_value (.ref (.heap pos idx))
    let store ← store.drop_value (some pos)
    .ok (value, store)

def index_value (subject index : Value) (store : Store) : Except Fault (Value × Store) := do
  let index ← (← store.maybe_read_ref index).as_index
  let pos ← array_heap_pos (← store.maybe_read_ref subject)
  let idx ← check_array_index store pos index true
  part_value subject pos idx store

def slice_value (subject from_index to_index : Value) (store : Store) :
    Except Fault (Value × Store) := do
  let from_index ← store.maybe_read_ref from_index
  let to_index ← store.maybe_read_ref to_index
  let from_index ← from_index.as_index
  let to_index ← to_index.as_index
  let deref_subject ← store.maybe_read_ref subject
  let pos ← array_heap_pos deref_subject
  let from_idx ← check_array_index store pos from_index true
  let to_idx ← check_array_index store pos to_index false
  let (new_pos, store) := store.alloc_heap
  let (new_values, store) ← clone_onto pos (List.range' from_idx (to_idx - from_idx)) [] store
  let store := if from_idx < to_idx then store.set_region new_pos new_values else store
  let store ← store.drop_value subject.get_heap_pos
  .ok (deref_subject.with_heap_pos new_pos, store)

def select_value (this : ExpressionId) (subject : Value) (store : Store) :
    Except Fault (Value × Store) := do
  let data ← env.data frame this
  let pos ← (← store.maybe_read_ref subject).as_struct
  part_value subject pos data.field_or_monomorph_idx store

-- The values become the region of a struct, union or array.
def region_value (values : List Value) (store : Store) : Except Fault (HeapPos × Store) := do
  let (pos, store) := store.alloc_heap
  let (owned, store) ← take_ownership values store
  let region ← store.region pos
  .ok (pos, store.set_region pos (region ++ owned))

def literal_value (this : ExpressionId) (value : Literal) (values : List Value) (store : Store) :
    Except Fault (Value × Store) :=
  match value with
  | .struct .. => do
    let (pos, store) ← region_value values store
    .ok (.struct pos, store)
  | .union .. => do
    let (pos, store) ← region_value values store
    .ok (.union (env.heap.names.expressions this).variant_idx pos, store)
  | .array => do
    let (pos, store) ← region_value values store
    .ok (.array pos, store)
  | .null        => .ok (.null, store)
  | .true        => .ok (.bool true, store)
  | .false       => .ok (.bool false, store)
  | .character c => .ok (.char c, store)
  | .string s => do
    let (pos, store) := store.alloc_heap
    let region ← store.region pos
    .ok (.string pos, store.set_region pos (region ++ string_values s))
  | .integer unsigned_value => do
    match (← env.data frame this).expr_type with
    | .integer type :: _ => .ok (.integer type (unsigned_value.setWidth type.bits), store)
    | _                  => .error .unreachable
  | .enum .. => .ok (.enum (env.heap.names.expressions this).variant_idx, store)

def cast_value (this : ExpressionId) (subject : Value) (store : Store) :
    Except Fault (Value × Store) := do
  let data ← env.data frame this
  let (result, store) ← apply_casting env.build store data.expr_type subject
  match result with
  | .error msg => .error (.evalError msg)
  | .ok value =>
    let store ← store.drop_value subject.get_heap_pos
    .ok (value, store)

def variable_value (this : ExpressionId) : Except Fault Value :=
  let data := env.heap.names.expressions this
  match data.declaration with
  | none => .error .unwrap
  | some declaration =>
    let pos := env.unique_id_in_scope declaration
    .ok (if data.used_as_binding_target then .binding pos else .ref (.stack pos))

def create_value (length_value : Value) (store : Store) : Except Fault (Value × Store) := do
  let length ← (← store.maybe_read_ref length_value).as_any_integer
  if length < 0 then
    .error (.evalError ("got length '" ++ toString length ++
      "', can only create a message with a non-negative length"))
  else
    let (pos, store) := store.alloc_heap
    let region ← store.region pos
    let zeroes := List.replicate (length.toNat - region.length) (Value.integer .u8 0)
    .ok (.message pos, store.set_region pos (region.take length.toNat ++ zeroes))

def length_value (value : Value) (store : Store) : Except Fault (Value × Store) := do
  let pos ← match ← store.maybe_read_ref value with
    | .array pos | .string pos => .ok pos
    | _ => .error .unreachable
  let len := (← store.region pos).length
  let store ← store.drop_value value.get_heap_pos
  .ok (.integer ⟨false, .w32⟩ (BitVec.ofNat _ len), store)

end

-- What an expression does to the store, and its value. It has none if it is void.
abbrev Evaluation := Store → Option Value → Store → Prop

-- A builtin call. The surroundings answer it in some state of theirs, maybe after it has waited.
def Method.Evaluates : Method → List Value → Evaluation
  | .get, [port_value], store, value, store' =>
    ∃ port ctx result, store.maybe_read_ref port_value = .ok port ∧
      EvalContext.get ctx port store = .ok (some (result, store')) ∧ value = some result
  | .put, [port_value, msg_value], store, value, store' =>
    ∃ port pos ctx, store.maybe_read_ref port_value = .ok port ∧
      store.maybe_read_ref msg_value = .ok (.message pos) ∧
      EvalContext.did_put ctx port = .ok true ∧
      store.drop_value msg_value.get_heap_pos = .ok store' ∧ value = none
  | .fires, [port_value], store, value, store' =>
    ∃ port ctx result, store.maybe_read_ref port_value = .ok port ∧
      EvalContext.fires ctx port = .ok (some result) ∧ value = some result ∧ store' = store
  | .create, [size], store, value, store' =>
    ∃ result, create_value size store = .ok (result, store') ∧ value = some result
  | .length, [array], store, value, store' =>
    ∃ result, length_value array store = .ok (result, store') ∧ value = some result
  | .assert, [condition], store, value, store' =>
    ∃ holds, store.maybe_read_ref condition = .ok holds ∧ holds.as_bool = .ok true ∧ value = none ∧
      store' = store
  | _, _, _, _, _ => False

-- The operands of a literal, in the order in which they fill its region: the fields of a struct in the
-- order of the definition.
def Literal.operands {α : Type} (field_idx : List Nat) (values : List α) : Literal → List α
  | .struct .. => (List.range values.length).flatMap fun want_field_idx =>
    ((field_idx.zip values).filter (·.1 = want_field_idx)).map Prod.snd
  | .union .. | .array => values
  | _                  => []

-- The last of the operands is evaluated first.
def EvaluateAll : List Evaluation → Store → List Value → Store → Prop
  | [], store, values, store' => values = [] ∧ store' = store
  | evaluation :: evaluations, store, values, store' =>
    ∃ value rest store₁, EvaluateAll evaluations store rest store₁ ∧
      evaluation store₁ (some value) store' ∧ values = value :: rest

mutual

-- The value of an expression from the values of its operands.
def Expression.Evaluates (env : EvalEnv) (frame : Frame) : Expression → Evaluation
  | .assignment _ op left right, store, value, store' =>
    ∃ rhs store₁ lhs store₂, right.Evaluates env frame store (some rhs) store₁ ∧
      left.Evaluates env frame store₁ (some lhs) store₂ ∧
      assign env op lhs rhs store₂ = .ok store' ∧ value = none
  | .binding _ bound_to bound_from, store, value, store' =>
    ∃ bind_from store₁ bind_to store₂ result,
      bound_from.Evaluates env frame store (some bind_from) store₁ ∧
      bound_to.Evaluates env frame store₁ (some bind_to) store₂ ∧
      bind_values bind_to bind_from store₂ = .ok (result, store') ∧ value = some result
  | .conditional _ test t f, store, value, store' =>
    ∃ result store₁ holds, test.Evaluates env frame store (some result) store₁ ∧
      result.as_bool = .ok holds ∧
      if holds then t.Evaluates env frame store₁ value store'
      else f.Evaluates env frame store₁ value store'
  | .binary _ op left right, store, value, store' =>
    ∃ rhs store₁ lhs store₂ result, right.Evaluates env frame store (some rhs) store₁ ∧
      left.Evaluates env frame store₁ (some lhs) store₂ ∧
      binary_value env op lhs rhs store₂ = .ok (result, store') ∧ value = some result
  | .unary _ op expression, store, value, store' =>
    ∃ operand store₁ result, expression.Evaluates env frame store (some operand) store₁ ∧
      unary_value env op operand store₁ = .ok (result, store') ∧ value = some result
  | .indexing _ subject index, store, value, store' =>
    ∃ array store₁ idx store₂ result, subject.Evaluates env frame store (some array) store₁ ∧
      index.Evaluates env frame store₁ (some idx) store₂ ∧
      index_value array idx store₂ = .ok (result, store') ∧ value = some result
  | .slicing _ subject from_index to_index, store, value, store' =>
    ∃ array store₁ to_idx store₂ from_idx store₃ result,
      subject.Evaluates env frame store (some array) store₁ ∧
      to_index.Evaluates env frame store₁ (some to_idx) store₂ ∧
      from_index.Evaluates env frame store₂ (some from_idx) store₃ ∧
      slice_value array from_idx to_idx store₃ = .ok (result, store') ∧ value = some result
  | .select this subject _, store, value, store' =>
    ∃ operand store₁ result, subject.Evaluates env frame store (some operand) store₁ ∧
      select_value env frame this operand store₁ = .ok (result, store') ∧ value = some result
  | .literal this form values, store, value, store' =>
    ∃ operands store₁ result,
      EvaluateAll (form.operands (env.heap.names.expressions this).field_idx
        (Expression.evaluations env frame values)) store operands store₁ ∧
      literal_value env frame this form operands store₁ = .ok (result, store') ∧
      value = some result
  | .cast this subject, store, value, store' =>
    ∃ operand store₁ result, subject.Evaluates env frame store (some operand) store₁ ∧
      cast_value env frame this operand store₁ = .ok (result, store') ∧ value = some result
  | .call _ method arguments _, store, value, store' =>
    ∃ operands store₁, EvaluateAll (Expression.evaluations env frame arguments) store operands store₁ ∧
      method.Evaluates operands store₁ value store'
  | .variable this _, store, value, store' =>
    ∃ result, variable_value env this = .ok result ∧ value = some result ∧ store' = store

def Expression.evaluations (env : EvalEnv) (frame : Frame) : List Expression → List Evaluation
  | []            => []
  | expr :: exprs => expr.Evaluates env frame :: Expression.evaluations env frame exprs

end

-- The number of arguments of a builtin function. The others are called through a statement, or leave
-- the frame.
def Method.arity : Method → Option Nat
  | .get | .fires | .create | .length | .assert => some 1
  | .put                                        => some 2
  | .userFunction | .userComponent              => none

def Method.void : Method → Bool
  | .put | .assert => true
  | _              => false

-- An expression that has a value, whatever branches are taken in it.
def Expression.valued : Expression → Bool
  | .assignment ..        => false
  | .conditional _ _ t f  => t.valued && f.valued
  | .call _ method _ _    => !method.void
  | _                     => true

mutual

-- An expression without user calls, as the compiler lets it pass, in which no void expression is an
-- operand.
def Expression.WellFormed (names : Names) : Expression → Prop
  | .assignment _ _ left right | .binding _ left right | .binary _ _ left right
  | .indexing _ left right =>
    left.WellFormed names ∧ left.valued ∧ right.WellFormed names ∧ right.valued
  | .conditional _ test t f =>
    test.WellFormed names ∧ test.valued ∧ t.WellFormed names ∧ f.WellFormed names
  | .unary _ _ expression | .select _ expression _ | .cast _ expression =>
    expression.WellFormed names ∧ expression.valued
  | .slicing _ subject from_index to_index =>
    subject.WellFormed names ∧ subject.valued ∧ from_index.WellFormed names ∧ from_index.valued ∧
      to_index.WellFormed names ∧ to_index.valued
  | .literal this value values =>
    Expression.OperandsWellFormed names values ∧ ∀ definition fields,
      value = .struct definition fields →
        (names.expressions this).field_idx.Perm (List.range values.length)
  | .call _ method arguments _ =>
    Expression.OperandsWellFormed names arguments ∧ method.arity = some arguments.length
  | .variable .. => True

def Expression.OperandsWellFormed (names : Names) : List Expression → Prop
  | []            => True
  | expr :: exprs =>
    (expr.WellFormed names ∧ expr.valued) ∧ Expression.OperandsWellFormed names exprs

end

section

variable {struct_name : Identifier} {definition_fields fields : List Identifier}
variable {specified field_idx : List Nat}

end

section

variable {α β : Type}

theorem length_flatMap_filter (numbered : List (Nat × α)) (n : Nat) :
    ((List.range n).flatMap fun i => numbered.filter (·.1 = i)).length =
      numbered.countP (·.1 < n) := by
  induction n
  case zero => simp
  case succ n ih =>
    rw [List.range_succ, List.flatMap_append, List.length_append, ih]
    simp only [List.flatMap_cons, List.flatMap_nil, List.append_nil, ← List.countP_eq_length_filter]
    clear ih
    induction numbered
    case nil => rfl
    case cons entry numbered ih =>
      simp only [List.countP_cons, decide_eq_true_eq]
      grind

namespace Literal

variable {field_idx : List Nat} {values : List α} {form : Literal}

-- The operands that a literal takes, of as many as are written.
def takes (form : Literal) (num_values : Nat) : Nat :=
  match form with
  | .struct .. | .union .. | .array => num_values
  | _                               => 0

theorem length_operands
    (h : ∀ definition fields, form = .struct definition fields →
      field_idx.Perm (List.range values.length)) :
    (form.operands field_idx values).length = form.takes values.length := by
  cases form with
  | struct definition fields =>
    have hperm := h definition fields rfl
    have hlen : field_idx.length = values.length := by simpa using hperm.length_eq
    simp only [operands, takes, ← List.map_flatMap, List.length_map, length_flatMap_filter]
    rw [List.countP_eq_length.mpr]
    · simp [hlen]
    · intro entry he
      have hmem := (hperm.mem_iff (a := entry.1)).mp (List.of_mem_zip he).1
      simpa using hmem
  | _ => rfl

theorem mem_of_operands {value : α} (h : value ∈ form.operands field_idx values) : value ∈ values := by
  cases form with
  | struct =>
    simp only [operands, List.mem_flatMap, List.mem_map, List.mem_filter] at h
    obtain ⟨_, _, entry, ⟨he, _⟩, hv⟩ := h
    exact hv ▸ (List.of_mem_zip he).2
  | union | array => exact h
  | _ => cases h

theorem operands_map (f : α → β) :
    form.operands field_idx (values.map f) = (form.operands field_idx values).map f := by
  cases form with
  | struct =>
    simp only [operands, List.length_map, List.zip_map_right, List.filter_map, List.map_map,
      List.map_flatMap]
    rfl
  | union | array => rfl
  | _ => rfl

end Literal

end

theorem Method.evaluates_isSome {method : Method} {operands : List Value} {store store' : Store}
    {value : Option Value} (h : method.Evaluates operands store value store') :
    value.isSome = !method.void := by
  unfold Method.Evaluates at h
  split at h
  · obtain ⟨_, _, _, _, _, rfl⟩ := h; rfl
  · obtain ⟨_, _, _, _, _, _, _, rfl⟩ := h; rfl
  · obtain ⟨_, _, _, _, _, rfl, _⟩ := h; rfl
  · obtain ⟨_, _, rfl⟩ := h; rfl
  · obtain ⟨_, _, rfl⟩ := h; rfl
  · obtain ⟨_, _, _, rfl, _⟩ := h; rfl
  · cases h

theorem EvaluateAll.length {evaluations : List Evaluation} {store store' : Store} {values : List Value}
    (h : EvaluateAll evaluations store values store') : values.length = evaluations.length := by
  induction evaluations generalizing values store' with
  | nil => exact congrArg List.length h.1
  | cons evaluation evaluations ih =>
    obtain ⟨value, rest, store₁, hall, _, hv⟩ := h
    rw [hv, List.length_cons, List.length_cons, ih hall]

namespace Expression

variable {env : EvalEnv} {frame : Frame} {store store' : Store} {value : Option Value}

theorem evaluates_assignment {this : ExpressionId} {op : AssignmentOperator} {left right : Expression} :
    (Expression.assignment this op left right).Evaluates env frame store value store' ↔
      ∃ rhs store₁ lhs store₂, right.Evaluates env frame store (some rhs) store₁ ∧
        left.Evaluates env frame store₁ (some lhs) store₂ ∧
        assign env op lhs rhs store₂ = .ok store' ∧ value = none :=
  Iff.rfl

theorem evaluates_conditional {this : ExpressionId} {test t f : Expression} :
    (Expression.conditional this test t f).Evaluates env frame store value store' ↔
      ∃ result store₁ holds, test.Evaluates env frame store (some result) store₁ ∧
        result.as_bool = .ok holds ∧
        if holds then t.Evaluates env frame store₁ value store'
        else f.Evaluates env frame store₁ value store' :=
  Iff.rfl

theorem evaluates_slicing {this : ExpressionId} {subject from_index to_index : Expression} :
    (Expression.slicing this subject from_index to_index).Evaluates env frame store value store' ↔
      ∃ array store₁ to_idx store₂ from_idx store₃ result,
        subject.Evaluates env frame store (some array) store₁ ∧
        to_index.Evaluates env frame store₁ (some to_idx) store₂ ∧
        from_index.Evaluates env frame store₂ (some from_idx) store₃ ∧
        slice_value array from_idx to_idx store₃ = .ok (result, store') ∧ value = some result :=
  Iff.rfl

theorem evaluates_literal {this : ExpressionId} {form : Literal} {exprs : List Expression} :
    (Expression.literal this form exprs).Evaluates env frame store value store' ↔
      ∃ operands store₁ result,
        EvaluateAll (form.operands (env.heap.names.expressions this).field_idx
          (evaluations env frame exprs)) store operands store₁ ∧
        literal_value env frame this form operands store₁ = .ok (result, store') ∧
        value = some result :=
  Iff.rfl

theorem evaluates_call {this : ExpressionId} {method : Method} {arguments : List Expression}
    {definition : DefinitionId} :
    (Expression.call this method arguments definition).Evaluates env frame store value store' ↔
      ∃ operands store₁, EvaluateAll (evaluations env frame arguments) store operands store₁ ∧
        method.Evaluates operands store₁ value store' :=
  Iff.rfl

theorem evaluates_variable {this : ExpressionId} {identifier : Identifier} :
    (Expression.variable this identifier).Evaluates env frame store value store' ↔
      ∃ result, variable_value env this = .ok result ∧ value = some result ∧ store' = store :=
  Iff.rfl

theorem Evaluates.isSome : ∀ {e : Expression} {store : Store}, e.valued →
    e.Evaluates env frame store value store' → value.isSome := by
  intro e
  match e with
  | .assignment .. =>
    intro _ hv
    cases hv
  | .conditional _ test t f =>
    rintro _ hv ⟨_, _, holds, _, _, h⟩
    obtain ⟨ht, hf⟩ := Bool.and_eq_true_iff.mp hv
    cases holds with
    | true  => exact Evaluates.isSome ht h
    | false => exact Evaluates.isSome hf h
  | .call _ method _ _ =>
    rintro _ hv ⟨_, _, _, h⟩
    exact (Method.evaluates_isSome h).trans hv
  | .binding .. | .binary .. | .indexing .. =>
    rintro _ _ ⟨_, _, _, _, _, _, _, _, hr⟩
    exact hr ▸ rfl
  | .slicing .. =>
    rintro _ _ ⟨_, _, _, _, _, _, _, _, _, _, _, hr⟩
    exact hr ▸ rfl
  | .unary .. | .select .. | .cast .. | .literal .. =>
    rintro _ _ ⟨_, _, _, _, _, hr⟩
    exact hr ▸ rfl
  | .variable .. =>
    rintro _ _ ⟨_, _, hr, _⟩
    exact hr ▸ rfl

section

variable {names : Names} {this : ExpressionId}

theorem serialize_assignment {op : AssignmentOperator} {left right : Expression} :
    serialize_expression names (.assignment this op left right) =
      .evalExpr (.assignment this op left right) ::
        (serialize_expression names left ++ serialize_expression names right) :=
  rfl

theorem serialize_conditional {test t f : Expression} :
    serialize_expression names (.conditional this test t f) =
      .evalExpr (.conditional this test t f) :: serialize_expression names test :=
  rfl

theorem serialize_slicing {subject from_index to_index : Expression} :
    serialize_expression names (.slicing this subject from_index to_index) =
      .evalExpr (.slicing this subject from_index to_index) ::
        (serialize_expression names from_index ++ serialize_expression names to_index ++
          serialize_expression names subject) :=
  rfl

theorem serialize_call {method : Method} {arguments : List Expression} {definition : DefinitionId} :
    serialize_expression names (.call this method arguments definition) =
      .evalExpr (.call this method arguments definition) ::
        (serialize_values names arguments).flatten :=
  rfl

theorem serialize_variable {identifier : Identifier} :
    serialize_expression names (.variable this identifier) =
      [.evalExpr (.variable this identifier)] :=
  rfl

end

theorem serialize_values_eq (names : Names) (es : List Expression) :
    serialize_values names es = es.map fun e => .pushValToFront :: serialize_expression names e := by
  induction es with
  | nil          => rfl
  | cons e es ih =>
    rw [List.map_cons, ← ih]
    rfl

theorem serialize_literal {names : Names} {this : ExpressionId} {form : Literal} {exprs : List Expression} :
    serialize_expression names (.literal this form exprs) = .evalExpr (.literal this form exprs) ::
      (serialize_values names (form.operands (names.expressions this).field_idx exprs)).flatten := by
  rw [serialize_values_eq, ← Literal.operands_map, ← serialize_values_eq]
  cases form with
  | struct =>
    have hlen : (serialize_values names exprs).length = exprs.length := by
      rw [serialize_values_eq, List.length_map]
    rw [Literal.operands, hlen]
    rfl
  | _ => rfl

theorem evaluations_eq (es : List Expression) :
    evaluations env frame es = es.map (·.Evaluates env frame) := by
  induction es with
  | nil          => rfl
  | cons e es ih =>
    rw [List.map_cons, ← ih]
    rfl

theorem length_values {es : List Expression} {values : List Value}
    (h : EvaluateAll (evaluations env frame es) store values store') : values.length = es.length := by
  rw [h.length, evaluations_eq, List.length_map]

end Expression

end Reowolf
