import Reowolf.Protocol.EvalRound
import Reowolf.Protocol.Evaluation

namespace Reowolf

section

variable {env : EvalEnv} {frame : Frame} {values : List Value} {store : Store}
variable {v w u : Value} {this : ExpressionId}

@[simp]
theorem pop_back_append : pop_back (values ++ [v]) = .ok (v, values) := by
  simp [pop_back]

@[simp]
theorem rotate_right_append : rotate_right (values ++ [v]) = .ok (v :: values) := by
  simp [rotate_right]

-- The value is put behind the others.
def push_value (values : List Value) (result : Except Fault (Value × Store)) : Evaluated := do
  let (value, store) ← result
  .ok (values ++ [value], store)

theorem eval_assignment_append {op : AssignmentOperator} :
    eval_assignment env op (values ++ [v] ++ [w]) store =
      (assign env op w v store).map fun store => (values, store) := by
  simp only [eval_assignment, pop_back_append, assign, bind, Except.bind]
  cases w.as_ref with
  | error => rfl
  | ok to_id =>
    cases store.read_take_ownership v with
    | error => rfl
    | ok owned => cases apply_assignment_operator env.build owned.2 to_id op owned.1 <;> rfl

theorem eval_binding_append :
    eval_binding (values ++ [v] ++ [w]) store = push_value values (bind_values w v store) := by
  simp only [eval_binding, bind_values, push_value, pop_back_append, bind_assoc, Except.ok_bind]

theorem eval_binary_append {op : BinaryOperator} :
    eval_binary env op (values ++ [v] ++ [w]) store =
      push_value values (binary_value env op w v store) := by
  simp only [eval_binary, binary_value, push_value, pop_back_append, bind_assoc, Except.ok_bind]

theorem eval_unary_append {op : UnaryOperator} :
    eval_unary env op (values ++ [v]) store = push_value values (unary_value env op v store) := by
  simp only [eval_unary, unary_value, push_value, pop_back_append, bind_assoc, Except.ok_bind]

theorem eval_part_append {pos : HeapPos} {idx : Nat} :
    eval_part v pos idx values store = push_value values (part_value v pos idx store) := by
  cases v <;> simp only [eval_part, part_value, push_value, bind_assoc, Except.ok_bind]

theorem eval_indexing_append :
    eval_indexing (values ++ [v] ++ [w]) store = push_value values (index_value v w store) := by
  simp only [eval_indexing, index_value, eval_part_append, push_value, pop_back_append, bind_assoc,
    Except.ok_bind]

theorem eval_slicing_append :
    eval_slicing (values ++ [v] ++ [w] ++ [u]) store = push_value values (slice_value v u w store) := by
  simp only [eval_slicing, slice_value, push_value, pop_back_append, bind_assoc, Except.ok_bind]

theorem eval_select_append :
    eval_select env frame this (values ++ [v]) store =
      push_value values (select_value env frame this v store) := by
  simp only [eval_select, select_value, eval_part_append, push_value, pop_back_append, bind_assoc,
    Except.ok_bind]

theorem eval_create_cons :
    eval_create (v :: values) store = push_value values (create_value v store) := by
  simp only [eval_create, create_value, push_value, pop_front, bind_assoc, Except.ok_bind]
  refine bind_congr fun value => bind_congr fun length => ?_
  split
  case isTrue  => rfl
  case isFalse => simp only [bind_assoc, Except.ok_bind]

theorem eval_length_cons :
    eval_length (v :: values) store = push_value values (length_value v store) := by
  simp only [eval_length, length_value, push_value, pop_front, bind_assoc, Except.ok_bind]
  refine bind_congr fun value => ?_
  cases value <;> simp only [bind_assoc, Except.ok_bind]

theorem eval_cast_append :
    eval_cast env frame this (values ++ [v]) store =
      push_value values (cast_value env frame this v store) := by
  simp only [eval_cast, cast_value, push_value, pop_back_append, bind_assoc, Except.ok_bind]
  refine bind_congr fun data => bind_congr fun result => ?_
  cases result.1 with
  | error => rfl
  | ok    => simp only [bind_assoc, Except.ok_bind]

end

-- The component has to wait for its surroundings before the call is evaluated again.
def EvalContinuation.waits : EvalContinuation → Bool
  | blockFires _ | blockGet _ | put .. => true
  | _                                  => false

-- The frame with these instructions left before its own.
def Frame.working (frame : Frame) (instructions : List ExprInstruction) (expr_values : List Value) :
    Frame :=
  { frame with expr_stack := instructions ++ frame.expr_stack, expr_values }

section

variable {frame : Frame} {frames : List Frame} {instructions instructions' : List ExprInstruction}
variable {values values' : List Value} {store store' : Store}

@[simp]
theorem Frame.working_inj : frame.working instructions values = frame.working instructions' values' ↔
    instructions = instructions' ∧ values = values' := by
  simp [Frame.working]

@[simp]
theorem Frame.working_expr_values : (frame.working instructions values).expr_values = values := rfl

theorem finish_working {result : Evaluated} :
    finish_expr (frame.working instructions values) frames result = (do
      let (values, store) ← result
      .ok (.more ⟨frame.working instructions values :: frames, store⟩) : Except Panic Outcome) := rfl

theorem more_inj : (Except.ok (.more ⟨frame.working instructions values :: frames, store⟩) :
      Except Panic Outcome) = .ok (.more ⟨frame.working instructions' values' :: frames, store'⟩) ↔
    instructions = instructions' ∧ values = values' ∧ store = store' := by
  simp [and_assoc]

theorem done_inj {continuation continuation' : EvalContinuation} :
    (Except.ok (.done continuation ⟨frame.working instructions values :: frames, store⟩) :
        Except Panic Outcome) =
      .ok (.done continuation' ⟨frame.working instructions' values' :: frames, store'⟩) ↔
    continuation = continuation' ∧ instructions = instructions' ∧ values = values' ∧ store = store' := by
  simp [and_assoc]

end

-- The rounds in which the innermost frame works off instructions, with whatever its surroundings
-- answer, and the values and the store that there are in the end.
inductive Works (env : EvalEnv) (frame : Frame) (frames : List Frame) :
    List ExprInstruction → List Value → Store → List Value → Store → Prop
  | done {values store} : Works env frame frames [] values store values store
  | more {ctx instruction expr_stack values store expr_stack' values' store' result final} :
    eval_instruction env ctx (frame.working expr_stack values) frames instruction store =
      .ok (.more ⟨frame.working expr_stack' values' :: frames, store'⟩) →
    Works env frame frames expr_stack' values' store' result final →
    Works env frame frames (instruction :: expr_stack) values store result final
  | again {ctx instruction expr_stack values store continuation expr_stack' values' store' result final} :
    eval_instruction env ctx (frame.working expr_stack values) frames instruction store =
      .ok (.done continuation ⟨frame.working expr_stack' values' :: frames, store'⟩) →
    continuation.waits = true →
    Works env frame frames expr_stack' values' store' result final →
    Works env frame frames (instruction :: expr_stack) values store result final

namespace Works

variable {env : EvalEnv} {frame : Frame} {frames : List Frame} {instruction : ExprInstruction}
variable {rest : List ExprInstruction} {values vf : List Value} {store σf : Store}
variable {result : Evaluated} {v w u : Value} {this : ExpressionId}

-- An instruction that does not look at the surroundings is worked off in one round.
theorem finish_iff
    (h : ∀ ctx, eval_instruction env ctx (frame.working rest values) frames instruction store =
      finish_expr (frame.working rest values) frames result) :
    Works env frame frames (instruction :: rest) values store vf σf ↔
      ∃ values' store', result = .ok (values', store') ∧
        Works env frame frames rest values' store' vf σf := by
  constructor
  case mp =>
    intro hw
    cases hw with
    | more he hw =>
      rw [h, finish_working] at he
      obtain ⟨⟨values', store'⟩, hr, he⟩ := Except.bind_eq_ok.mp he
      obtain ⟨rfl, rfl, rfl⟩ := more_inj.mp he
      exact ⟨_, _, lift_eq_ok.mp hr, hw⟩
    | again he =>
      rw [h, finish_working] at he
      obtain ⟨_, _, he⟩ := Except.bind_eq_ok.mp he
      cases he
  case mpr =>
    rintro ⟨values', store', hr, hw⟩
    have he := h .none
    rw [hr] at he
    exact .more he hw

theorem push_iff {evaluated : Evaluated} {result : Except Fault (Value × Store)} {init : List Value}
    (hr : evaluated = push_value init result)
    (h : ∀ ctx, eval_instruction env ctx (frame.working rest values) frames instruction store =
      finish_expr (frame.working rest values) frames evaluated) :
    Works env frame frames (instruction :: rest) values store vf σf ↔
      ∃ v store', result = .ok (v, store') ∧
        Works env frame frames rest (init ++ [v]) store' vf σf := by
  subst hr
  rw [finish_iff h]
  constructor
  case mp =>
    rintro ⟨_, _, hr, hw⟩
    obtain ⟨⟨v, store'⟩, hr, hv⟩ := Except.bind_eq_ok.mp hr
    cases hv
    exact ⟨v, _, hr, hw⟩
  case mpr =>
    rintro ⟨v, store', hr, hw⟩
    exact ⟨_, _, Except.bind_eq_ok.mpr ⟨_, hr, rfl⟩, hw⟩

theorem nil_iff : Works env frame frames [] values store vf σf ↔ vf = values ∧ σf = store := by
  constructor
  case mp =>
    intro h
    cases h
    exact ⟨rfl, rfl⟩
  case mpr =>
    rintro ⟨hv, hs⟩
    exact hv ▸ hs ▸ .done

-- The value at the back is moved to the front.
theorem front_iff : Works env frame frames (.pushValToFront :: rest) (values ++ [v]) store vf σf ↔
    Works env frame frames rest (v :: values) store vf σf := by
  have h (ctx) : eval_instruction env ctx (frame.working rest (values ++ [v])) frames .pushValToFront
      store = finish_expr (frame.working rest (values ++ [v])) frames (.ok (v :: values, store)) := by
    simp only [eval_instruction, Frame.working, rotate_right_append]
    rfl
  rw [finish_iff h]
  simp

theorem assignment_iff {op : AssignmentOperator} {left right : Expression} :
    Works env frame frames (.evalExpr (.assignment this op left right) :: rest) (values ++ [v] ++ [w])
      store vf σf ↔
      ∃ store', assign env op w v store = .ok store' ∧
        Works env frame frames rest values store' vf σf := by
  rw [finish_iff fun _ => rfl, Frame.working_expr_values, eval_assignment_append]
  cases assign env op w v store <;> simp [Except.map]

theorem conditional_iff {test t f : Expression} :
    Works env frame frames (.evalExpr (.conditional this test t f) :: rest) (values ++ [v]) store vf σf ↔
      ∃ holds, v.as_bool = .ok holds ∧
        Works env frame frames
          ((serialize_expression env.heap.names (if holds then t else f)).reverse ++ rest) values store
          vf σf := by
  have h (ctx : EvalContext) : eval_instruction env ctx (frame.working rest (values ++ [v])) frames
        (.evalExpr (.conditional this test t f)) store =
      (do
        let holds ← (v.as_bool : Except Fault Bool)
        .ok (.more ⟨frame.working
          ((serialize_expression env.heap.names (if holds then t else f)).reverse ++ rest) values ::
            frames, store⟩) : Except Panic Outcome) := by
    simp only [eval_instruction, eval_expr, eval_conditional, Frame.working, Frame.serialize,
      pop_back_append, lift_ok, ok_bind, List.append_assoc]
  constructor
  case mp =>
    intro hw
    cases hw with
    | more he hw =>
      rw [h] at he
      obtain ⟨holds, hb, he⟩ := Except.bind_eq_ok.mp he
      obtain ⟨rfl, rfl, rfl⟩ := more_inj.mp he
      exact ⟨holds, lift_eq_ok.mp hb, hw⟩
    | again he =>
      rw [h] at he
      obtain ⟨_, _, he⟩ := Except.bind_eq_ok.mp he
      cases he
  case mpr =>
    rintro ⟨holds, hb, hw⟩
    have he := h .none
    rw [hb] at he
    exact .more he hw

theorem variable_iff {identifier : Identifier} :
    Works env frame frames (.evalExpr (.variable this identifier) :: rest) values store vf σf ↔
      ∃ v, variable_value env this = .ok v ∧
        Works env frame frames rest (values ++ [v]) store vf σf := by
  rw [finish_iff fun _ => rfl, Frame.working_expr_values]
  simp only [eval_variable, variable_value]
  cases (env.heap.names.expressions this).declaration <;> simp

section

variable {ctx : EvalContext} {call : Expression} {out : Outcome} {arguments : List Expression}
variable {definition : DefinitionId} {port : Value}

-- A port that is waited for is not a reference.
theorem read_of_get (h : ctx.get port store = .ok none) : store.maybe_read_ref port = .ok port := by
  cases ctx with
  | none | nonsync => cases h
  | sync is_firing read_msg did_put_or_get =>
    cases port with
    | input => rfl
    | _     => cases h

-- What a round makes of a call whose operands are at the front of the values: it is evaluated, or it
-- stays with operands that come to the same.
inductive CallRound (frame : Frame) (frames : List Frame) (rest : List ExprInstruction)
    (values : List Value) (call : Expression) (method : Method) (operands : List Value) (store : Store) :
    Outcome → Prop
  | done {value store' values'} :
    method.Evaluates operands store value store' →
    values' = values ++ value.toList →
    CallRound frame frames rest values call method operands store
      (.more ⟨frame.working rest values' :: frames, store'⟩)
  | waits {continuation} (operands' : List Value) :
    operands'.length = operands.length →
    (∀ value store', method.Evaluates operands' store value store' →
      method.Evaluates operands store value store') →
    CallRound frame frames rest values call method operands store
      (.done continuation ⟨frame.working (.evalExpr call :: rest)
        (operands' ++ values) :: frames, store⟩)

-- A call is evaluated, if it is at all, after it has waited for as long as it has to.
theorem waiting_iff {method : Method} {operands : List Value}
    (hn : method.arity = some operands.length)
    (hround : ∀ ctx operands store out, method.arity = some operands.length → eval_call env ctx
      (frame.working rest (operands ++ values)) frames this method arguments
        definition store = .ok out →
      CallRound frame frames rest values (.call this method arguments definition) method operands store out)
    (hdone : ∀ operands store value store', method.Evaluates operands store value store' →
      ∃ ctx, eval_call env ctx
        (frame.working rest (operands ++ values)) frames this method arguments
          definition store = .ok (.more ⟨frame.working rest (values ++ value.toList) ::
        frames, store'⟩)) :
    Works env frame frames (.evalExpr (.call this method arguments definition) :: rest)
      (operands ++ values) store vf σf ↔
      ∃ value store', method.Evaluates operands store value store' ∧
        Works env frame frames rest (values ++ value.toList) store' vf σf := by
  constructor
  case mpr =>
    rintro ⟨value, store', he, hw⟩
    obtain ⟨ctx, hc⟩ := hdone operands store value store' he
    exact .more hc hw
  case mp =>
    intro h
    generalize hs : .evalExpr (.call this method arguments definition) :: rest = stack at h
    generalize hv : operands ++ values = all at h
    induction h generalizing operands with
    | done => cases hs
    | more he hw _ =>
      cases hs
      subst hv
      generalize ho : Outcome.more _ = out at he
      cases hround _ _ _ _ hn he with
      | done hm hv =>
        obtain ⟨rfl, rfl, rfl⟩ := more_inj.mp (congrArg Except.ok ho)
        exact ⟨_, _, hm, hv ▸ hw⟩
      | waits => cases ho
    | again he _ _ ih =>
      cases hs
      subst hv
      generalize ho : Outcome.done _ _ = out at he
      cases hround _ _ _ _ hn he with
      | done => cases ho
      | waits operands' hlen hm =>
        obtain ⟨rfl, rfl, rfl, rfl⟩ := done_inj.mp (congrArg Except.ok ho)
        obtain ⟨value, store', he, hw⟩ := ih (hlen ▸ hn) rfl rfl
        exact ⟨value, store', hm _ _ he, hw⟩

theorem get_round {operands : List Value} (hn : Method.get.arity = some operands.length)
    (h : eval_call env ctx (frame.working rest (operands ++ values)) frames
      this .get arguments definition store = .ok out) :
    CallRound frame frames rest values (.call this .get arguments definition) .get operands store out := by
  match operands, hn with
  | [v], _ =>
    simp only [eval_call, eval_get, Frame.working_expr_values, List.cons_append, List.nil_append, pop_front, lift_ok, ok_bind,
      Except.bind_eq_ok, lift_eq_ok] at h
    obtain ⟨port, hport, answer, hget, h⟩ := h
    cases answer with
    | some answer =>
      obtain ⟨result, store'⟩ := answer
      cases h
      have he : Method.get.Evaluates [v] store (some result) store' := ⟨port, ctx, _, hport, hget, rfl⟩
      exact .done he rfl
    | none =>
      cases h
      refine .waits [port] rfl fun value store' he => ?_
      obtain ⟨port', ctx', result, hport', he⟩ := he
      cases (read_of_get hget).symm.trans hport'
      exact ⟨port, ctx', result, hport, he⟩

theorem fires_round {operands : List Value} (hn : Method.fires.arity = some operands.length)
    (h : eval_call env ctx (frame.working rest (operands ++ values)) frames
      this .fires arguments definition store = .ok out) :
    CallRound frame frames rest values (.call this .fires arguments definition) .fires operands store
      out := by
  match operands, hn with
  | [v], _ =>
    simp only [eval_call, eval_fires, Frame.working_expr_values, List.cons_append, List.nil_append, pop_front, lift_ok, ok_bind,
      Except.bind_eq_ok, lift_eq_ok] at h
    obtain ⟨port, hport, answer, hfires, h⟩ := h
    cases answer with
    | some result =>
      cases h
      have he : Method.fires.Evaluates [v] store (some result) store :=
        ⟨port, ctx, _, hport, hfires, rfl, rfl⟩
      exact .done he rfl
    | none =>
      cases h
      exact .waits [v] rfl fun _ _ he => he

theorem put_round {operands : List Value} (hn : Method.put.arity = some operands.length)
    (h : eval_call env ctx (frame.working rest (operands ++ values)) frames
      this .put arguments definition store = .ok out) :
    CallRound frame frames rest values (.call this .put arguments definition) .put operands store out := by
  match operands, hn with
  | [v, w], _ =>
    simp only [eval_call, eval_put, Frame.working_expr_values, List.cons_append, List.nil_append, pop_front, lift_ok, ok_bind,
      Except.bind_eq_ok, lift_eq_ok] at h
    obtain ⟨port, hport, msg, hmsg, h⟩ := h
    cases msg with
    | message pos =>
      obtain ⟨did_put, hdid, h⟩ := Except.bind_eq_ok.mp h
      cases did_put with
      | true =>
        obtain ⟨store', hdrop, h⟩ := Except.bind_eq_ok.mp h
        cases h
        have he : Method.put.Evaluates [v, w] store none store' :=
          ⟨port, pos, ctx, hport, hmsg, hdid, lift_eq_ok.mp hdrop, rfl⟩
        exact .done he (List.append_nil values).symm
      | false =>
        cases h
        exact .waits [v, w] rfl fun _ _ he => he
    | _ => cases h

theorem assert_iff :
    Works env frame frames (.evalExpr (.call this .assert arguments definition) :: rest) (v :: values)
      store vf σf ↔
      ∃ value store', Method.assert.Evaluates [v] store value store' ∧
        Works env frame frames rest (values ++ value.toList) store' vf σf := by
  have h (ctx : EvalContext) : eval_instruction env ctx
      (frame.working rest (v :: values)) frames
        (.evalExpr (.call this .assert arguments definition)) store =
      (do
        let holds ← (store.maybe_read_ref v : Except Fault Value)
        if ← (holds.as_bool : Except Fault Bool) then
          .ok (.more ⟨frame.working rest values :: frames, store⟩)
        else
          .ok (.done .inconsistent
            ⟨frame.working rest values :: frames, store⟩) :
        Except Panic Outcome) := rfl
  constructor
  case mp =>
    intro hw
    cases hw with
    | more he hw =>
      rw [h] at he
      simp only [Except.bind_eq_ok, lift_eq_ok] at he
      obtain ⟨holds, hr, b, hb, he⟩ := he
      cases b with
      | false => cases he
      | true =>
        obtain ⟨rfl, rfl, rfl⟩ := more_inj.mp he
        exact ⟨none, store, ⟨holds, hr, hb, rfl, rfl⟩, (List.append_nil values).symm ▸ hw⟩
    | again he hc =>
      rw [h] at he
      simp only [Except.bind_eq_ok, lift_eq_ok] at he
      obtain ⟨holds, hr, b, hb, he⟩ := he
      cases b with
      | true => cases he
      | false =>
        obtain ⟨rfl, _⟩ := done_inj.mp he
        cases hc
  case mpr =>
    rintro ⟨_, _, ⟨holds, hr, hb, hv, hs⟩, hw⟩
    subst hv hs
    have he := h .none
    rw [hr, lift_ok, ok_bind, hb] at he
    exact .more he (List.append_nil values ▸ hw)

theorem create_iff :
    Works env frame frames (.evalExpr (.call this .create arguments definition) :: rest) (v :: values)
      store vf σf ↔
      ∃ value store', Method.create.Evaluates [v] store value store' ∧
        Works env frame frames rest (values ++ value.toList) store' vf σf := by
  rw [push_iff eval_create_cons fun _ => rfl]
  constructor
  case mp  =>
    rintro ⟨w, store', he, hw⟩
    exact ⟨some w, store', ⟨w, he, rfl⟩, hw⟩
  case mpr =>
    rintro ⟨_, store', ⟨w, he, hv⟩, hw⟩
    subst hv
    exact ⟨w, store', he, hw⟩

theorem length_iff :
    Works env frame frames (.evalExpr (.call this .length arguments definition) :: rest) (v :: values)
      store vf σf ↔
      ∃ value store', Method.length.Evaluates [v] store value store' ∧
        Works env frame frames rest (values ++ value.toList) store' vf σf := by
  rw [push_iff eval_length_cons fun _ => rfl]
  constructor
  case mp  =>
    rintro ⟨w, store', he, hw⟩
    exact ⟨some w, store', ⟨w, he, rfl⟩, hw⟩
  case mpr =>
    rintro ⟨_, store', ⟨w, he, hv⟩, hw⟩
    subst hv
    exact ⟨w, store', he, hw⟩

theorem get_done {operands : List Value} {value : Option Value} {store' : Store}
    (he : Method.get.Evaluates operands store value store') :
    ∃ ctx, eval_call env ctx (frame.working rest (operands ++ values)) frames
      this .get arguments definition store = .ok (.more ⟨frame.working rest (values ++ value.toList) ::
        frames, store'⟩) := by
  match operands, he with
  | [v], ⟨port, ctx, result, hport, hget, hv⟩ =>
    refine ⟨ctx, ?_⟩
    simp only [eval_call, eval_get, Frame.working_expr_values, List.cons_append, List.nil_append, pop_front, hport, lift_ok, ok_bind,
      hget, hv]
    rfl

theorem fires_done {operands : List Value} {value : Option Value} {store' : Store}
    (he : Method.fires.Evaluates operands store value store') :
    ∃ ctx, eval_call env ctx (frame.working rest (operands ++ values)) frames
      this .fires arguments definition store = .ok (.more ⟨frame.working rest (values ++ value.toList) ::
        frames, store'⟩) := by
  match operands, he with
  | [v], ⟨port, ctx, result, hport, hfires, hv, hs⟩ =>
    refine ⟨ctx, ?_⟩
    simp only [eval_call, eval_fires, Frame.working_expr_values, List.cons_append, List.nil_append, pop_front, hport, lift_ok,
      ok_bind, hfires, hv, hs]
    rfl

theorem put_done {operands : List Value} {value : Option Value} {store' : Store}
    (he : Method.put.Evaluates operands store value store') :
    ∃ ctx, eval_call env ctx (frame.working rest (operands ++ values)) frames
      this .put arguments definition store = .ok (.more ⟨frame.working rest (values ++ value.toList) ::
        frames, store'⟩) := by
  match operands, he with
  | [v, w], ⟨port, pos, ctx, hport, hmsg, hdid, hdrop, hv⟩ =>
    refine ⟨ctx, ?_⟩
    simp only [eval_call, eval_put, Frame.working_expr_values, List.cons_append, List.nil_append, pop_front, hport, hmsg, lift_ok,
      ok_bind, hdid, if_true, hdrop, hv, Option.toList_none, List.append_nil]
    rfl

theorem call_iff {method : Method} {operands : List Value} (hn : method.arity = some operands.length) :
    Works env frame frames (.evalExpr (.call this method arguments definition) :: rest)
      (operands ++ values) store vf σf ↔
      ∃ value store', method.Evaluates operands store value store' ∧
        Works env frame frames rest (values ++ value.toList) store' vf σf := by
  cases method with
  | get   => exact waiting_iff hn (fun _ _ _ _ => get_round) fun _ _ _ _ => get_done
  | fires => exact waiting_iff hn (fun _ _ _ _ => fires_round) fun _ _ _ _ => fires_done
  | put   => exact waiting_iff hn (fun _ _ _ _ => put_round) fun _ _ _ _ => put_done
  | create =>
    match operands, hn with
    | [v], _ => exact create_iff
  | length =>
    match operands, hn with
    | [v], _ => exact length_iff
  | assert =>
    match operands, hn with
    | [v], _ => exact assert_iff
  | userFunction | userComponent => cases hn

end

end Works

end Reowolf
