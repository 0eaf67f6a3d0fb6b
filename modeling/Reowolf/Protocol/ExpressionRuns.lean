import Reowolf.Protocol.Compositional
import Reowolf.Protocol.PromptControl

namespace Reowolf

section

variable {env : EvalEnv} {frame : Frame} {values operands : List Value} {store : Store}
variable {this : ExpressionId}

theorem transfer_append :
    transfer_expression_values_front_into_heap (operands ++ values) store operands.length = (do
      let (pos, store) ← region_value operands store
      .ok (pos, values, store)) := by
  simp [transfer_expression_values_front_into_heap, region_value, Except.ok_bind]

theorem eval_literal_append {form : Literal} {num_values : Nat}
    (h : operands.length = form.takes num_values) :
    eval_literal env frame this form num_values (operands ++ values) store =
      push_value values (literal_value env frame this form operands store) := by
  cases form with
  | struct | union | array =>
    obtain rfl : operands.length = num_values := h
    simp only [eval_literal, literal_value, push_value, transfer_append, bind_assoc, Except.ok_bind]
  | integer =>
    obtain rfl : operands = [] := List.length_eq_zero_iff.mp h
    simp only [eval_literal, literal_value, push_value, bind_assoc, List.nil_append]
    refine bind_congr fun data => ?_
    cases data.expr_type with
    | nil            => rfl
    | cons part rest => cases part <;> rfl
  | _ =>
    obtain rfl : operands = [] := List.length_eq_zero_iff.mp h
    simp only [eval_literal, literal_value, push_value, bind_assoc, Except.ok_bind, List.nil_append]

end

-- A void expression, whatever branches are taken in it.
def Expression.void : Expression → Bool
  | .assignment ..       => true
  | .conditional _ _ t f => t.void && f.void
  | .call _ method _ _   => method.void
  | _                    => false

namespace Expression

variable {env : EvalEnv} {frame : Frame} {store store' : Store} {value : Option Value}

theorem Evaluates.eq_none : ∀ {e : Expression} {store : Store}, e.void →
    e.Evaluates env frame store value store' → value = none := by
  intro e
  match e with
  | .assignment .. =>
    rintro _ _ ⟨_, _, _, _, _, _, _, hr⟩
    exact hr
  | .conditional _ test t f =>
    rintro _ hv ⟨_, _, holds, _, _, h⟩
    obtain ⟨ht, hf⟩ := Bool.and_eq_true_iff.mp hv
    cases holds with
    | true  => exact Evaluates.eq_none ht h
    | false => exact Evaluates.eq_none hf h
  | .call _ method _ _ =>
    rintro _ hv ⟨_, _, _, h⟩
    have hs := Method.evaluates_isSome h
    have hm : method.void = true := hv
    rw [hm] at hs
    exact Option.isSome_eq_false_iff.mp hs |> Option.isNone_iff_eq_none.mp
  | .binding .. | .binary .. | .indexing .. | .slicing .. | .unary .. | .select .. | .cast ..
  | .literal .. | .variable .. =>
    intro _ hv
    cases hv

-- The instructions of an expression put its value behind what was there, and leave all else as it was,
-- whatever is worked off after them.
def Denotes (env : EvalEnv) (frame : Frame) (e : Expression) : Prop :=
  ∀ frames rest values store vf σf,
    Works env frame frames ((serialize_expression env.heap.names e).reverse ++ rest) values store vf σf ↔
      ∃ value store', e.Evaluates env frame store value store' ∧
        Works env frame frames rest (values ++ value.toList) store' vf σf

-- The same for an operand.
def Yields (env : EvalEnv) (frame : Frame) (e : Expression) : Prop :=
  ∀ frames rest values store vf σf,
    Works env frame frames ((serialize_expression env.heap.names e).reverse ++ rest) values store vf σf ↔
      ∃ v store', e.Evaluates env frame store (some v) store' ∧
        Works env frame frames rest (values ++ [v]) store' vf σf

theorem Denotes.yields {e : Expression} (h : e.Denotes env frame) (hv : e.valued) :
    e.Yields env frame := by
  intro frames rest values store vf σf
  rw [h]
  constructor
  case mp =>
    rintro ⟨value, store', he, hw⟩
    obtain ⟨v, hs⟩ := Option.isSome_iff_exists.mp (Evaluates.isSome hv he)
    subst hs
    exact ⟨v, store', he, hw⟩
  case mpr =>
    rintro ⟨v, store', he, hw⟩
    exact ⟨some v, store', he, hw⟩

-- What the instructions of operands stage in front of the values.
theorem staged_iff {frames : List Frame} {es : List Expression} {rest : List ExprInstruction}
    {values vf : List Value} {σf : Store} (h : ∀ e ∈ es, e.Yields env frame) :
    Works env frame frames ((serialize_values env.heap.names es).flatten.reverse ++ rest) values store
      vf σf ↔
      ∃ operands store', EvaluateAll (evaluations env frame es) store operands store' ∧
        Works env frame frames rest (operands ++ values) store' vf σf := by
  induction es generalizing rest σf vf with
  | nil => simp [serialize_values, evaluations, EvaluateAll]
  | cons e es ih =>
    have he : e.Yields env frame := h e List.mem_cons_self
    have hes : ∀ e ∈ es, e.Yields env frame := fun e hm => h e (List.mem_cons_of_mem _ hm)
    simp only [serialize_values, List.flatten_cons, List.reverse_append, List.reverse_cons,
      List.append_assoc, List.cons_append, List.nil_append, ih hes]
    constructor
    case mp =>
      rintro ⟨operands, store₁, hall, hw⟩
      obtain ⟨v, store', hv, hw⟩ := (he ..).mp hw
      exact ⟨v :: operands, store', ⟨v, operands, store₁, hall, hv, rfl⟩, Works.front_iff.mp hw⟩
    case mpr =>
      rintro ⟨_, store', ⟨v, operands, store₁, hall, hv, ho⟩, hw⟩
      subst ho
      exact ⟨operands, store₁, hall, (he ..).mpr ⟨v, store', hv, Works.front_iff.mpr hw⟩⟩

namespace Denotes

variable {this : ExpressionId} {left right test t f : Expression}

theorem assignment {op : AssignmentOperator} (hl : left.Yields env frame) (hr : right.Yields env frame) :
    (Expression.assignment this op left right).Denotes env frame := by
  intro frames rest values store vf σf
  simp only [serialize_assignment, List.reverse_cons, List.reverse_append, List.append_assoc]
  rw [hr]
  simp only [hl _ _ _ _ _ _, List.cons_append, List.nil_append, Works.assignment_iff,
    evaluates_assignment]
  constructor
  case mp =>
    rintro ⟨rhs, store₁, hrhs, lhs, store₂, hlhs, store', ho, hw⟩
    exact ⟨none, store', ⟨rhs, store₁, lhs, store₂, hrhs, hlhs, ho, rfl⟩,
      (List.append_nil values).symm ▸ hw⟩
  case mpr =>
    rintro ⟨_, store', ⟨rhs, store₁, lhs, store₂, hrhs, hlhs, ho, hv⟩, hw⟩
    subst hv
    exact ⟨rhs, store₁, hrhs, lhs, store₂, hlhs, store', ho, List.append_nil values ▸ hw⟩

-- An expression with a value, worked off after its one operand.
theorem of_one {e : Expression} (operator : Value → Store → Except Fault (Value × Store))
    (hs : serialize_expression env.heap.names e =
      .evalExpr e :: serialize_expression env.heap.names left)
    (he : ∀ store value store', e.Evaluates env frame store value store' ↔
      ∃ v store₁ result, left.Evaluates env frame store (some v) store₁ ∧
        operator v store₁ = .ok (result, store') ∧ value = some result)
    (ho : ∀ ctx frames rest values v store,
      eval_instruction env ctx (frame.working rest (values ++ [v])) frames (.evalExpr e) store =
        finish_expr (frame.working rest (values ++ [v])) frames
          (push_value values (operator v store)))
    (hl : left.Yields env frame) : e.Denotes env frame := by
  intro frames rest values store vf σf
  rw [hs, List.reverse_cons, List.append_assoc, hl]
  simp only [List.cons_append, List.nil_append, he, Works.push_iff rfl fun _ => ho ..]
  constructor
  case mp =>
    rintro ⟨v, store₁, hv, result, store', ho, hw⟩
    exact ⟨some result, store', ⟨v, store₁, result, hv, ho, rfl⟩, hw⟩
  case mpr =>
    rintro ⟨_, store', ⟨v, store₁, result, hv, ho, hr⟩, hw⟩
    subst hr
    exact ⟨v, store₁, hv, result, store', ho, hw⟩

-- An expression with a value, worked off after its two operands, of which the first is on the right.
theorem of_two {e : Expression} (operator : Value → Value → Store → Except Fault (Value × Store))
    (hs : serialize_expression env.heap.names e = .evalExpr e ::
      (serialize_expression env.heap.names left ++ serialize_expression env.heap.names right))
    (he : ∀ store value store', e.Evaluates env frame store value store' ↔
      ∃ v store₁ w store₂ result, right.Evaluates env frame store (some v) store₁ ∧
        left.Evaluates env frame store₁ (some w) store₂ ∧
        operator v w store₂ = .ok (result, store') ∧ value = some result)
    (ho : ∀ ctx frames rest values v w store,
      eval_instruction env ctx (frame.working rest (values ++ [v] ++ [w])) frames (.evalExpr e) store =
        finish_expr (frame.working rest (values ++ [v] ++ [w])) frames
          (push_value values (operator v w store)))
    (hl : left.Yields env frame) (hr : right.Yields env frame) : e.Denotes env frame := by
  intro frames rest values store vf σf
  rw [hs, List.reverse_cons, List.reverse_append, List.append_assoc, List.append_assoc, hr]
  simp only [hl _ _ _ _ _ _, List.cons_append, List.nil_append, he,
    Works.push_iff rfl fun _ => ho ..]
  constructor
  case mp =>
    rintro ⟨v, store₁, hv, w, store₂, hw', result, store', ho, hw⟩
    exact ⟨some result, store', ⟨v, store₁, w, store₂, result, hv, hw', ho, rfl⟩, hw⟩
  case mpr =>
    rintro ⟨_, store', ⟨v, store₁, w, store₂, result, hv, hw', ho, hr⟩, hw⟩
    subst hr
    exact ⟨v, store₁, hv, w, store₂, hw', result, store', ho, hw⟩

theorem binding (hl : left.Yields env frame) (hr : right.Yields env frame) :
    (Expression.binding this left right).Denotes env frame := by
  apply of_two (fun v w => bind_values w v) rfl (fun _ _ _ => Iff.rfl) _ hl hr
  intros
  exact congrArg (finish_expr _ _) eval_binding_append

theorem binary {op : BinaryOperator} (hl : left.Yields env frame) (hr : right.Yields env frame) :
    (Expression.binary this op left right).Denotes env frame := by
  apply of_two (fun v w => binary_value env op w v) rfl (fun _ _ _ => Iff.rfl) _ hl hr
  intros
  exact congrArg (finish_expr _ _) eval_binary_append

theorem indexing (hl : left.Yields env frame) (hr : right.Yields env frame) :
    (Expression.indexing this left right).Denotes env frame := by
  apply of_two index_value rfl (fun _ _ _ => Iff.rfl) _ hr hl
  intros
  exact congrArg (finish_expr _ _) eval_indexing_append

theorem unary {op : UnaryOperator} (hl : left.Yields env frame) :
    (Expression.unary this op left).Denotes env frame := by
  apply of_one (unary_value env op) rfl (fun _ _ _ => Iff.rfl) _ hl
  intros
  exact congrArg (finish_expr _ _) eval_unary_append

theorem select {field_name : Identifier} (hl : left.Yields env frame) :
    (Expression.select this left field_name).Denotes env frame := by
  apply of_one (select_value env frame this) rfl (fun _ _ _ => Iff.rfl) _ hl
  intros
  exact congrArg (finish_expr _ _) eval_select_append

theorem cast (hl : left.Yields env frame) : (Expression.cast this left).Denotes env frame := by
  apply of_one (cast_value env frame this) rfl (fun _ _ _ => Iff.rfl) _ hl
  intros
  exact congrArg (finish_expr _ _) eval_cast_append

theorem slicing {subject from_index to_index : Expression} (hs : subject.Yields env frame)
    (hf : from_index.Yields env frame) (ht : to_index.Yields env frame) :
    (Expression.slicing this subject from_index to_index).Denotes env frame := by
  intro frames rest values store vf σf
  have h {values v w u store} :
      Works env frame frames (.evalExpr (.slicing this subject from_index to_index) :: rest)
        (values ++ [v] ++ [w] ++ [u]) store vf σf ↔ _ :=
    Works.push_iff eval_slicing_append fun _ => rfl
  simp only [serialize_slicing, List.reverse_cons, List.reverse_append, List.append_assoc]
  rw [hs]
  simp only [ht _ _ _ _ _ _, hf _ _ _ _ _ _, List.cons_append, List.nil_append, h,
    evaluates_slicing]
  constructor
  case mp =>
    rintro ⟨v, store₁, hv, w, store₂, hw', u, store₃, hu, result, store', ho, hw⟩
    exact ⟨some result, store', ⟨v, store₁, w, store₂, u, store₃, result, hv, hw', hu, ho, rfl⟩, hw⟩
  case mpr =>
    rintro ⟨_, store', ⟨v, store₁, w, store₂, u, store₃, result, hv, hw', hu, ho, hr⟩, hw⟩
    subst hr
    exact ⟨v, store₁, hv, w, store₂, hw', u, store₃, hu, result, store', ho, hw⟩

theorem of_variable {identifier : Identifier} :
    (Expression.variable this identifier).Denotes env frame := by
  intro frames rest values store vf σf
  simp only [serialize_variable, List.reverse_singleton, List.cons_append, List.nil_append,
    Works.variable_iff, evaluates_variable]
  constructor
  case mp =>
    rintro ⟨v, hv, hw⟩
    exact ⟨some v, store, ⟨v, hv, rfl, rfl⟩, hw⟩
  case mpr =>
    rintro ⟨_, _, ⟨v, hv, hr, hs⟩, hw⟩
    subst hr hs
    exact ⟨v, hv, hw⟩

theorem conditional (htest : test.Yields env frame) (ht : t.Denotes env frame)
    (hf : f.Denotes env frame) : (Expression.conditional this test t f).Denotes env frame := by
  intro frames rest values store vf σf
  simp only [serialize_conditional, List.reverse_cons, List.append_assoc]
  rw [htest]
  simp only [List.cons_append, List.nil_append, Works.conditional_iff,
    evaluates_conditional]
  constructor
  case mp =>
    rintro ⟨v, store₁, hv, holds, hb, hw⟩
    cases holds with
    | true =>
      obtain ⟨value, store', he, hw⟩ := (ht ..).mp hw
      exact ⟨value, store', ⟨v, store₁, true, hv, hb, he⟩, hw⟩
    | false =>
      obtain ⟨value, store', he, hw⟩ := (hf ..).mp hw
      exact ⟨value, store', ⟨v, store₁, false, hv, hb, he⟩, hw⟩
  case mpr =>
    rintro ⟨value, store', ⟨v, store₁, holds, hv, hb, he⟩, hw⟩
    cases holds with
    | true  => exact ⟨v, store₁, hv, true, hb, (ht ..).mpr ⟨value, store', he, hw⟩⟩
    | false => exact ⟨v, store₁, hv, false, hb, (hf ..).mpr ⟨value, store', he, hw⟩⟩

theorem call {method : Method} {arguments : List Expression} {definition : DefinitionId}
    (h : ∀ e ∈ arguments, e.Yields env frame) (hn : method.arity = some arguments.length) :
    (Expression.call this method arguments definition).Denotes env frame := by
  intro frames rest values store vf σf
  simp only [serialize_call, List.reverse_cons, List.append_assoc, staged_iff h, evaluates_call,
    List.cons_append, List.nil_append]
  constructor
  case mp =>
    rintro ⟨operands, store₁, hall, hw⟩
    have hlen : method.arity = some operands.length := hn.trans (congrArg some (length_values hall).symm)
    obtain ⟨value, store', he, hw⟩ := (Works.call_iff hlen).mp hw
    exact ⟨value, store', ⟨operands, store₁, hall, he⟩, hw⟩
  case mpr =>
    rintro ⟨value, store', ⟨operands, store₁, hall, he⟩, hw⟩
    have hlen : method.arity = some operands.length := hn.trans (congrArg some (length_values hall).symm)
    exact ⟨operands, store₁, hall, (Works.call_iff hlen).mpr ⟨value, store', he, hw⟩⟩

theorem literal {form : Literal} {exprs : List Expression} (h : ∀ e ∈ exprs, e.Yields env frame)
    (hperm : ∀ definition fields, form = .struct definition fields →
      (env.heap.names.expressions this).field_idx.Perm (List.range exprs.length)) :
    (Expression.literal this form exprs).Denotes env frame := by
  intro frames rest values store vf σf
  let members := form.operands (env.heap.names.expressions this).field_idx exprs
  have hm : ∀ e ∈ members, e.Yields env frame := fun e he => h e (Literal.mem_of_operands he)
  have hlit {operands store} (hlen : operands.length = members.length) :
      Works env frame frames (.evalExpr (.literal this form exprs) :: rest) (operands ++ values) store
        vf σf ↔ _ :=
    Works.push_iff (eval_literal_append (hlen.trans (Literal.length_operands hperm))) fun _ => rfl
  rw [serialize_literal, List.reverse_cons, List.append_assoc, staged_iff hm]
  simp only [evaluates_literal, evaluations_eq, Literal.operands_map, List.cons_append, List.nil_append]
  constructor
  case mp =>
    rintro ⟨operands, store₁, hall, hw⟩
    obtain ⟨v, store', hv, hw⟩ := (hlit (length_values (evaluations_eq _ ▸ hall))).mp hw
    exact ⟨some v, store', ⟨operands, store₁, v, hall, hv, rfl⟩, hw⟩
  case mpr =>
    rintro ⟨_, store', ⟨operands, store₁, v, hall, hv, hr⟩, hw⟩
    subst hr
    exact ⟨operands, store₁, hall, (hlit (length_values (evaluations_eq _ ▸ hall))).mpr ⟨v, store', hv, hw⟩⟩

end Denotes

mutual

-- The run of a tree is composed of the runs of its parts.
theorem denotes : ∀ {e : Expression}, e.WellFormed env.heap.names → e.Denotes env frame := by
  intro e
  match e with
  | .assignment _ _ left right =>
    rintro ⟨hl, hlv, hr, hrv⟩
    exact .assignment ((denotes hl).yields hlv) ((denotes hr).yields hrv)
  | .binding _ left right =>
    rintro ⟨hl, hlv, hr, hrv⟩
    exact .binding ((denotes hl).yields hlv) ((denotes hr).yields hrv)
  | .binary _ _ left right =>
    rintro ⟨hl, hlv, hr, hrv⟩
    exact .binary ((denotes hl).yields hlv) ((denotes hr).yields hrv)
  | .indexing _ left right =>
    rintro ⟨hl, hlv, hr, hrv⟩
    exact .indexing ((denotes hl).yields hlv) ((denotes hr).yields hrv)
  | .conditional _ test t f =>
    rintro ⟨htest, hv, ht, hf⟩
    exact .conditional ((denotes htest).yields hv) (denotes ht) (denotes hf)
  | .unary _ _ left =>
    rintro ⟨hl, hv⟩
    exact .unary ((denotes hl).yields hv)
  | .select _ left _ =>
    rintro ⟨hl, hv⟩
    exact .select ((denotes hl).yields hv)
  | .cast _ left =>
    rintro ⟨hl, hv⟩
    exact .cast ((denotes hl).yields hv)
  | .slicing _ subject from_index to_index =>
    rintro ⟨hs, hsv, hf, hfv, ht, htv⟩
    exact .slicing ((denotes hs).yields hsv) ((denotes hf).yields hfv) ((denotes ht).yields htv)
  | .literal _ _ exprs =>
    rintro ⟨h, hperm⟩
    exact .literal (operands_yield h) hperm
  | .call _ _ arguments _ =>
    rintro ⟨h, hn⟩
    exact .call (operands_yield h) hn
  | .variable .. =>
    intro _
    exact .of_variable

theorem operands_yield : ∀ {es : List Expression}, OperandsWellFormed env.heap.names es →
    ∀ e ∈ es, e.Yields env frame := by
  intro es
  match es with
  | [] =>
    intro _ _ hm
    cases hm
  | first :: es =>
    rintro ⟨⟨he, hv⟩, hes⟩ e hm
    cases List.mem_cons.mp hm with
    | inl h => exact h ▸ (denotes he).yields hv
    | inr h => exact operands_yield hes e h

end

end Expression

-- A round after which the innermost frame goes on, maybe after the component has waited.
def Prompt.Resumes (env : EvalEnv) (prompt prompt' : Prompt) : Prop :=
  ∃ ctx, prompt.advance env ctx = .ok (.more prompt') ∨
    ∃ continuation : EvalContinuation, continuation.waits ∧
      prompt.advance env ctx = .ok (.done continuation prompt')

-- The rounds of `Prompt::step` until the expression stack of the innermost frame is down to a depth.
inductive Prompt.Completes (env : EvalEnv) (depth : Nat) : Prompt → Prompt → Prop
  | done {frame frames store} : frame.expr_stack.length = depth →
    Completes env depth ⟨frame :: frames, store⟩ ⟨frame :: frames, store⟩
  | round {frame frames store next prompt} : depth < frame.expr_stack.length →
    Prompt.Resumes env ⟨frame :: frames, store⟩ next → Completes env depth next prompt →
    Completes env depth ⟨frame :: frames, store⟩ prompt

section

variable {env : EvalEnv} {ctx : EvalContext} {frame : Frame} {frames : List Frame}
variable {instruction : ExprInstruction} {instructions : List ExprInstruction}
variable {values : List Value} {store : Store} {prompt prompt' : Prompt}

theorem advance_working (hp : frame.position.isSome) :
    Prompt.advance env ctx ⟨frame.working (instruction :: instructions) values :: frames, store⟩ =
      eval_instruction env ctx (frame.working instructions values) frames instruction store := by
  obtain ⟨position, hp⟩ := Option.isSome_iff_exists.mp hp
  simp only [Prompt.advance, Frame.working, hp, List.cons_append]

theorem working_depth :
    frame.expr_stack.length < (frame.working (instruction :: instructions) values).expr_stack.length := by
  simp only [Frame.working, List.length_append, List.length_cons]
  omega

-- A round keeps what is below the instructions that are worked off.
theorem working_of_resumes
    (h : Prompt.Resumes env ⟨frame.working (instruction :: instructions) values :: frames, store⟩ prompt) :
    ∃ instructions' values' store', prompt = ⟨frame.working instructions' values' :: frames, store'⟩ := by
  obtain ⟨ctx, h⟩ := h
  have hr := Prompt.advance_round env ctx
    ⟨frame.working (instruction :: instructions) values :: frames, store⟩
  cases h with
  | inl h =>
    rw [h] at hr
    cases hr with
    | expr expr_values store' _ hs =>
      cases hs
      exact ⟨instructions, expr_values, store', rfl⟩
    | branch next expr_values store' _ hs =>
      cases hs
      refine ⟨(serialize_expression env.heap.names next).reverse ++ instructions, expr_values, store', ?_⟩
      simp only [Frame.serialize, Frame.working, List.append_assoc]
      rfl
  | inr h =>
    obtain ⟨continuation, hc, h⟩ := h
    rw [h] at hr
    cases hr with
    | block _ expr_values _ hs => exact ⟨instruction :: instructions, expr_values, store, rfl⟩
    | terminal | inconsistent | call | «return» | leave => cases hc
    | stmt _ _ _ _ _ hs => cases hs

theorem completes_of_works {vf : List Value} {σf : Store} (hp : frame.position.isSome)
    (h : Works env frame frames instructions values store vf σf) :
    Prompt.Completes env frame.expr_stack.length ⟨frame.working instructions values :: frames, store⟩
      ⟨frame.working [] vf :: frames, σf⟩ := by
  induction h with
  | done => exact .done rfl
  | more he _ ih =>
    exact .round working_depth ⟨_, .inl ((advance_working hp).trans he)⟩ ih
  | again he hc _ ih =>
    exact .round working_depth ⟨_, .inr ⟨_, hc, (advance_working hp).trans he⟩⟩ ih

theorem works_of_completes (hp : frame.position.isSome)
    (h : Prompt.Completes env frame.expr_stack.length
      ⟨frame.working instructions values :: frames, store⟩ prompt') :
    ∃ vf σf, Works env frame frames instructions values store vf σf ∧
      prompt' = ⟨frame.working [] vf :: frames, σf⟩ := by
  generalize hs : Prompt.mk (frame.working instructions values :: frames) store = prompt at h
  induction h generalizing instructions values store with
  | done hd =>
    cases hs
    obtain rfl : instructions = [] := by simpa [Frame.working] using hd
    exact ⟨values, _, .done, rfl⟩
  | round hd hr _ ih =>
    cases hs
    cases instructions with
    | nil => exact absurd hd (Nat.lt_irrefl _)
    | cons instruction instructions =>
      obtain ⟨instructions', values', store', hn⟩ := working_of_resumes hr
      obtain ⟨vf, σf, hw, hv⟩ := ih hn.symm
      obtain ⟨ctx, hr⟩ := hr
      rw [advance_working hp, hn] at hr
      cases hr with
      | inl he => exact ⟨vf, σf, .more he hw, hv⟩
      | inr he =>
        obtain ⟨continuation, hc, he⟩ := he
        exact ⟨vf, σf, .again he hc hw, hv⟩

end

namespace Expression

variable {env : EvalEnv} {frame : Frame} {frames : List Frame} {store : Store} {prompt : Prompt}

-- The instructions of an expression, worked off without an error, leave the values as they were, but
-- for the value of the expression behind them.
theorem compositional {e : Expression} (hw : e.WellFormed env.heap.names) (hp : frame.position.isSome) :
    (Prompt.Completes env frame.expr_stack.length ⟨frame.serialize env.heap e :: frames, store⟩ prompt ↔
      ∃ value store', e.Evaluates env frame store value store' ∧
        prompt = ⟨{ frame with expr_values := frame.expr_values ++ value.toList } :: frames, store'⟩) ∧
    ∀ value store', e.Evaluates env frame store value store' →
      (e.valued → value.isSome) ∧ (e.void → value = none) := by
  constructor
  case left =>
    have hd := (denotes hw : e.Denotes env frame) frames [] frame.expr_values store
    rw [List.append_nil] at hd
    constructor
    case mp =>
      intro h
      obtain ⟨vf, σf, h, hprompt⟩ := works_of_completes hp h
      obtain ⟨value, store', he, h⟩ := (hd _ _).mp h
      obtain ⟨rfl, rfl⟩ := Works.nil_iff.mp h
      exact ⟨value, σf, he, hprompt⟩
    case mpr =>
      rintro ⟨value, store', he, hprompt⟩
      subst hprompt
      exact completes_of_works hp ((hd _ _).mpr ⟨value, store', he, .done⟩)
  case right =>
    intro value store' he
    exact ⟨fun hv => he.isSome hv, fun hv => he.eq_none hv⟩

-- `{ assert(true) }`, which passes type inference as an array of `void`.
def array_of_void : Expression := .literal 0 .array [.call 1 .assert [.literal 2 .true []] 0]

-- `length({ true })`.
def length_of_array : Expression := .call 0 .length [.literal 1 .array [.literal 2 .true []]] 0

end Expression

-- `primitive p() { sync { length({ assert(true) }) == 1; } }`.
def Definition.asserted_element : Definition where
  this       := 2
  kind       := .primitive
  parameters := []
  body       := ⟨0, [.synchronous 1 ⟨2, [.expression 3 (.binary 3 .equality
    (.call 4 .length [.array_of_void] 1) (.literal 5 (.integer 1) []))], 4⟩ 5], 6⟩

-- The builtin functions `assert` and `length`, and the component.
def LinkCtx.of_asserted_element : LinkCtx where
  types id       := if id = 2 then .component 0 else .function 1
  has_symbol _ _ := false

def Heap.of_asserted_element : Heap :=
  (visit_module .of_asserted_element [.asserted_element] (.parsed (.parsed []))).toOption.getD
    (.parsed (.parsed []))

def EvalEnv.asserted_element : EvalEnv where
  build           := ⟨false, 0⟩
  definitions _   := some .asserted_element
  arena           := BlockOf.nodes Definition.asserted_element.body
  heap            := .of_asserted_element
  expr_data _ _ _ := none

-- The frame when the right operand of `==` is evaluated.
def Frame.asserted_element : Frame :=
  { Frame.new .of_asserted_element .asserted_element 0 with
    position    := some 3
    expr_values := [.integer ⟨false, .w32⟩ 1] }

namespace Expression

-- The array takes the value that was there.
theorem array_of_void_displaces :
    ∃ prompt, Prompt.Completes .asserted_element Frame.asserted_element.expr_stack.length
      ⟨[Frame.asserted_element.serialize .of_asserted_element array_of_void], .new⟩ prompt ∧
    ∀ (value : Option Value) store', prompt ≠ ⟨[{ Frame.asserted_element with
      expr_values := Frame.asserted_element.expr_values ++ value.toList }], store'⟩ := by
  refine ⟨⟨[{ Frame.asserted_element with expr_values := [.array 0] }],
    { Store.new with heap_regions := [[.integer ⟨false, .w32⟩ 1]] }⟩, ?_, ?_⟩
  · exact .round (by decide) ⟨.none, .inl rfl⟩ <| .round (by decide) ⟨.none, .inl rfl⟩ <|
      .round (by decide) ⟨.none, .inl rfl⟩ <| .round (by decide) ⟨.none, .inl rfl⟩ <|
      .round (by decide) ⟨.none, .inl rfl⟩ <| .done rfl
  · intro value store' h
    cases h

theorem compositional_length_of_array :
    Prompt.Completes .asserted_element Frame.asserted_element.expr_stack.length
      ⟨[Frame.asserted_element.serialize .of_asserted_element length_of_array], .new⟩
      ⟨[{ Frame.asserted_element with
        expr_values := [.integer ⟨false, .w32⟩ 1, .integer ⟨false, .w32⟩ 1] }],
        { Store.new with heap_regions := [[]], free_regions := [0] }⟩ := by
  have hw : length_of_array.WellFormed EvalEnv.asserted_element.heap.names := by
    simp [length_of_array, WellFormed, OperandsWellFormed, valued, Method.arity]
  have hheap : Heap.of_asserted_element = EvalEnv.asserted_element.heap := by
    rw [EvalEnv.asserted_element]
  rw [hheap]
  apply (@compositional .asserted_element .asserted_element [] .new _ length_of_array hw rfl).1.mpr
  let store₁ : Store := { Store.new with heap_regions := [[.bool true]] }
  have htrue : (Expression.literal 2 .true []).Evaluates .asserted_element .asserted_element .new
      (some (.bool true)) .new := by
    simp only [Evaluates, Literal.operands]
    exact ⟨[], .new, .bool true, ⟨rfl, rfl⟩, rfl, rfl⟩
  have harray : (Expression.literal 1 .array [.literal 2 .true []]).Evaluates .asserted_element
      .asserted_element .new (some (.array 0)) store₁ := by
    simp only [Evaluates, evaluations, Literal.operands]
    exact ⟨[.bool true], .new, .array 0, ⟨_, [], .new, ⟨rfl, rfl⟩, htrue, rfl⟩, rfl, rfl⟩
  refine ⟨some (.integer ⟨false, .w32⟩ 1), _, ?_, rfl⟩
  simp only [length_of_array, Evaluates, evaluations]
  exact ⟨[.array 0], store₁, ⟨_, [], .new, ⟨rfl, rfl⟩, harray, rfl⟩, _, rfl, rfl⟩

end Expression

end Reowolf
