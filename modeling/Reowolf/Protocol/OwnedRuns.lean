import Reowolf.Protocol.ExpressionRuns
import Reowolf.Protocol.OwnedGroups

namespace Reowolf

section

variable {values init rest : List Value} {v : Value}

theorem pop_back_eq_ok (h : pop_back values = .ok (v, init)) : values = init ++ [v] := by
  unfold pop_back at h
  split at h
  case h_1 hv =>
    cases h
    exact (List.dropLast_append_getLast? _ hv).symm
  case h_2 => cases h

theorem pop_front_eq_ok (h : pop_front values = .ok (v, rest)) : values = v :: rest := by
  cases values with
  | nil => cases h
  | cons =>
    cases h
    rfl

theorem push_value_eq_ok {result : Except Fault (Value × Store)} {store : Store}
    (h : push_value init result = .ok (values, store)) :
    ∃ v, result = .ok (v, store) ∧ values = init ++ [v] := by
  obtain ⟨⟨v, store'⟩, hr, he⟩ := Except.bind_eq_ok.mp h
  cases he
  exact ⟨v, hr, rfl⟩

theorem popped_perm : (init ++ [v] ++ rest).Perm (v :: (init ++ rest)) := by
  simp

end

-- An evaluation of operands in front of values that are kept for later. All below the frame and all that
-- is kept is as it was.
def Evaluated.Stays (result : Evaluated) (base others : List Value) (K : Multiset HeapPos)
    (kept : List HeapAllocation) : Prop :=
  ∀ values store, result = .ok (values, store) →
    ∃ slots, store.Holds base slots (values ++ others) K kept

-- The same of a round of the innermost frame that does not leave it.
def Outcome.Stays (out : Outcome) (frames : List Frame) (base others : List Value) (K : Multiset HeapPos)
    (kept : List HeapAllocation) : Prop :=
  ∃ frame slots, out.prompt.frames = frame :: frames ∧
    out.prompt.store.Holds base slots (frame.expr_values ++ others) K kept

-- What type inference promises of the operator that gives its operand back: the operand is a number.
def Frame.WellTyped (frame : Frame) (store : Store) : Prop :=
  ∀ this expression rest init v w,
    frame.expr_stack = .evalExpr (.unary this .positive expression) :: rest →
    frame.expr_values = init ++ [v] → store.maybe_read_ref v = .ok w →
    ∃ type value, w = .integer type value

section

variable {env : EvalEnv} {ctx : EvalContext} {frame : Frame} {frames : List Frame} {store store' : Store}
variable {base slots others values init operands : List Value} {K : Multiset HeapPos}
variable {kept : List HeapAllocation} {v w : Value} {this : ExpressionId} {out : Outcome}

namespace Evaluated

theorem stays_of_one {eval : List Value → Store → Evaluated}
    (operator : Value → Store → Except Fault (Value × Store))
    (ha : ∀ init v, eval (init ++ [v]) store = push_value init (operator v store))
    (hp : ∀ result, eval values store = .ok result → ∃ init v, values = init ++ [v])
    (ho : ∀ init v result store', values = init ++ [v] → store.Holds base slots (v :: (init ++ others)) K kept →
      operator v store = .ok (result, store') →
      store'.Holds base slots (result :: (init ++ others)) K kept)
    (h : store.Holds base slots (values ++ others) K kept) : (eval values store).Stays base others K kept := by
  intro values' store' he
  obtain ⟨init, v, hv⟩ := hp _ he
  subst hv
  rw [ha] at he
  obtain ⟨result, hr, hv'⟩ := push_value_eq_ok he
  subst hv'
  exact ⟨slots, (ho init v result store' rfl (h.perm popped_perm) hr).perm popped_perm.symm⟩

theorem stays_of_two {eval : List Value → Store → Evaluated}
    (operator : Value → Value → Store → Except Fault (Value × Store))
    (ha : ∀ init v w, eval (init ++ [v] ++ [w]) store = push_value init (operator v w store))
    (hp : ∀ result, eval values store = .ok result → ∃ init v w, values = init ++ [v] ++ [w])
    (ho : ∀ init v w result store', store.Holds base slots (w :: v :: (init ++ others)) K kept →
      operator v w store = .ok (result, store') →
      ∃ slots', store'.Holds base slots' (result :: (init ++ others)) K kept)
    (h : store.Holds base slots (values ++ others) K kept) : (eval values store).Stays base others K kept := by
  intro values' store' he
  obtain ⟨init, v, w, hv⟩ := hp _ he
  subst hv
  rw [ha] at he
  obtain ⟨result, hr, hv'⟩ := push_value_eq_ok he
  subst hv'
  have hperm : (init ++ [v] ++ [w] ++ others).Perm (w :: v :: (init ++ others)) :=
    popped_perm.trans (popped_perm.cons w)
  obtain ⟨slots', h'⟩ := ho init v w result store' (h.perm hperm) hr
  exact ⟨slots', h'.perm popped_perm.symm⟩

end Evaluated

namespace Store.Holds

theorem eval_assignment {op : AssignmentOperator} (h : store.Holds base slots (values ++ others) K kept) :
    (Reowolf.eval_assignment env op values store).Stays base others K kept := by
  intro values' store' he
  obtain ⟨⟨w, values₁⟩, hw, he₁⟩ := Except.bind_eq_ok.mp he
  obtain ⟨_, _, he₁⟩ := Except.bind_eq_ok.mp he₁
  obtain ⟨⟨v, init⟩, hv, _⟩ := Except.bind_eq_ok.mp he₁
  have hw := pop_back_eq_ok hw
  have hv := pop_back_eq_ok hv
  subst hw hv
  rw [eval_assignment_append] at he
  cases ha : Reowolf.assign env op w v store with
  | error =>
    rw [ha] at he
    cases he
  | ok store₁ =>
    rw [ha] at he
    cases he
    have hperm : (values' ++ [v] ++ [w] ++ others).Perm (v :: w :: (values' ++ others)) :=
      (popped_perm.trans (popped_perm.cons w)).trans (.swap _ _ _)
    exact (h.perm hperm).assign ha

theorem eval_binding (h : store.Holds base slots (values ++ others) K kept) :
    (Reowolf.eval_binding values store).Stays base others K kept := by
  refine Evaluated.stays_of_two (fun v w => Reowolf.bind_values w v) (fun _ _ _ => eval_binding_append) ?_
    (fun _ _ _ _ _ h hb => h.bind_values hb) h
  intro result he
  obtain ⟨⟨w, values₁⟩, hw, he⟩ := Except.bind_eq_ok.mp he
  obtain ⟨⟨v, init⟩, hv, _⟩ := Except.bind_eq_ok.mp he
  have hw := pop_back_eq_ok hw
  have hv := pop_back_eq_ok hv
  exact ⟨init, v, w, hv ▸ hw⟩

theorem eval_binary {op : BinaryOperator} (h : store.Holds base slots (values ++ others) K kept) :
    (Reowolf.eval_binary env op values store).Stays base others K kept := by
  refine Evaluated.stays_of_two (fun v w => Reowolf.binary_value env op w v)
    (fun _ _ _ => eval_binary_append) ?_ (fun _ _ _ _ _ h hb => ⟨slots, h.binary_value hb⟩) h
  intro result he
  obtain ⟨⟨w, values₁⟩, hw, he⟩ := Except.bind_eq_ok.mp he
  obtain ⟨⟨v, init⟩, hv, _⟩ := Except.bind_eq_ok.mp he
  have hw := pop_back_eq_ok hw
  have hv := pop_back_eq_ok hv
  exact ⟨init, v, w, hv ▸ hw⟩

theorem eval_indexing (h : store.Holds base slots (values ++ others) K kept) :
    (Reowolf.eval_indexing values store).Stays base others K kept := by
  refine Evaluated.stays_of_two Reowolf.index_value (fun _ _ _ => eval_indexing_append) ?_
    (fun _ _ _ _ _ h hi => ⟨slots, (h.perm (.swap _ _ _)).index_value hi⟩) h
  intro result he
  obtain ⟨⟨w, values₁⟩, hw, he⟩ := Except.bind_eq_ok.mp he
  obtain ⟨_, _, he⟩ := Except.bind_eq_ok.mp he
  obtain ⟨_, _, he⟩ := Except.bind_eq_ok.mp he
  obtain ⟨⟨v, init⟩, hv, _⟩ := Except.bind_eq_ok.mp he
  have hw := pop_back_eq_ok hw
  have hv := pop_back_eq_ok hv
  exact ⟨init, v, w, hv ▸ hw⟩

theorem eval_unary {op : UnaryOperator} (h : store.Holds base slots (values ++ others) K kept)
    (ht : op = .positive → ∀ init v w, values = init ++ [v] → store.maybe_read_ref v = .ok w →
      ∃ type value, w = .integer type value) :
    (Reowolf.eval_unary env op values store).Stays base others K kept := by
  refine Evaluated.stays_of_one (Reowolf.unary_value env op) (fun _ _ => eval_unary_append) ?_ ?_ h
  · intro result he
    obtain ⟨⟨v, init⟩, hv, _⟩ := Except.bind_eq_ok.mp he
    exact ⟨init, v, pop_back_eq_ok hv⟩
  · intro init v result store' hv h hu
    refine h.unary_value (fun hop w hw => ?_) hu
    obtain ⟨type, value, hi⟩ := ht hop init v w hv hw
    exact hi ▸ rfl

theorem eval_select (h : store.Holds base slots (values ++ others) K kept) :
    (Reowolf.eval_select env frame this values store).Stays base others K kept := by
  refine Evaluated.stays_of_one (Reowolf.select_value env frame this) (fun _ _ => eval_select_append) ?_
    (fun _ _ _ _ _ h hs => h.select_value hs) h
  intro result he
  obtain ⟨⟨v, init⟩, hv, _⟩ := Except.bind_eq_ok.mp he
  exact ⟨init, v, pop_back_eq_ok hv⟩

theorem eval_cast (h : store.Holds base slots (values ++ others) K kept) :
    (Reowolf.eval_cast env frame this values store).Stays base others K kept := by
  refine Evaluated.stays_of_one (Reowolf.cast_value env frame this) (fun _ _ => eval_cast_append) ?_
    (fun _ _ _ _ _ h hc => h.cast_value hc) h
  intro result he
  obtain ⟨_, _, he⟩ := Except.bind_eq_ok.mp he
  obtain ⟨⟨v, init⟩, hv, _⟩ := Except.bind_eq_ok.mp he
  exact ⟨init, v, pop_back_eq_ok hv⟩

theorem eval_slicing (h : store.Holds base slots (values ++ others) K kept) :
    (Reowolf.eval_slicing values store).Stays base others K kept := by
  intro values' store' he
  obtain ⟨⟨u, values₁⟩, hu, he₁⟩ := Except.bind_eq_ok.mp he
  obtain ⟨_, _, he₁⟩ := Except.bind_eq_ok.mp he₁
  obtain ⟨⟨w, values₂⟩, hw, he₁⟩ := Except.bind_eq_ok.mp he₁
  obtain ⟨_, _, he₁⟩ := Except.bind_eq_ok.mp he₁
  obtain ⟨_, _, he₁⟩ := Except.bind_eq_ok.mp he₁
  obtain ⟨_, _, he₁⟩ := Except.bind_eq_ok.mp he₁
  obtain ⟨⟨v, init⟩, hv, _⟩ := Except.bind_eq_ok.mp he₁
  have hu := pop_back_eq_ok hu
  have hw := pop_back_eq_ok hw
  have hv := pop_back_eq_ok hv
  subst hu hw hv
  rw [eval_slicing_append] at he
  obtain ⟨result, hr, hv⟩ := push_value_eq_ok he
  subst hv
  have hperm : (init ++ [v] ++ [w] ++ [u] ++ others).Perm (v :: u :: w :: (init ++ others)) := by
    have h₁ : (u :: w :: v :: (init ++ others)).Perm (v :: u :: w :: (init ++ others)) :=
      (List.Perm.cons u (.swap _ _ _)).trans (.swap _ _ _)
    exact (popped_perm.trans ((popped_perm.trans (popped_perm.cons w)).cons u)).trans h₁
  exact ⟨slots, ((h.perm hperm).slice_value hr).perm popped_perm.symm⟩

theorem eval_literal {form : Literal} {num_values : Nat}
    (h : store.Holds base slots (values ++ others) K kept) :
    (Reowolf.eval_literal env frame this form num_values values store).Stays base others K kept := by
  intro values' store' he
  by_cases hn : form.takes num_values ≤ values.length
  case pos =>
    generalize ho : values.take (form.takes num_values) = operands
    generalize hi : values.drop (form.takes num_values) = init
    have hv : values = operands ++ init := by rw [← ho, ← hi, List.take_append_drop]
    have hlen : operands.length = form.takes num_values := ho ▸ List.length_take_of_le hn
    subst hv
    rw [eval_literal_append hlen] at he
    obtain ⟨result, hr, hv⟩ := push_value_eq_ok he
    subst hv
    rw [List.append_assoc] at h
    exact ⟨slots, (h.literal_value hr).perm popped_perm.symm⟩
  case neg =>
    have hfail : ∀ x, transfer_expression_values_front_into_heap values store num_values ≠ .ok x := by
      intro x hx
      have hlt : values.length < num_values := by
        cases form <;> simp only [Literal.takes] at hn <;> omega
      simp only [transfer_expression_values_front_into_heap, if_pos hlt] at hx
      cases hx
    cases form with
    | struct | union | array =>
      obtain ⟨x, hx, _⟩ := Except.bind_eq_ok.mp he
      exact absurd hx (hfail x)
    | _ => exact absurd (Nat.zero_le _) hn

theorem eval_variable (h : store.Holds base slots (values ++ others) K kept) :
    (Reowolf.eval_variable env this values store).Stays base others K kept := by
  intro values' store' he
  simp only [Reowolf.eval_variable] at he
  split at he
  case h_1 => cases he
  case h_2 =>
    cases he
    refine ⟨slots, (h.add ?_ ?_).perm popped_perm.symm⟩
    · split <;> rfl
    · split <;> trivial

theorem eval_create (h : store.Holds base slots (values ++ others) K kept) :
    (Reowolf.eval_create values store).Stays base others K kept := by
  intro values' store' he
  obtain ⟨⟨v, rest⟩, hv, _⟩ := Except.bind_eq_ok.mp he
  have hv := pop_front_eq_ok hv
  subst hv
  rw [eval_create_cons] at he
  obtain ⟨result, hr, hv⟩ := push_value_eq_ok he
  subst hv
  have h : store.Holds base slots (v :: (rest ++ others)) K kept := h
  exact ⟨slots, (h.create_value hr).perm popped_perm.symm⟩

theorem eval_length (h : store.Holds base slots (values ++ others) K kept) :
    (Reowolf.eval_length values store).Stays base others K kept := by
  intro values' store' he
  obtain ⟨⟨v, rest⟩, hv, _⟩ := Except.bind_eq_ok.mp he
  have hv := pop_front_eq_ok hv
  subst hv
  rw [eval_length_cons] at he
  obtain ⟨result, hr, hv⟩ := push_value_eq_ok he
  subst hv
  have h : store.Holds base slots (v :: (rest ++ others)) K kept := h
  exact ⟨slots, (h.length_value hr).perm popped_perm.symm⟩

end Store.Holds

namespace Outcome.Stays

variable {result : Evaluated} {expr_stack : List ExprInstruction}

theorem finish_expr (hs : result.Stays base others K kept)
    (h : Reowolf.finish_expr frame frames result = .ok out) : out.Stays frames base others K kept := by
  obtain ⟨⟨values, store⟩, hr, he⟩ := Except.bind_eq_ok.mp h
  cases he
  obtain ⟨slots, h⟩ := hs values store (lift_eq_ok.mp hr)
  exact ⟨_, slots, rfl, h⟩

theorem block_on {call : Expression} {continuation : EvalContinuation}
    (h : store.Holds base slots (values ++ others) K kept)
    (hb : Reowolf.block_on frame frames call values continuation store = .ok out) :
    out.Stays frames base others K kept := by
  cases hb
  exact ⟨_, slots, rfl, h⟩

theorem eval_get {call : Expression} (h : store.Holds base slots (frame.expr_values ++ others) K kept)
    (he : Reowolf.eval_get ctx frame frames call store = .ok out) : out.Stays frames base others K kept := by
  obtain ⟨⟨value, values⟩, hv, he⟩ := Except.bind_eq_ok.mp he
  have hv := pop_front_eq_ok (lift_eq_ok.mp hv)
  rw [hv] at h
  have h : store.Holds base slots (values ++ others) K kept := Store.Holds.forget h
  obtain ⟨port, _, he⟩ := Except.bind_eq_ok.mp he
  obtain ⟨received, hget, he⟩ := Except.bind_eq_ok.mp he
  cases ctx with
  | none | nonsync => cases hget
  | sync is_firing read_msg did_put_or_get =>
    cases port with
    | input id =>
      simp only [EvalContext.get] at hget
      cases hread : read_msg id with
      | none =>
        rw [hread] at hget
        cases hget
        have h' : store.Holds base slots ([.input id] ++ values ++ others) K kept := h.add rfl trivial
        exact block_on h' he
      | some payload =>
        rw [hread] at hget
        obtain ⟨region, hregion, hget⟩ := Except.bind_eq_ok.mp hget
        cases hget
        obtain ⟨h₁, hus, _⟩ := h.alloc_heap rfl
          (rfl : (Value.message store.alloc_heap.1).get_heap_pos = some store.alloc_heap.1)
        cases hus.symm.trans (Store.region_eq_ok.mp (lift_eq_ok.mp hregion))
        have hleaves : ∀ w ∈ [] ++ payload.map fun byte => Value.integer .u8 byte.toBitVec,
            w.get_heap_pos = none ∧ w.is_ref = false := by
          intro w hw
          obtain ⟨_, _, hw⟩ := List.mem_map.mp hw
          exact hw ▸ ⟨rfl, rfl⟩
        have h₂ := (h₁.set_leaves rfl hleaves).perm popped_perm.symm
        exact finish_expr (fun _ _ he => by cases he; exact ⟨slots, h₂⟩) he
    | _ => cases hget

theorem eval_put {call : Expression} (h : store.Holds base slots (frame.expr_values ++ others) K kept)
    (he : Reowolf.eval_put ctx frame frames call store = .ok out) : out.Stays frames base others K kept := by
  obtain ⟨⟨port_value, values₁⟩, hv₁, he⟩ := Except.bind_eq_ok.mp he
  obtain ⟨port, _, he⟩ := Except.bind_eq_ok.mp he
  obtain ⟨⟨msg_value, values⟩, hv, he⟩ := Except.bind_eq_ok.mp he
  obtain ⟨msg, _, he⟩ := Except.bind_eq_ok.mp he
  have hv₁ := pop_front_eq_ok (lift_eq_ok.mp hv₁)
  have hv := pop_front_eq_ok (lift_eq_ok.mp hv)
  subst hv
  rw [hv₁] at h
  cases msg with
  | message =>
    obtain ⟨did_put, _, he⟩ := Except.bind_eq_ok.mp he
    cases did_put with
    | true =>
      obtain ⟨store', hd, he⟩ := Except.bind_eq_ok.mp he
      have h' := Store.Holds.drop_value (Store.Holds.forget h) (lift_eq_ok.mp hd)
      exact finish_expr (fun _ _ he => by cases he; exact ⟨slots, h'⟩) he
    | false => exact block_on h he
  | _ => cases he

theorem eval_fires {call : Expression} (h : store.Holds base slots (frame.expr_values ++ others) K kept)
    (he : Reowolf.eval_fires ctx frame frames call store = .ok out) :
    out.Stays frames base others K kept := by
  obtain ⟨⟨port_value, values⟩, hv, he⟩ := Except.bind_eq_ok.mp he
  obtain ⟨port, _, he⟩ := Except.bind_eq_ok.mp he
  obtain ⟨fires, hf, he⟩ := Except.bind_eq_ok.mp he
  have hv := pop_front_eq_ok (lift_eq_ok.mp hv)
  rw [hv] at h
  cases fires with
  | none => exact block_on h he
  | some value =>
    have hleaf : ∃ fires, value = .bool fires := by
      cases ctx with
      | none | nonsync => cases hf
      | sync is_firing read_msg did_put_or_get =>
        cases port with
        | input id | output id =>
          simp only [EvalContext.fires, Except.ok.injEq, Option.map_eq_some_iff] at hf
          obtain ⟨fires, _, hv⟩ := hf
          exact ⟨fires, hv.symm⟩
        | _ => cases hf
    obtain ⟨fires, hb⟩ := hleaf
    subst hb
    have h' : store.Holds base slots (.bool fires :: (values ++ others)) K kept :=
      (Store.Holds.forget h).add rfl trivial
    have h' := h'.perm popped_perm.symm
    exact finish_expr (fun _ _ he => by cases he; exact ⟨slots, h'⟩) he

theorem eval_assert (h : store.Holds base slots (frame.expr_values ++ others) K kept)
    (he : Reowolf.eval_assert frame frames store = .ok out) : out.Stays frames base others K kept := by
  obtain ⟨⟨value, values⟩, hv, he⟩ := Except.bind_eq_ok.mp he
  obtain ⟨_, _, he⟩ := Except.bind_eq_ok.mp he
  obtain ⟨holds, _, he⟩ := Except.bind_eq_ok.mp he
  have hv := pop_front_eq_ok (lift_eq_ok.mp hv)
  rw [hv] at h
  have h' : store.Holds base slots (values ++ others) K kept := Store.Holds.forget h
  cases holds with
  | true => exact finish_expr (fun _ _ he => by cases he; exact ⟨slots, h'⟩) he
  | false =>
    cases he
    exact ⟨_, slots, rfl, h'⟩

theorem eval_conditional {t f : Expression}
    (h : store.Holds base slots (frame.expr_values ++ others) K kept)
    (he : Reowolf.eval_conditional env frame frames t f store = .ok out) :
    out.Stays frames base others K kept := by
  obtain ⟨⟨test, values⟩, hv, he⟩ := Except.bind_eq_ok.mp he
  obtain ⟨_, _, he⟩ := Except.bind_eq_ok.mp he
  cases he
  have hv := pop_back_eq_ok (lift_eq_ok.mp hv)
  rw [hv] at h
  exact ⟨_, slots, rfl, (h.perm popped_perm).forget⟩

-- A round in which an expression is evaluated, but for the call of a function of the user.
theorem eval_expr {expr : Expression} (h : store.Holds base slots (frame.expr_values ++ others) K kept)
    (ht : ∀ this expression, expr = .unary this .positive expression →
      ∀ init v w, frame.expr_values = init ++ [v] → store.maybe_read_ref v = .ok w →
        ∃ type value, w = .integer type value)
    (hc : ∀ this arguments definition, expr ≠ .call this .userFunction arguments definition)
    (he : Reowolf.eval_expr env ctx frame frames expr store = .ok out) :
    out.Stays frames base others K kept := by
  cases expr with
  | assignment        => exact finish_expr h.eval_assignment he
  | binding           => exact finish_expr h.eval_binding he
  | conditional       => exact eval_conditional h he
  | binary            => exact finish_expr h.eval_binary he
  | unary this op e   => exact finish_expr (h.eval_unary fun hop => ht this e (hop ▸ rfl)) he
  | indexing          => exact finish_expr h.eval_indexing he
  | slicing           => exact finish_expr h.eval_slicing he
  | select            => exact finish_expr h.eval_select he
  | literal           => exact finish_expr h.eval_literal he
  | cast              => exact finish_expr h.eval_cast he
  | «variable»        => exact finish_expr h.eval_variable he
  | call this method arguments definition =>
    cases method with
    | get           => exact eval_get h he
    | put           => exact eval_put h he
    | fires         => exact eval_fires h he
    | create        => exact finish_expr h.eval_create he
    | length        => exact finish_expr h.eval_length he
    | assert        => exact eval_assert h he
    | userComponent => exact finish_expr (fun _ _ he => by cases he; exact ⟨slots, h⟩) he
    | userFunction  => exact absurd rfl (hc this arguments definition)

theorem eval_instruction {instruction : ExprInstruction}
    (h : store.Holds base slots (frame.expr_values ++ others) K kept)
    (hs : frame.expr_stack = instruction :: expr_stack) (ht : frame.WellTyped store)
    (hc : ∀ this arguments definition,
      instruction ≠ .evalExpr (.call this .userFunction arguments definition))
    (he : Reowolf.eval_instruction env ctx { frame with expr_stack } frames instruction store = .ok out) :
    out.Stays frames base others K kept := by
  cases instruction with
  | pushValToFront =>
    obtain ⟨values, hr, he⟩ := Except.bind_eq_ok.mp he
    have hr := lift_eq_ok.mp hr
    simp only [rotate_right] at hr
    split at hr
    case h_1 value hv =>
      cases hr
      have hv : frame.expr_values = frame.expr_values.dropLast ++ [value] :=
        (List.dropLast_append_getLast? _ hv).symm
      rw [hv] at h
      have h' := h.perm popped_perm
      exact finish_expr (fun _ _ he => by cases he; exact ⟨slots, h'⟩) he
    case h_2 => cases hr
  | evalExpr expr =>
    have hexpr : frame.expr_stack = .evalExpr expr :: expr_stack := hs
    have h : store.Holds base slots (({ frame with expr_stack } : Frame).expr_values ++ others) K kept := h
    refine eval_expr h (fun this e hu init v w => ?_) (fun this arguments definition hc' => ?_) he
    · exact ht this e expr_stack init v w (hu ▸ hexpr)
    · exact hc this arguments definition (hc' ▸ rfl)

theorem finish_stmt {continuation : EvalContinuation} {position : Option StatementId}
    (h : store.Holds base slots (values ++ others) K kept)
    (he : Reowolf.finish_stmt env frame frames continuation position values store = .ok out) :
    out.Stays frames base others K kept := by
  simp only [Reowolf.finish_stmt] at he
  split at he
  case isTrue => cases he
  case isFalse hv =>
    obtain ⟨next, hp, he⟩ := Except.bind_eq_ok.mp he
    cases he
    rw [not_not.mp hv] at h hp
    have hvalues : next.expr_values = [] := by
      simp only [lift_eq_ok, prepare_position] at hp
      split at hp
      case h_1 =>
        cases hp
        rfl
      case h_2 =>
        obtain ⟨node, _, hp⟩ := Except.bind_eq_ok.mp hp
        split at hp <;> cases hp <;> rfl
    refine ⟨next, slots, rfl, ?_⟩
    rwa [hvalues]

theorem pop_test {test : Bool} (h : store.Holds base slots (frame.expr_values ++ others) K kept)
    (ht : Reowolf.pop_test frame store = .ok (test, values)) :
    store.Holds base slots (values ++ others) K kept := by
  obtain ⟨⟨value, init⟩, hv, ht⟩ := Except.bind_eq_ok.mp ht
  obtain ⟨_, _, ht⟩ := Except.bind_eq_ok.mp ht
  obtain ⟨_, _, he⟩ := Except.bind_eq_ok.mp ht
  cases he
  rw [pop_back_eq_ok hv] at h
  exact (h.perm popped_perm).forget

theorem drop_values (h : store.Holds base slots (values ++ others) K kept)
    (hd : Reowolf.drop_values values store = .ok store') : store'.Holds base slots others K kept := by
  induction values generalizing store with
  | nil =>
    cases hd
    exact h
  | cons value values ih =>
    obtain ⟨store₁, hdrop, hd⟩ := Except.bind_eq_ok.mp hd
    exact ih (Store.Holds.drop_value h hdrop) hd

theorem exec_channel {from_id to_id : VariableId} {position : Option StatementId}
    (h : store.Holds base slots (frame.expr_values ++ others) K kept)
    (he : Reowolf.exec_channel env ctx frame frames from_id to_id position store = .ok out) :
    out.Stays frames base others K kept := by
  obtain ⟨⟨from_value, to_value⟩, hports, he⟩ := Except.bind_eq_ok.mp he
  cases ctx with
  | none | sync => cases hports
  | nonsync pair =>
    cases hports
    obtain ⟨store₁, hw₁, he⟩ := Except.bind_eq_ok.mp he
    obtain ⟨store₂, hw₂, he⟩ := Except.bind_eq_ok.mp he
    have h₀ : store.Holds base slots (.output pair.1 :: (frame.expr_values ++ others)) K kept :=
      h.add rfl trivial
    obtain ⟨slots₁, h₁⟩ := h₀.write_slot rfl (lift_eq_ok.mp hw₁)
    have h₁ : store₁.Holds base slots₁ (.input pair.2 :: (frame.expr_values ++ others)) K kept :=
      h₁.add rfl trivial
    obtain ⟨slots₂, h₂⟩ := h₁.write_slot rfl (lift_eq_ok.mp hw₂)
    exact finish_stmt h₂ he

-- A round in which a statement is executed, but for a return.
theorem exec_stmt {id : StatementId} {node : Node}
    (h : store.Holds base slots (frame.expr_values ++ others) K kept)
    (hr : ∀ this e, node ≠ .statement (.return this e))
    (he : Reowolf.exec_stmt env ctx frame frames id node store = .ok out) :
    out.Stays frames base others K kept := by
  cases node with
  | endBlock start_block =>
    obtain ⟨store₁, hc, he⟩ := Except.bind_eq_ok.mp he
    obtain ⟨h₁, _⟩ := h.clear_stack (lift_eq_ok.mp hc)
    exact finish_stmt h₁ he
  | endIf | endWhile | endSynchronous => exact finish_stmt h he
  | statement stmt =>
    cases stmt with
    | block | labeled | synchronous | expression => exact finish_stmt h he
    | memory =>
      obtain ⟨store₁, hw, he⟩ := Except.bind_eq_ok.mp he
      have h₀ : store.Holds base slots (.unassigned :: (frame.expr_values ++ others)) K kept :=
        h.add rfl trivial
      obtain ⟨slots₁, h₁⟩ := h₀.write_slot rfl (lift_eq_ok.mp hw)
      exact finish_stmt h₁ he
    | channel => exact exec_channel h he
    | «if» | «while» =>
      obtain ⟨⟨test, values⟩, ht, he⟩ := Except.bind_eq_ok.mp he
      exact finish_stmt (pop_test h (lift_eq_ok.mp ht)) he
    | «break» | «continue» | goto =>
      simp only [Reowolf.exec_stmt] at he
      split at he
      case h_1 => exact finish_stmt h he
      case h_2 => cases he
    | «return» this e => exact absurd rfl (hr this e)
    | new =>
      obtain ⟨_, _, he⟩ := Except.bind_eq_ok.mp he
      obtain ⟨_, _, he⟩ := Except.bind_eq_ok.mp he
      obtain ⟨store₁, hd, he⟩ := Except.bind_eq_ok.mp he
      have h₁ : store₁.Holds base slots ([] ++ others) K kept := drop_values h (lift_eq_ok.mp hd)
      exact finish_stmt h₁ he

end Outcome.Stays

end

end Reowolf
