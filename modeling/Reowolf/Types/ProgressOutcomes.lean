import Reowolf.Types.ConstraintOutcomes

namespace Reowolf.Types.ProcedureBody

open InferenceTypePart (signature)
open InferenceType

variable {body : ProcedureBody} {s s' s₁ s₂ s₃ : BodyTyping} {p q : Bool} {expr_id a b : Nat}
variable {R : Typing → Prop}

section Queue

-- Only the queue becomes longer, if at all, and by expressions of the procedure.
def Enqueues (body : ProcedureBody) (s : BodyTyping) (p : Bool) (s' : BodyTyping) : Prop :=
  ∃ expr_queued, s' = { s with expr_queued } ∧
    (∀ expr_id ∈ expr_queued, expr_id ∈ s.expr_queued ∨ body.exprs expr_id ≠ none) ∧
    (p = false → expr_queued = s.expr_queued)

namespace Enqueues

theorem refl (s : BodyTyping) : body.Enqueues s p s :=
  ⟨s.expr_queued, rfl, fun _ h => .inl h, fun _ => rfl⟩

theorem trans (h : body.Enqueues s₁ p s₂) (h' : body.Enqueues s₂ q s₃) :
    body.Enqueues s₁ (p || q) s₃ := by
  obtain ⟨queue, he, hmem, hsame⟩ := h
  obtain ⟨queue', he', hmem', hsame'⟩ := h'
  subst he
  refine ⟨queue', he', fun id hid => ?_, fun hpq => ?_⟩
  · exact (hmem' id hid).elim (hmem id) .inr
  · obtain ⟨hp, hq⟩ := Bool.or_eq_false_iff.mp hpq
    exact (hsame' hq).trans (hsame hp)

theorem narrows (h : body.Enqueues s p s') (hs : body.Valid s) : body.propagation.Narrows R s s' := by
  obtain ⟨queue, he, hmem, _⟩ := h
  subst he
  exact ⟨{ hs with queued := fun id hid => (hmem id hid).elim (hs.queued id) fun h => h },
    ⟨fun _ _ => .refl _, fun _ data h => ⟨data, h, .refl _⟩⟩, fun _ _ h => ⟨h.exprs, h.vars, h.data⟩⟩

theorem queue_expr (hid : body.exprs expr_id ≠ none) :
    body.Enqueues s true (queue_expr expr_id s) := by
  refine ⟨_, rfl, fun i hi => ?_, fun h => Bool.noConfusion h⟩
  rw [push_back] at hi
  split at hi
  case isTrue  => exact .inl hi
  case isFalse =>
    rw [List.mem_append, List.mem_singleton] at hi
    exact Or.imp_right (fun he => by rwa [he]) hi

theorem queue_expr_parent (h : body.Linked) : body.Enqueues s true (body.queue_expr_parent expr_id s) := by
  rw [ProcedureBody.queue_expr_parent]
  cases hp : body.parent_expr expr_id with
  | none           => exact .refl s
  | some parent_id => exact queue_expr (h.parents expr_id parent_id hp)

theorem queue_exprs {ids : List Nat} (hids : ∀ id ∈ ids, body.exprs id ≠ none) :
    body.Enqueues s true (queue_exprs ids s) := by
  rw [ProcedureBody.queue_exprs]
  induction ids generalizing s with
  | nil => exact .refl s
  | cons id ids ih =>
    obtain ⟨hid, hids⟩ := List.forall_mem_cons.mp hids
    exact (queue_expr hid).trans (ih hids)

theorem queue_args {l : List (Bool × Nat)} (hargs : ∀ arg ∈ l, body.exprs arg.2 ≠ none) :
    body.Enqueues s (l.any Prod.fst)
      (l.foldl (fun s arg => if arg.1 then ProcedureBody.queue_expr arg.2 s else s) s) := by
  induction l generalizing s with
  | nil => exact .refl s
  | cons arg l ih =>
    obtain ⟨harg, hargs⟩ := List.forall_mem_cons.mp hargs
    rw [List.any_cons, List.foldl_cons]
    refine .trans ?_ (ih hargs)
    cases arg.1 with
    | false => exact .refl s
    | true  => exact queue_expr harg

theorem queue_progress {args : List (Bool × Nat)} (h : body.Linked)
    (hargs : ∀ arg ∈ args, body.exprs arg.2 ≠ none) :
    body.Enqueues s (p || args.any Prod.fst) (body.queue_progress expr_id p args s) := by
  rw [ProcedureBody.queue_progress]
  refine .trans ?_ (queue_args hargs)
  cases p with
  | false => exact .refl s
  | true  => exact queue_expr_parent h

end Enqueues

-- After progress others are queued.
theorem Effect.enqueues (h : body.Effect s₁ p s₂) (h' : body.Enqueues s₂ q s₃)
    (hqp : q = true → p = true) : body.Effect s₁ p s₃ := by
  obtain ⟨queue, he, _, hsame⟩ := h'
  subst he
  refine ⟨⟨h.refines.exprs, h.refines.vars⟩, fun hp hr => h.progress hp ⟨hr.exprs, hr.vars⟩, fun hp => ?_⟩
  refine (hsame ?_).trans (h.queued hp)
  rw [← Bool.not_eq_true]
  exact fun hq => Bool.noConfusion ((hqp hq).symm.trans hp)

-- If nothing is inferred then nothing is queued.
def Steady (body : ProcedureBody) (s s' : BodyTyping) : Prop :=
  s'.expr_queued = s.expr_queued ∨ body.propagation.Progresses s s'

theorem Effect.steady (h : body.Effect s p s') : body.Steady s s' := by
  cases p with
  | true  => exact .inr (h.progress rfl)
  | false => exact .inl (h.queued rfl)

end Queue

section Templates

variable {heap : Heap} {x y : InferenceTypePart}

theorem template_leaf (ht : signature.arity x = 0) (hu : signature.marker x = false)
    (hk : ∀ id num, x ≠ .«instance» id num) : Template heap [x] where
  tree     := .singleton ht
  unmarked := fun _ hp => List.mem_singleton.mp hp ▸ hu
  known    := fun _ hp => List.mem_singleton.mp hp ▸ known_of_ne hk

theorem template_elements (ht : signature.arity x = 1 ∧ signature.arity y = 0)
    (hu : signature.marker x = false ∧ signature.marker y = false)
    (hk : ∀ id num, x ≠ .«instance» id num ∧ y ≠ .«instance» id num) : Template heap [x, y] where
  tree     := by
    refine .cons ?_
    rw [ht.left]
    exact .singleton ht.right
  unmarked := by simp [TermSignature.Unmarked, hu]
  known    := by
    simp only [List.forall_mem_cons, List.not_mem_nil, false_implies, implies_true, and_true]
    exact ⟨known_of_ne fun id num => (hk id num).left, known_of_ne fun id num => (hk id num).right⟩

theorem template_void : Template heap VOID_TEMPLATE :=
  template_leaf rfl rfl (by simp)

theorem template_bool : Template heap BOOL_TEMPLATE :=
  template_leaf rfl rfl (by simp)

theorem template_character : Template heap CHARACTER_TEMPLATE :=
  template_leaf rfl rfl (by simp)

theorem template_numberlike : Template heap NUMBERLIKE_TEMPLATE :=
  template_leaf rfl rfl (by simp)

theorem template_integerlike : Template heap INTEGERLIKE_TEMPLATE :=
  template_leaf rfl rfl (by simp)

theorem template_message : Template heap MESSAGE_TEMPLATE :=
  template_elements ⟨rfl, rfl⟩ ⟨rfl, rfl⟩ (by simp)

theorem template_string : Template heap STRING_TEMPLATE :=
  template_elements ⟨rfl, rfl⟩ ⟨rfl, rfl⟩ (by simp)

theorem template_array : Template heap ARRAY_TEMPLATE :=
  template_elements ⟨rfl, rfl⟩ ⟨rfl, rfl⟩ (by simp)

theorem template_slice : Template heap SLICE_TEMPLATE :=
  template_elements ⟨rfl, rfl⟩ ⟨rfl, rfl⟩ (by simp)

theorem template_arraylike : Template heap ARRAYLIKE_TEMPLATE :=
  template_elements ⟨rfl, rfl⟩ ⟨rfl, rfl⟩ (by simp)

end Templates

section Expressions

-- What an expression does when it progresses.
abbrev Progress (body : ProcedureBody) (s : BodyTyping) (x : Except InferenceStop BodyTyping) : Prop :=
  body.propagation.Outcome (·.WellTyped body) id (body.Steady s) s x

-- The progress of an expression ends with queueing others, if there has been some.
theorem finish {args : List (Bool × Nat)} (h : body.Linked) (hs : body.Valid s₁)
    (he : body.Effect s p s₁) (hargs : ∀ arg ∈ args, body.exprs arg.2 ≠ none)
    (hqp : (q || args.any Prod.fst) = true → p = true) :
    body.propagation.Outcome R id (body.Steady s) s₁ (.ok (body.queue_progress expr_id q args s₁)) :=
  .ok ((Enqueues.queue_progress h hargs).narrows hs)
    (he.enqueues (Enqueues.queue_progress h hargs) hqp).steady

theorem progress_assigned_outcome {operation : AssignmentOperator} (hs : body.Valid s)
    (hid : body.exprs a ≠ none) :
    body.propagation.Outcome (fun τ => Typing.AssignmentRule operation (τ.expr a)) Prod.snd
      (fun r => body.Effect s r.1 r.2) s (body.progress_assigned operation a s) := by
  cases operation with
  | set          => exact .ok (.refl hs) (.refl s)
  | concatenated =>
    exact (apply_template_constraint_outcome hs hid template_arraylike).mono (fun _ h _ => h)
      fun _ _ h => h.left
  | multiplied | divided | added | subtracted =>
    exact (apply_template_constraint_outcome hs hid template_numberlike).mono (fun _ h _ => h)
      fun _ _ h => h.left
  | remained | shiftedLeft | shiftedRight | bitwiseAnded | bitwiseXored | bitwiseOred =>
    exact (apply_template_constraint_outcome hs hid template_integerlike).mono (fun _ h _ => h)
      fun _ _ h => h.left

theorem Linked.nodes {expr : TypedExpression} (h : body.Linked) (he : body.exprs expr_id = some expr) :
    ∀ i ∈ expr_id :: expr.children, body.exprs i ≠ none :=
  List.forall_mem_cons.mpr ⟨by simp [he], h.children expr_id expr he⟩

theorem progress_assignment_outcome {operation : AssignmentOperator} (h : body.Linked)
    (hs : body.Valid s) (he : body.exprs expr_id = some (.assignment operation a b)) :
    body.Progress s (body.progress_assignment_expr expr_id operation a b s) := by
  have hobeys := fun (τ : Typing) (hτ : τ.WellTyped body) => hτ.exprs expr_id _ he
  have hnodup : [expr_id, a, b].Nodup := h.distinct _ _ he
  have hid : ∀ i ∈ [expr_id, a, b], body.exprs i ≠ none := h.nodes he
  obtain ⟨_, hab⟩ : _ ∧ a ≠ b := by simpa using hnodup
  refine (apply_forced_outcome hs (hid _ (by simp)) template_void).bind
    (fun τ hτ _ => (hobeys τ hτ).left) ?_
  rintro ⟨progress_expr, s₁⟩ hn₁ he₁
  refine (progress_assigned_outcome hn₁.valid (hid a (by simp))).bind
    (fun τ hτ _ => (hobeys τ hτ).right.left) ?_
  rintro ⟨progress_forced, s₂⟩ hn₂ he₂
  refine (apply_equal2_whole_outcome hn₂.valid hab fun i hi => hid i (.tail _ hi)).bind
    (fun τ hτ _ => (hobeys τ hτ).right.right) ?_
  rintro ⟨⟨progress_arg1, progress_arg2⟩, s₃⟩ hn₃ he₃
  refine finish h hn₃.valid ((he₁.trans he₂).trans he₃) (by simp [hid]) ?_
  simp only [List.any_cons, List.any_nil, Bool.or_eq_true]
  tauto

theorem progress_binding_outcome (h : body.Linked) (hs : body.Valid s)
    (he : body.exprs expr_id = some (.binding a b)) :
    body.Progress s (body.progress_binding_expr expr_id a b s) := by
  have hobeys := fun (τ : Typing) (hτ : τ.WellTyped body) => hτ.exprs expr_id _ he
  have hnodup : [expr_id, a, b].Nodup := h.distinct _ _ he
  have hid : ∀ i ∈ [expr_id, a, b], body.exprs i ≠ none := h.nodes he
  obtain ⟨_, hab⟩ : _ ∧ a ≠ b := by simpa using hnodup
  refine (apply_forced_outcome hs (hid _ (by simp)) template_bool).bind
    (fun τ hτ _ => (hobeys τ hτ).left) ?_
  rintro ⟨progress_expr, s₁⟩ hn₁ he₁
  refine (apply_equal2_whole_outcome hn₁.valid hab.symm (by simp [hid])).bind
    (fun τ hτ _ => (hobeys τ hτ).right) ?_
  rintro ⟨⟨progress_from, progress_to⟩, s₂⟩ hn₂ he₂
  refine finish h hn₂.valid (he₁.trans he₂) (by simp [hid]) ?_
  simp only [List.any_cons, List.any_nil, Bool.or_eq_true]
  tauto

theorem progress_conditional_outcome {test : Nat} (h : body.Linked) (hs : body.Valid s)
    (he : body.exprs expr_id = some (.conditional test a b)) :
    body.Progress s (body.progress_conditional_expr expr_id a b s) := by
  have hobeys := fun (τ : Typing) (hτ : τ.WellTyped body) => hτ.exprs expr_id _ he
  have hnodup : [expr_id, test, a, b].Nodup := h.distinct _ _ he
  have hid : ∀ i ∈ [expr_id, test, a, b], body.exprs i ≠ none := h.nodes he
  refine (apply_equal3_whole_outcome hs (by simp_all) (by simp [hid])).bind
    (fun τ hτ _ => hobeys τ hτ) ?_
  rintro ⟨⟨progress_expr, progress_arg1, progress_arg2⟩, s₁⟩ hn₁ he₁
  refine finish h hn₁.valid he₁ (by simp [hid]) ?_
  simp only [List.any_cons, List.any_nil, Bool.or_eq_true]
  tauto

-- What is known of a type that is done is so in every typing.
theorem certainly_string (hs : body.Valid s) (expr_id : Nat) : ∃ is_str is_not_str,
    type_is_certainly_or_certainly_not_string expr_id s = .ok (is_str, is_not_str) ∧
    ∀ τ : Typing, body.Admits s τ →
      (is_str = true → (τ.expr expr_id).head? = some .string) ∧
      (is_not_str = true → (τ.expr expr_id).head? ≠ some .string) := by
  have hp := hs.exprs expr_id
  rw [type_is_certainly_or_certainly_not_string]
  cases hd : (s.expr_types expr_id).is_done with
  | false => exact ⟨false, false, rfl, fun _ _ => ⟨fun h => Bool.noConfusion h, fun h => Bool.noConfusion h⟩⟩
  | true =>
    obtain ⟨part, parts, hparts, _⟩ := hp.tree.exists_cons
    refine ⟨decide (part = .string), decide (part ≠ .string), ?_, fun τ hτ => ?_⟩
    · simp [hparts, expect, Except.ok_bind]
    · rw [hτ.expr_eq hs hd, hparts]
      simp

-- What the typing says of three types at once.
theorem progress_equal_operands_outcome {template : List InferenceTypePart} (hs : body.Valid s)
    (hnodup : [expr_id, a, b].Nodup) (hid : ∀ i ∈ [expr_id, a, b], body.exprs i ≠ none)
    (ht : Template body.heap template) :
    body.propagation.Outcome (fun τ => Typing.Fits template (τ.expr expr_id) ∧
        τ.expr a = τ.expr expr_id ∧ τ.expr b = τ.expr expr_id) Prod.snd
      (fun r => body.Effect s (r.1.1 || r.1.2.1 || r.1.2.2) r.2) s
      (body.progress_equal_operands expr_id a b template s) := by
  refine (apply_template_constraint_outcome hs (hid _ (by simp)) ht).bind (fun τ hτ _ => hτ.left) ?_
  rintro ⟨progress_base, s₁⟩ hn₁ ⟨he₁, _⟩
  refine (apply_equal3_whole_outcome hn₁.valid hnodup hid).bind (fun τ hτ _ => hτ.right) ?_
  rintro ⟨⟨progress_expr, progress_arg1, progress_arg2⟩, s₂⟩ hn₂ he₂
  refine .ok (.refl hn₂.valid) ?_
  have he := he₁.trans he₂
  simpa [Bool.or_assoc, Bool.or_comm, Bool.or_left_comm] using he

theorem narrows_of {x y : InferenceTypePart} (h : x.may_be_inferred_from y = true) :
    signature.narrows x y :=
  h

theorem fits_arraylike_of_array {t : List InferenceTypePart} (h : Typing.Fits ARRAY_TEMPLATE t) :
    Typing.Fits ARRAYLIKE_TEMPLATE t :=
  TermSignature.Refines.trans (.narrow (narrows_of rfl) (.refl _)) h

theorem fits_arraylike_of_slice {t : List InferenceTypePart} (h : Typing.Fits SLICE_TEMPLATE t) :
    Typing.Fits ARRAYLIKE_TEMPLATE t :=
  TermSignature.Refines.trans (.narrow (narrows_of rfl) (.refl _)) h

theorem fits_arraylike_string : Typing.Fits ARRAYLIKE_TEMPLATE STRING_TEMPLATE :=
  .narrow (narrows_of rfl) (.fill (t := [InferenceTypePart.character]) (.cons .nil) (by decide) .nil)

-- An array is not a string.
theorem head_of_fits {x : InferenceTypePart} {t : List InferenceTypePart}
    (hx : x.is_concrete = true) (h : Typing.Fits [x, .unknown] t) : t.head? = some x := by
  have hne : x ≠ .unknown := by
    intro he
    subst he
    cases hx
  obtain ⟨y, t', ht, hy, _⟩ := (TermSignature.Refines.cons_iff hne).mp h
  subst ht
  obtain hy | hy := hy
  case inl => rw [hy, List.head?_cons]
  case inr =>
    obtain ⟨he, _⟩ | ⟨he, _⟩ | ⟨he, _⟩ | ⟨he, _⟩ := InferenceTypePart.may_be_inferred_from_iff.mp hy <;>
      cases he ▸ hx

-- The three types with the same elements.
theorem progress_concatenate_outcome (hs : body.Valid s) (hnodup : [expr_id, a, b].Nodup)
    (hid : ∀ i ∈ [expr_id, a, b], body.exprs i ≠ none) :
    body.propagation.Outcome
      (fun τ => Typing.ConcatenateRule (τ.expr expr_id) (τ.expr a) (τ.expr b)) Prod.snd
      (fun r => body.Effect s (r.1.1 || r.1.2.1 || r.1.2.2) r.2) s
      (body.progress_concatenate expr_id a b s) := by
  obtain ⟨expr_is_str, expr_is_not_str, hexpr, hstr_expr⟩ := certainly_string hs expr_id
  obtain ⟨arg1_is_str, arg1_is_not_str, harg1, hstr_arg1⟩ := certainly_string hs a
  obtain ⟨arg2_is_str, arg2_is_not_str, harg2, hstr_arg2⟩ := certainly_string hs b
  rw [progress_concatenate, hexpr, harg1, harg2]
  simp only [Except.ok_bind]
  cases hsome : expr_is_str || arg1_is_str || arg2_is_str with
  | true =>
    -- all must be strings
    simp only [if_true]
    refine (apply_equal3_whole_outcome hs hnodup hid).mono (fun τ hτ hadmits => ?_) fun _ _ h => h
    obtain ⟨he, ha, hb⟩ | ⟨he, _, _, ha, hb, _⟩ := hτ
    case inl => exact ⟨ha.trans he.symm, hb.trans he.symm⟩
    case inr =>
      rw [Bool.or_eq_true, Bool.or_eq_true] at hsome
      obtain (hsome | hsome) | hsome := hsome
      · cases (head_of_fits rfl he).symm.trans ((hstr_expr τ hadmits).left hsome)
      · exact absurd ((hstr_arg1 τ hadmits).left hsome) ha
      · exact absurd ((hstr_arg2 τ hadmits).left hsome) hb
  | false =>
    simp only [Bool.false_eq_true, if_false]
    obtain ⟨template, htemplate, ht, hgeneral, hfits⟩ : ∃ template,
        (if (expr_is_not_str || arg1_is_not_str || arg2_is_not_str) = true then ARRAY_TEMPLATE
          else ARRAYLIKE_TEMPLATE) = template ∧ Template body.heap template ∧
        Typing.Fits ARRAYLIKE_TEMPLATE template ∧
        ∀ τ : Typing, Typing.ConcatenateRule (τ.expr expr_id) (τ.expr a) (τ.expr b) →
          body.Admits s τ → Typing.Fits template (τ.expr expr_id) := by
      cases hnot : expr_is_not_str || arg1_is_not_str || arg2_is_not_str with
      | false =>
        refine ⟨_, rfl, template_arraylike, .refl _, fun τ hτ _ => ?_⟩
        obtain ⟨he, _⟩ | ⟨he, _⟩ := hτ
        · exact he ▸ fits_arraylike_string
        · exact fits_arraylike_of_array he
      | true =>
        refine ⟨_, rfl, template_array, fits_arraylike_of_array (.refl _), fun τ hτ hadmits => ?_⟩
        obtain ⟨he, ha, hb⟩ | ⟨he, _⟩ := hτ
        case inr => exact he
        case inl =>
          rw [Bool.or_eq_true, Bool.or_eq_true] at hnot
          obtain (hnot | hnot) | hnot := hnot
          · exact absurd (he ▸ rfl) ((hstr_expr τ hadmits).right hnot)
          · exact absurd (ha ▸ rfl) ((hstr_arg1 τ hadmits).right hnot)
          · exact absurd (hb ▸ rfl) ((hstr_arg2 τ hadmits).right hnot)
    rw [htemplate]
    have hargs : ∀ τ : Typing, Typing.ConcatenateRule (τ.expr expr_id) (τ.expr a) (τ.expr b) →
        Typing.Fits ARRAYLIKE_TEMPLATE (τ.expr a) ∧ Typing.Fits ARRAYLIKE_TEMPLATE (τ.expr b) := by
      intro τ hτ
      obtain ⟨_, ha, hb⟩ | ⟨_, ha, hb, _⟩ := hτ
      · exact ⟨ha ▸ fits_arraylike_string, hb ▸ fits_arraylike_string⟩
      · exact ⟨ha, hb⟩
    refine (apply_template_constraint_outcome hs (hid _ (by simp)) ht).bind hfits ?_
    rintro ⟨progress_expr, s₁⟩ hn₁ ⟨he₁, hr₁⟩
    refine (apply_template_constraint_outcome hn₁.valid (hid a (by simp)) template_arraylike).bind
      (fun τ hτ _ => (hargs τ hτ).left) ?_
    rintro ⟨progress_arg1, s₂⟩ hn₂ ⟨he₂, hr₂⟩
    refine (apply_template_constraint_outcome hn₂.valid (hid b (by simp)) template_arraylike).bind
      (fun τ hτ _ => (hargs τ hτ).right) ?_
    rintro ⟨progress_arg2, s₃⟩ hn₃ ⟨he₃, hr₃⟩
    have hstart : ∀ i ∈ [expr_id, a, b], TypeFrom (s₃.expr_types i).parts 1 := by
      have hr : ∀ i ∈ [expr_id, a, b], signature.Refines ARRAYLIKE_TEMPLATE (s₃.expr_types i).parts := by
        simp only [List.forall_mem_cons, List.not_mem_nil, false_implies, implies_true, and_true]
        have hr₂₃ := he₂.refines.trans he₃.refines
        exact ⟨(hgeneral.trans hr₁).trans (hr₂₃.exprs _ (hid _ (by simp))),
          hr₂.trans (he₃.refines.exprs _ (hid a (by simp))), hr₃⟩
      exact fun i hi => (typeFrom_elements (by decide)).of_refines (hr i hi)
    refine (apply_equal3_outcome hn₃.valid hnodup hid hstart).bind (fun τ hτ _ => ?_) ?_
    · simp only [List.drop_one]
      obtain ⟨he, ha, hb⟩ | ⟨_, _, _, _, _, ha, hb⟩ := hτ
      · rw [he, ha, hb]
        exact ⟨rfl, rfl⟩
      · exact ⟨ha, hb⟩
    · rintro ⟨⟨subtype_expr, subtype_arg1, subtype_arg2⟩, s₄⟩ hn₄ he₄
      refine .ok (.refl hn₄.valid) ?_
      have he := ((he₁.trans he₂).trans he₃).trans he₄
      simpa [Bool.or_assoc, Bool.or_comm, Bool.or_left_comm] using he

theorem progress_binary_operands_outcome {operation : BinaryOperator} (hs : body.Valid s)
    (hnodup : [expr_id, a, b].Nodup) (hid : ∀ i ∈ [expr_id, a, b], body.exprs i ≠ none) :
    body.propagation.Outcome
      (fun τ => Typing.BinaryRule operation (τ.expr expr_id) (τ.expr a) (τ.expr b)) Prod.snd
      (fun r => body.Effect s (r.1.1 || r.1.2.1 || r.1.2.2) r.2) s
      (body.progress_binary_operands expr_id operation a b s) := by
  obtain ⟨_, hab⟩ : _ ∧ a ≠ b := by simpa using hnodup
  cases operation with
  | concatenate => exact progress_concatenate_outcome hs hnodup hid
  | logicalAnd =>
    refine (apply_forced_outcome hs (hid _ (by simp)) template_bool).bind (fun τ hτ _ => hτ) ?_
    rintro ⟨progress_expr, s₁⟩ hn₁ he₁
    refine (apply_forced_outcome hn₁.valid (hid _ (by simp)) template_bool).bind (fun τ hτ _ => hτ) ?_
    rintro ⟨progress_arg1, s₂⟩ hn₂ he₂
    refine (apply_forced_outcome hn₂.valid (hid _ (by simp)) template_bool).bind (fun τ hτ _ => hτ) ?_
    rintro ⟨progress_arg2, s₃⟩ hn₃ he₃
    exact .ok (.refl hn₃.valid) ((he₁.trans he₂).trans he₃)
  | logicalOr =>
    refine (apply_forced_outcome hs (hid _ (by simp)) template_bool).bind (fun τ hτ _ => hτ.left) ?_
    rintro ⟨progress_expr, s₁⟩ hn₁ he₁
    refine (apply_forced_outcome hn₁.valid (hid a (by simp)) template_bool).bind
      (fun τ hτ _ => hτ.right.left) ?_
    rintro ⟨progress_arg1, s₂⟩ hn₂ he₂
    refine (apply_forced_outcome hn₂.valid (hid b (by simp)) template_bool).bind
      (fun τ hτ _ => hτ.right.right) ?_
    rintro ⟨progress_arg2, s₃⟩ hn₃ he₃
    exact .ok (.refl hn₃.valid) ((he₁.trans he₂).trans he₃)
  | bitwiseOr | bitwiseXor | bitwiseAnd | remainder | shiftLeft | shiftRight =>
    exact progress_equal_operands_outcome hs hnodup hid template_integerlike
  | add | subtract | multiply | divide =>
    exact progress_equal_operands_outcome hs hnodup hid template_numberlike
  | equality | inequality =>
    refine (apply_forced_outcome hs (hid _ (by simp)) template_bool).bind (fun τ hτ _ => hτ.left) ?_
    rintro ⟨progress_expr, s₁⟩ hn₁ he₁
    refine (apply_equal2_whole_outcome hn₁.valid hab fun i hi => hid i (.tail _ hi)).bind
      (fun τ hτ _ => hτ.right) ?_
    rintro ⟨⟨progress_arg1, progress_arg2⟩, s₂⟩ hn₂ he₂
    refine .ok (.refl hn₂.valid) ?_
    simpa [Bool.or_assoc] using he₁.trans he₂
  | lessThan | greaterThan | lessThanEqual | greaterThanEqual =>
    refine (apply_forced_outcome hs (hid _ (by simp)) template_bool).bind (fun τ hτ _ => hτ.left) ?_
    rintro ⟨progress_expr, s₁⟩ hn₁ he₁
    refine (apply_template_constraint_outcome hn₁.valid (hid a (by simp)) template_numberlike).bind
      (fun τ hτ _ => hτ.right.left) ?_
    rintro ⟨progress_arg_base, s₂⟩ hn₂ ⟨he₂, _⟩
    refine (apply_equal2_whole_outcome hn₂.valid hab fun i hi => hid i (.tail _ hi)).bind
      (fun τ hτ _ => hτ.right.right) ?_
    rintro ⟨⟨progress_arg1, progress_arg2⟩, s₃⟩ hn₃ he₃
    refine .ok (.refl hn₃.valid) ?_
    simpa [Bool.or_assoc, Bool.or_comm, Bool.or_left_comm] using (he₁.trans he₂).trans he₃

theorem progress_binary_outcome {operation : BinaryOperator} (h : body.Linked) (hs : body.Valid s)
    (he : body.exprs expr_id = some (.binary operation a b)) :
    body.Progress s (body.progress_binary_expr expr_id operation a b s) := by
  have hid : ∀ i ∈ [expr_id, a, b], body.exprs i ≠ none := h.nodes he
  refine (progress_binary_operands_outcome hs (h.distinct _ _ he) hid).bind
    (fun τ hτ _ => hτ.exprs expr_id _ he) ?_
  rintro ⟨⟨progress_expr, progress_arg1, progress_arg2⟩, s₁⟩ hn₁ he₁
  refine finish h hn₁.valid he₁ (by simp [hid]) ?_
  simp only [List.any_cons, List.any_nil, Bool.or_eq_true]
  tauto

theorem progress_unary_operand_outcome {operation : UnaryOperator} (hs : body.Valid s)
    (hne : expr_id ≠ a) (hid : ∀ i ∈ [expr_id, a], body.exprs i ≠ none) :
    body.propagation.Outcome (fun τ => Typing.UnaryRule operation (τ.expr expr_id) (τ.expr a)) Prod.snd
      (fun r => body.Effect s (r.1.1 || r.1.2) r.2) s
      (body.progress_unary_operand expr_id operation a s) := by
  cases operation with
  | logicalNot =>
    refine (apply_forced_outcome hs (hid _ (by simp)) template_bool).bind (fun τ hτ _ => hτ) ?_
    rintro ⟨progress_expr, s₁⟩ hn₁ he₁
    refine (apply_forced_outcome hn₁.valid (hid _ (by simp)) template_bool).bind (fun τ hτ _ => hτ) ?_
    rintro ⟨progress_arg, s₂⟩ hn₂ he₂
    exact .ok (.refl hn₂.valid) (he₁.trans he₂)
  | positive | negative =>
    refine (apply_template_constraint_outcome hs (hid _ (by simp)) template_numberlike).bind
      (fun τ hτ _ => hτ.left) ?_
    rintro ⟨progress_base, s₁⟩ hn₁ ⟨he₁, _⟩
    refine (apply_equal2_whole_outcome hn₁.valid hne hid).bind (fun τ hτ _ => hτ.right.symm) ?_
    rintro ⟨⟨progress_expr, progress_arg⟩, s₂⟩ hn₂ he₂
    refine .ok (.refl hn₂.valid) ?_
    simpa [Bool.or_assoc, Bool.or_comm, Bool.or_left_comm] using he₁.trans he₂
  | bitwiseNot =>
    refine (apply_template_constraint_outcome hs (hid _ (by simp)) template_integerlike).bind
      (fun τ hτ _ => hτ.left) ?_
    rintro ⟨progress_base, s₁⟩ hn₁ ⟨he₁, _⟩
    refine (apply_equal2_whole_outcome hn₁.valid hne hid).bind (fun τ hτ _ => hτ.right.symm) ?_
    rintro ⟨⟨progress_expr, progress_arg⟩, s₂⟩ hn₂ he₂
    refine .ok (.refl hn₂.valid) ?_
    simpa [Bool.or_assoc, Bool.or_comm, Bool.or_left_comm] using he₁.trans he₂

theorem progress_unary_outcome {operation : UnaryOperator} (h : body.Linked) (hs : body.Valid s)
    (he : body.exprs expr_id = some (.unary operation a)) :
    body.Progress s (body.progress_unary_expr expr_id operation a s) := by
  have hid : ∀ i ∈ [expr_id, a], body.exprs i ≠ none := h.nodes he
  have hne : expr_id ≠ a := by simpa [TypedExpression.children] using h.distinct _ _ he
  refine (progress_unary_operand_outcome hs hne hid).bind (fun τ hτ _ => hτ.exprs expr_id _ he) ?_
  rintro ⟨⟨progress_expr, progress_arg⟩, s₁⟩ hn₁ he₁
  refine finish h hn₁.valid he₁ (by simp [hid]) ?_
  simp only [List.any_cons, List.any_nil, Bool.or_false]
  exact fun h => h

theorem progress_indexing_outcome (h : body.Linked) (hs : body.Valid s)
    (he : body.exprs expr_id = some (.indexing a b)) :
    body.Progress s (body.progress_indexing_expr expr_id a b s) := by
  have hobeys := fun (τ : Typing) (hτ : τ.WellTyped body) => hτ.exprs expr_id _ he
  have hnodup : [expr_id, a, b].Nodup := h.distinct _ _ he
  have hid : ∀ i ∈ [expr_id, a, b], body.exprs i ≠ none := h.nodes he
  refine (apply_template_constraint_outcome hs (hid a (by simp)) template_arraylike).bind
    (fun τ hτ _ => (hobeys τ hτ).left) ?_
  rintro ⟨progress_subject_base, s₁⟩ hn₁ ⟨he₁, hr₁⟩
  refine (apply_template_constraint_outcome hn₁.valid (hid b (by simp)) template_integerlike).bind
    (fun τ hτ _ => (hobeys τ hτ).right.left) ?_
  rintro ⟨progress_index, s₂⟩ hn₂ ⟨he₂, _⟩
  have hsubject := hr₁.trans (hn₂.refines.exprs a (hid a (by simp)))
  refine (apply_equal2_outcome (m := 0) hn₂.valid (by simp_all) (by simp [hid])
    (hn₂.valid.exprs expr_id).tree ((typeFrom_elements (by decide)).of_refines hsubject)).bind
    (fun τ hτ _ => by simpa using (hobeys τ hτ).right.right) ?_
  rintro ⟨⟨progress_expr, progress_subject⟩, s₃⟩ hn₃ he₃
  refine finish h hn₃.valid ((he₁.trans he₂).trans he₃) (by simp [hid]) ?_
  simp only [List.any_cons, List.any_nil, Bool.or_eq_true]
  tauto

theorem progress_slice_outcome (hs : body.Valid s) (hne : expr_id ≠ a)
    (hid : ∀ i ∈ [expr_id, a], body.exprs i ≠ none)
    (hsubject : signature.Refines ARRAYLIKE_TEMPLATE (s.expr_types a).parts) :
    body.propagation.Outcome (fun τ => Typing.SliceRule (τ.expr expr_id) (τ.expr a)) Prod.snd
      (fun r => body.Effect s (r.1.1 || r.1.2) r.2) s (body.progress_slice expr_id a s) := by
  obtain ⟨is_str, is_not_str, hsub, hstr⟩ := certainly_string hs a
  rw [progress_slice, hsub]
  simp only [Except.ok_bind]
  cases is_str with
  | true =>
    simp only [if_true]
    refine (apply_forced_outcome hs (hid _ (by simp)) template_string).bind (fun τ hτ hadmits => ?_) ?_
    · obtain ⟨he, _⟩ | ⟨_, ha, _⟩ := hτ
      · exact he
      · exact absurd ((hstr τ hadmits).left rfl) ha
    · rintro ⟨progress_expr, s₁⟩ hn₁ he₁
      refine .ok (.refl hn₁.valid) ?_
      simpa using he₁
  | false =>
    simp only [Bool.false_eq_true, if_false]
    obtain ⟨template, htemplate, ht, hgeneral, hfits⟩ : ∃ template,
        (if is_not_str = true then SLICE_TEMPLATE else ARRAYLIKE_TEMPLATE) = template ∧
        Template body.heap template ∧ Typing.Fits ARRAYLIKE_TEMPLATE template ∧
        ∀ τ : Typing, Typing.SliceRule (τ.expr expr_id) (τ.expr a) → body.Admits s τ →
          Typing.Fits template (τ.expr expr_id) := by
      cases is_not_str with
      | false =>
        refine ⟨_, rfl, template_arraylike, .refl _, fun τ hτ _ => ?_⟩
        obtain ⟨he, _⟩ | ⟨he, _⟩ := hτ
        · exact he ▸ fits_arraylike_string
        · exact fits_arraylike_of_slice he
      | true =>
        refine ⟨_, rfl, template_slice, fits_arraylike_of_slice (.refl _), fun τ hτ hadmits => ?_⟩
        obtain ⟨_, ha⟩ | ⟨he, _⟩ := hτ
        · exact absurd (ha ▸ rfl) ((hstr τ hadmits).right rfl)
        · exact he
    rw [htemplate]
    refine (apply_template_constraint_outcome hs (hid _ (by simp)) ht).bind hfits ?_
    rintro ⟨progress_expr_base, s₁⟩ hn₁ ⟨he₁, hr₁⟩
    have hsubject₁ := hsubject.trans (hn₁.refines.exprs a (hid a (by simp)))
    refine (apply_equal2_outcome (m := 1) (n := 1) hn₁.valid hne hid
      ((typeFrom_elements (by decide)).of_refines (hgeneral.trans hr₁))
      ((typeFrom_elements (by decide)).of_refines hsubject₁)).bind (fun τ hτ _ => ?_) ?_
    · simp only [List.drop_one]
      obtain ⟨he, ha⟩ | ⟨_, _, ha⟩ := hτ
      · rw [he, ha]
      · exact ha.symm
    · rintro ⟨⟨progress_expr, progress_subject⟩, s₂⟩ hn₂ he₂
      refine .ok (.refl hn₂.valid) ?_
      simpa [Bool.or_assoc] using he₁.trans he₂

theorem progress_slicing_outcome {c : Nat} (h : body.Linked) (hs : body.Valid s)
    (he : body.exprs expr_id = some (.slicing a b c)) :
    body.Progress s (body.progress_slicing_expr expr_id a b c s) := by
  have hobeys := fun (τ : Typing) (hτ : τ.WellTyped body) => hτ.exprs expr_id _ he
  have hnodup : [expr_id, a, b, c].Nodup := h.distinct _ _ he
  have hid : ∀ i ∈ [expr_id, a, b, c], body.exprs i ≠ none := h.nodes he
  refine (apply_template_constraint_outcome hs (hid a (by simp)) template_arraylike).bind
    (fun τ hτ _ => (hobeys τ hτ).left) ?_
  rintro ⟨progress_subject_base, s₁⟩ hn₁ ⟨he₁, hr₁⟩
  refine (apply_template_constraint_outcome hn₁.valid (hid b (by simp)) template_integerlike).bind
    (fun τ hτ _ => (hobeys τ hτ).right.left) ?_
  rintro ⟨progress_idx_base, s₂⟩ hn₂ ⟨he₂, _⟩
  refine (apply_equal2_whole_outcome hn₂.valid (by simp_all) (by simp [hid])).bind
    (fun τ hτ _ => (hobeys τ hτ).right.right.left) ?_
  rintro ⟨⟨progress_from, progress_to⟩, s₃⟩ hn₃ he₃
  have hsubject := hr₁.trans ((he₂.refines.trans he₃.refines).exprs a (hid a (by simp)))
  refine (progress_slice_outcome hn₃.valid (by simp_all) (by simp [hid]) hsubject).bind
    (fun τ hτ _ => (hobeys τ hτ).right.right.right) ?_
  rintro ⟨⟨progress_expr, progress_subject⟩, s₄⟩ hn₄ he₄
  refine finish h hn₄.valid (((he₁.trans he₂).trans he₃).trans he₄) (by simp [hid]) ?_
  simp only [List.any_cons, List.any_nil, Bool.or_eq_true]
  tauto

theorem progress_plain_literal_outcome {literal : PlainLiteral} (h : body.Linked) (hs : body.Valid s)
    (he : body.exprs expr_id = some (.plain_literal literal)) :
    body.Progress s (body.progress_plain_literal expr_id literal s) := by
  have hid : body.exprs expr_id ≠ none := by simp [he]
  have hliteral : body.propagation.Outcome (fun τ => Typing.LiteralRule literal (τ.expr expr_id))
      Prod.snd (fun r => body.Effect s r.1 r.2) s (body.apply_literal_constraint expr_id literal s) := by
    cases literal with
    | null =>
      exact (apply_template_constraint_outcome hs hid template_message).mono (fun _ h _ => h)
        fun _ _ h => h.left
    | integer =>
      exact (apply_template_constraint_outcome hs hid template_integerlike).mono (fun _ h _ => h)
        fun _ _ h => h.left
    | true | false => exact apply_forced_outcome hs hid template_bool
    | character    => exact apply_forced_outcome hs hid template_character
    | string       => exact apply_forced_outcome hs hid template_string
  refine hliteral.bind (fun τ hτ _ => hτ.exprs expr_id _ he) ?_
  rintro ⟨progress_expr, s₁⟩ hn₁ he₁
  refine finish h hn₁.valid he₁ (fun _ h => absurd h List.not_mem_nil) ?_
  simp only [List.any_nil, Bool.or_false]
  exact fun h => h

theorem any_zip_fst {progress : List Bool} {elements : List Nat}
    (h : (progress.zip elements).any Prod.fst = true) : (progress.any fun p => p) = true := by
  rw [List.any_eq_true] at h ⊢
  obtain ⟨⟨p, i⟩, hm, hp⟩ := h
  exact ⟨p, (List.of_mem_zip hm).left, hp⟩

theorem progress_array_literal_outcome {elements : List Nat} (h : body.Linked) (hs : body.Valid s)
    (he : body.exprs expr_id = some (.array_literal elements)) :
    body.Progress s (body.progress_array_literal expr_id elements s) := by
  have hobeys := fun (τ : Typing) (hτ : τ.WellTyped body) => hτ.exprs expr_id _ he
  have hnodup : (expr_id :: elements).Nodup := h.distinct _ _ he
  have hid : ∀ i ∈ expr_id :: elements, body.exprs i ≠ none := h.nodes he
  obtain ⟨hnot, hnodup⟩ := List.nodup_cons.mp hnodup
  obtain ⟨hexpr, hids⟩ := List.forall_mem_cons.mp hid
  refine (apply_equal_n_outcome hs hnodup hids).bind (fun τ hτ _ i hi j hj => ?_) ?_
  · exact ((hobeys τ hτ).right i hi).trans ((hobeys τ hτ).right j hj).symm
  rintro ⟨progress, s₁⟩ hn₁ he₁
  have hqueue := Enqueues.queue_args (s := s₁) (l := progress.zip elements) fun arg harg =>
    hids arg.2 (List.of_mem_zip harg).right
  have hn₂ := hqueue.narrows (R := (·.WellTyped body)) hn₁.valid
  have he₂ := he₁.enqueues hqueue any_zip_fst
  refine .after hn₂ ?_
  refine (apply_template_constraint_outcome hn₂.valid hexpr template_array).bind
    (fun τ hτ _ => (hobeys τ hτ).left) ?_
  rintro ⟨progress_expr, s₃⟩ hn₃ ⟨he₃, hr₃⟩
  cases elements with
  | nil =>
    refine finish h hn₃.valid (he₂.trans he₃) (fun _ h => absurd h List.not_mem_nil) ?_
    simp only [List.any_nil, Bool.or_eq_true]
    tauto
  | cons first_arg_id elements =>
    refine (apply_equal2_outcome (m := 1) (n := 0) hn₃.valid (by simp_all)
      (by simp [hexpr, hids first_arg_id]) ((typeFrom_elements (by decide)).of_refines hr₃)
      (hn₃.valid.exprs first_arg_id).tree).bind (fun τ hτ _ => ?_) ?_
    · rw [List.drop_one, List.drop_zero]
      exact ((hobeys τ hτ).right first_arg_id (by simp)).symm
    rintro ⟨⟨inner_expr_progress, arg_progress⟩, s₄⟩ hn₄ he₄
    have hrequeue : body.Enqueues s₄ arg_progress
        (if arg_progress = true then queue_expr expr_id s₄ else s₄) := by
      cases arg_progress with
      | false => exact .refl s₄
      | true  => exact .queue_expr hexpr
    have hn₅ := hrequeue.narrows (R := (·.WellTyped body)) hn₄.valid
    have he₅ := ((he₂.trans he₃).trans he₄).enqueues hrequeue (by simp only [Bool.or_eq_true]; tauto)
    refine .after hn₅ (finish h hn₅.valid he₅ (fun _ h => absurd h List.not_mem_nil) ?_)
    simp only [List.any_nil, Bool.or_eq_true]
    tauto

theorem progress_cast_outcome {to_type : ParserType} (h : body.Linked) (hs : body.Valid s)
    (he : body.exprs expr_id = some (.cast to_type a)) :
    body.Progress s (body.progress_cast_expr expr_id to_type a s) := by
  have hobeys := fun (τ : Typing) (hτ : τ.WellTyped body) => hτ.exprs expr_id _ he
  have hid : ∀ i ∈ [expr_id, a], body.exprs i ≠ none := h.nodes he
  obtain ⟨t, ht, hproper⟩ := determine_known h.poly_vars (h.casts _ _ _ he)
  have ht : body.determine_inference_type to_type = some t := ht
  rw [progress_cast_expr, ht]
  simp only [expect, Except.ok_bind]
  refine (apply_template_constraint_outcome hs (hid _ (by simp)) hproper.isTemplate).bind
    (fun τ hτ _ => ?_) ?_
  · obtain ⟨t', ht', hfits, _⟩ := hobeys τ hτ
    cases ht.symm.trans ht'
    exact hfits
  rintro ⟨expr_progress, s₁⟩ hn₁ ⟨he₁, _⟩
  have hqueue : body.Enqueues s₁ expr_progress
      (if expr_progress = true then body.queue_expr_parent expr_id s₁ else s₁) := by
    cases expr_progress with
    | false => exact .refl s₁
    | true  => exact .queue_expr_parent h
  have hn₂ := hqueue.narrows (R := (·.WellTyped body)) hn₁.valid
  have he₂ := he₁.enqueues hqueue fun h => h
  refine .after hn₂ ?_
  simp only
  generalize (if expr_progress = true then body.queue_expr_parent expr_id s₁ else s₁) = s₂ at hn₂ he₂
  have hok : body.propagation.Outcome (·.WellTyped body) id (body.Steady s) s₂ (.ok s₂) :=
    .ok (.refl hn₂.valid) he₂.steady
  split
  case isTrue => exact hok
  case isFalse hdone =>
    split
    case isTrue => exact hok
    case isFalse hprimitive =>
      split
      case isTrue => exact hok
      case isFalse hne =>
        -- both types are those of every typing, which does not obey the rule
        refine .conflict (.inl ⟨_, rfl⟩) fun τ hτ hadmits => ?_
        simp only [Bool.or_eq_true, Bool.not_eq_true', not_or, Bool.not_eq_false] at hdone
        obtain ⟨_, _, _, hcast⟩ := hobeys τ hτ
        rw [hadmits.expr_eq hn₂.valid hdone.left, hadmits.expr_eq hn₂.valid hdone.right] at hcast
        obtain ⟨hexpr, hsubject⟩ | heq := hcast
        · exact hprimitive (by rw [hexpr, hsubject]; rfl)
        · exact hne heq

section Variables

variable {var_id linked_id : VariableId} {data linked : VarData}

-- What may happen to the data of a variable.
structure VarNarrows (body : ProcedureBody) (data data' : VarData) : Prop where
  linked_var : data'.linked_var = data.linked_var
  refines    : signature.Refines data.var_type.parts data'.var_type.parts
  proper     : data'.var_type.Proper body.heap
  used_at    : ∀ id ∈ data'.used_at, id ∈ data.used_at ∨ body.exprs id ≠ none

-- The types of variables are refined, and variables are used.
theorem narrows_vars {var_types : VariableId → Option VarData} (hs : body.Valid s)
    (hv : ∀ v, Option.Rel (VarNarrows body) (s.var_types v) (var_types v))
    (ha : ∀ τ, R τ → body.Admits s τ → ∀ v d, var_types v = some d →
      signature.Refines d.var_type.parts (τ.var v)) :
    body.propagation.Narrows R s { s with var_types } := by
  have hof : ∀ v d', var_types v = some d' → ∃ d, s.var_types v = some d ∧ VarNarrows body d d' := by
    intro v d' hd'
    have hrel := hv v
    rw [hd'] at hrel
    generalize s.var_types v = x at hrel
    cases hrel with
    | some h => exact ⟨_, rfl, h⟩
  have hto : ∀ v d, s.var_types v = some d → ∃ d', var_types v = some d' ∧ VarNarrows body d d' := by
    intro v d hd
    have hrel := hv v
    rw [hd] at hrel
    generalize var_types v = x at hrel
    cases hrel with
    | some h => exact ⟨_, rfl, h⟩
  refine ⟨{ hs with vars := ?_, declared := ?_, ports := ?_, used := ?_ }, ⟨fun _ _ => .refl _, ?_⟩,
    fun τ hτ hadmits => ⟨hadmits.exprs, ha τ hτ hadmits, hadmits.data⟩⟩
  · intro v d' hd'
    obtain ⟨_, _, h⟩ := hof v d' hd'
    exact h.proper
  · intro v
    rw [← hs.declared v]
    have hrel := hv v
    generalize s.var_types v = x at hrel
    simp only
    generalize var_types v = y at hrel
    cases hrel with
    | none   => rfl
    | some h => exact congrArg some h.linked_var
  · intro v d' linked_id hd' hl
    obtain ⟨d, hd, h⟩ := hof v d' hd'
    obtain ⟨hne, hport, linked, hlinked, hport'⟩ := hs.ports v d linked_id hd (h.linked_var ▸ hl)
    obtain ⟨linked', hlinked', h'⟩ := hto linked_id linked hlinked
    exact ⟨hne, hport.of_refines h.refines, linked', hlinked', hport'.of_refines h'.refines⟩
  · intro v d' hd' id hid
    obtain ⟨d, hd, h⟩ := hof v d' hd'
    exact (h.used_at id hid).elim (hs.used v d hd id) fun h => h
  · intro v d hd
    obtain ⟨d', hd', h⟩ := hto v d hd
    exact ⟨d', hd', h.refines⟩

theorem VarNarrows.refl (hs : body.Valid s) (v : VariableId) :
    Option.Rel (VarNarrows body) (s.var_types v) (s.var_types v) := by
  cases hd : s.var_types v with
  | none      => exact .none
  | some data => exact .some ⟨rfl, .refl _, hs.vars v data hd, fun _ h => .inl h⟩

-- A variable gets another type.
theorem narrows_var {t : InferenceType} (hs : body.Valid s) (hd : s.var_types var_id = some data)
    (ht : t.Proper body.heap) (hr : signature.Refines data.var_type.parts t.parts)
    (ha : ∀ τ, R τ → body.Admits s τ → signature.Refines t.parts (τ.var var_id)) :
    body.propagation.Narrows R s { s with
      var_types := Function.update s.var_types var_id (some { data with var_type := t }) } := by
  refine narrows_vars hs (fun v => ?_) (fun τ hτ hadmits v d hv => ?_)
  case refine_1 =>
    by_cases hi : v = var_id
    case pos =>
      subst hi
      rw [Function.update_self, hd]
      exact .some ⟨rfl, hr, ht, fun _ h => .inl h⟩
    case neg =>
      rw [Function.update_of_ne hi]
      exact VarNarrows.refl hs v
  case refine_2 =>
    by_cases hi : v = var_id
    case pos =>
      subst hi
      rw [Function.update_self] at hv
      cases hv
      exact ha τ hτ hadmits
    case neg =>
      rw [Function.update_of_ne hi] at hv
      exact hadmits.vars v d hv

theorem progresses_of_var_ne (hr : body.Refines s s')
    (hd : s.var_types var_id = some data) (hd' : s'.var_types var_id = some linked)
    (hne : linked.var_type.parts ≠ data.var_type.parts) : body.propagation.Progresses s s' := by
  intro hr'
  obtain ⟨_, hl, h⟩ := hr.vars var_id data hd
  cases hl.symm.trans hd'
  obtain ⟨_, hl', h'⟩ := hr'.vars var_id linked hd'
  cases hl'.symm.trans hd
  exact hne (h'.antisymm h)

-- The other end of a channel gets the same interior type.
theorem progress_linked_outcome (hs : body.Valid s) (hd : s.var_types var_id = some data)
    (hl : data.linked_var = some linked_id) :
    body.propagation.Outcome (fun τ => (τ.var var_id).tail = (τ.var linked_id).tail) id
      (fun s' => ∃ made, body.Effect s made s') s (body.progress_linked_var data.var_type linked_id s) := by
  obtain ⟨hne, hport, linked, hlinked, hport'⟩ := hs.ports var_id data linked_id hd hl
  have hv := hs.vars var_id data hd
  have hv' := hs.vars linked_id linked hlinked
  rw [progress_linked_var, hlinked]
  simp only [expect, Except.ok_bind]
  obtain ⟨r, t, hrun, hmeet, ht, hparts⟩ | ⟨t, hrun, hnone⟩ := hv'.infer_single hport' hport
    hv.unmarked_drop hv.known_drop false
  case inl =>
    obtain ⟨hr, _⟩ := (hmeet r).mpr (.refl r)
    have hn := narrows_var (R := fun τ => (τ.var var_id).tail = (τ.var linked_id).tail) hs hlinked ht
      (hparts ▸ refines_take_append hr) fun τ hτ hadmits => by
        have hdata := (hport.refines (hadmits.vars var_id data hd)).right
        have hlink := hadmits.vars linked_id linked hlinked
        rw [List.drop_one (l := τ.var var_id), hτ, ← List.drop_one] at hdata
        exact hparts ▸ hport'.refines_append hlink
          ((hmeet _).mp ⟨(hport'.refines hlink).right, hdata⟩)
    simp only [hrun, Except.ok_bind]
    by_cases hsame : t.parts = linked.var_type.parts
    case pos =>
      simp only [hsame, ne_eq, not_true_eq_false, if_false]
      exact .ok hn ⟨false, hn.refines, fun h => Bool.noConfusion h, fun _ => rfl⟩
    case neg =>
      simp only [ne_eq, hsame, not_false_eq_true, if_true]
      have hqueue : body.Enqueues { s with
          var_types := Function.update s.var_types linked_id (some { linked with var_type := t }) } true
          (queue_exprs linked.used_at { s with
            var_types := Function.update s.var_types linked_id (some { linked with var_type := t }) }) :=
        .queue_exprs (hs.used linked_id linked hlinked)
      have he : body.Effect s true { s with
          var_types := Function.update s.var_types linked_id (some { linked with var_type := t }) } :=
        ⟨hn.refines, fun _ => progresses_of_var_ne hn.refines hlinked (Function.update_self ..) hsame,
          fun h => Bool.noConfusion h⟩
      exact .ok (hn.trans (hqueue.narrows hn.valid)) ⟨true, he.enqueues hqueue fun h => h⟩
  case inr =>
    simp only [hrun, Except.ok_bind]
    refine .conflict (.inl ⟨_, rfl⟩) fun τ hτ hadmits => ?_
    have hdata := (hport.refines (hadmits.vars var_id data hd)).right
    rw [List.drop_one (l := τ.var var_id), hτ, ← List.drop_one] at hdata
    cases (hnone _ (hport'.refines (hadmits.vars linked_id linked hlinked)).right hdata).left

theorem progress_var_uses_outcome (hs : body.Valid s) (hd : s.var_types var_id = some data) :
    body.propagation.Outcome (fun τ => ∀ linked_id, data.linked_var = some linked_id →
        (τ.var var_id).tail = (τ.var linked_id).tail) id
      (fun s' => ∃ made, body.Effect (queue_exprs (data.used_at.filter (· ≠ expr_id)) s) made s') s
      (body.progress_var_uses expr_id data data.var_type s) := by
  have hqueue : body.Enqueues s true (queue_exprs (data.used_at.filter (· ≠ expr_id)) s) :=
    .queue_exprs fun i hi => hs.used var_id data hd i (List.mem_filter.mp hi).left
  have hn := hqueue.narrows (R := fun τ => ∀ linked_id, data.linked_var = some linked_id →
    (τ.var var_id).tail = (τ.var linked_id).tail) hs
  rw [progress_var_uses]
  generalize queue_exprs (data.used_at.filter (· ≠ expr_id)) s = s₁ at hqueue hn
  refine .after hn ?_
  cases hl : data.linked_var with
  | none => exact .ok (.refl hn.valid) ⟨false, .refl s₁⟩
  | some linked_id =>
    have hd₁ : s₁.var_types var_id = some data := by
      obtain ⟨_, he, _⟩ := hqueue
      subst he
      exact hd
    exact (progress_linked_outcome hn.valid hd₁ hl).mono (fun τ hτ _ => hτ linked_id rfl) fun _ _ h => h

-- A variable that is declared has data in every state, with the other end of its channel.
theorem Valid.exists_data (h : body.Linked) (hs : body.Valid s) (hl : body.locals var_id ≠ none) :
    ∃ data initial, s.var_types var_id = some data ∧ body.initial_var_data var_id = some initial ∧
      data.linked_var = initial.linked_var := by
  obtain ⟨declaration, hl⟩ := Option.ne_none_iff_exists'.mp hl
  obtain ⟨t, ht, _⟩ := determine_known h.poly_vars (h.locals var_id declaration hl)
  have ht : body.determine_inference_type declaration.parser_type = some t := ht
  have hinitial : body.initial_var_data var_id = some ⟨t, [], declaration.linked_var⟩ := by
    simp [initial_var_data, hl, ht]
  have hdeclared := hs.declared var_id
  rw [hinitial, Option.map_some, Option.map_eq_some_iff] at hdeclared
  obtain ⟨data, hd, hlink⟩ := hdeclared
  exact ⟨data, _, hd, hinitial, hlink⟩

theorem progress_variable_outcome (h : body.Linked) (hs : body.Valid s)
    (he : body.exprs expr_id = some (.variable var_id)) :
    body.Progress s (body.progress_variable_expr expr_id var_id s) := by
  have hid : body.exprs expr_id ≠ none := by simp [he]
  obtain ⟨declaration, hlocal⟩ := h.declared expr_id var_id he
  have hlocal' : body.locals var_id ≠ none := by simp [hlocal]
  obtain ⟨data, initial, hd, hinitial, hlink⟩ := hs.exists_data h hlocal'
  have hv := hs.vars var_id data hd
  have hx := hs.exprs expr_id
  have hequal : ∀ τ : Typing, τ.WellTyped body → τ.expr expr_id = τ.var var_id :=
    fun τ hτ => hτ.exprs expr_id _ he
  rw [progress_variable_expr, hd]
  simp only [expect, Except.ok_bind]
  obtain ⟨r, res, t, t', hrun, hres, hmeet, ht, hparts, ht', hparts', hlhs, hrhs⟩ | ⟨t, t', hrun, hdis⟩ :=
    hv.infer_both hx (m := 0) (n := 0) hv.tree hx.tree
  case inr =>
    simp only [hrun, Except.ok_bind, if_true]
    refine .conflict (.inl ⟨_, rfl⟩) fun τ hτ hadmits => hdis (τ.var var_id) ⟨?_, ?_⟩
    · exact hadmits.vars var_id data hd
    · exact hequal τ hτ ▸ hadmits.exprs expr_id
  case inl =>
    rw [List.take_zero, List.nil_append] at hparts hparts'
    obtain ⟨hr, hr'⟩ := (hmeet r).mpr (.refl r)
    have hadmit : ∀ τ : Typing, τ.WellTyped body → body.Admits s τ →
        signature.Refines r (τ.var var_id) := fun τ hτ hadmits =>
      (hmeet _).mp ⟨hadmits.vars var_id data hd, hequal τ hτ ▸ hadmits.exprs expr_id⟩
    have hn₁ := narrows_expr (R := (·.WellTyped body)) hs ht' (hparts' ▸ hr') fun τ hτ hadmits =>
      hparts' ▸ (hequal τ hτ).symm ▸ hadmit τ hτ hadmits
    have hn₂ := narrows_var (R := (·.WellTyped body)) hn₁.valid hd ht (hparts ▸ hr)
      fun τ hτ hadmits => by
        have hexpr := hadmits.exprs expr_id
        simp only [Function.update_self] at hexpr
        rw [hparts', hequal τ hτ] at hexpr
        exact hparts ▸ hexpr
    have hn := hn₁.trans hn₂
    have he₂ : body.Effect s (res.modified_lhs || res.modified_rhs) { s with
        expr_types := Function.update s.expr_types expr_id t'
        var_types  := Function.update s.var_types var_id (some { data with var_type := t }) } := by
      refine ⟨hn.refines, fun hp => ?_, fun _ => rfl⟩
      rw [hlhs, hrhs, Bool.or_eq_true, decide_eq_true_eq, decide_eq_true_eq] at hp
      obtain hp | hp := hp
      · exact progresses_of_var_ne hn.refines hd (Function.update_self ..) hp
      · exact progresses_of_ne hid hn.refines (by simpa using hp)
    simp only [hrun, Except.ok_bind, if_neg hres]
    refine .after hn ?_
    cases hleft : res.modified_lhs with
    | false =>
      simp only [Bool.false_eq_true, if_false]
      refine finish h hn.valid he₂ (fun _ h => absurd h List.not_mem_nil) ?_
      rw [hleft, List.any_nil, Bool.or_false, Bool.false_or]
      exact fun h => h
    | true =>
      simp only [if_true]
      have hd₂ : Function.update s.var_types var_id (some { data with var_type := t }) var_id =
        some { data with var_type := t } := Function.update_self ..
      refine (progress_var_uses_outcome hn.valid hd₂).bind (fun τ hτ _ linked_id hl => ?_) ?_
      · exact hτ.linked var_id initial linked_id hinitial (hlink ▸ hl)
      · rintro s₃ hn₃ ⟨made, he₃⟩
        have hused : ∀ i ∈ data.used_at.filter (· ≠ expr_id), body.exprs i ≠ none :=
          fun i hi => hs.used var_id data hd i (List.mem_filter.mp hi).left
        have hqueue := he₂.enqueues (.queue_exprs hused) (by simp [hleft])
        refine finish h hn₃.valid (hqueue.trans he₃) (fun _ h => absurd h List.not_mem_nil) ?_
        simp [hleft]

end Variables

end Expressions

end Reowolf.Types.ProcedureBody
