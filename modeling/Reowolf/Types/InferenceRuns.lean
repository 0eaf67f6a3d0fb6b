import Mathlib.Algebra.GroupWithZero.Nat
import Mathlib.Algebra.Order.BigOperators.Group.List
import Mathlib.Algebra.Order.Group.Nat
import Reowolf.Types.PolymorphicOutcomes

namespace Reowolf.Types

open InferenceTypePart (signature)
open InferenceType

-- How much is known with a part.
def InferenceTypePart.rank : InferenceTypePart → Nat
  | .unknown => 1
  | .numberLike | .arrayLike | .portLike => 2
  | .integerLike => 3
  | _ => 4

theorem InferenceTypePart.weighs_rank : signature.Weighs InferenceTypePart.rank where
  hole        := rfl
  others p hp := by
    cases p <;> first | exact absurd rfl hp | simp [rank]
  narrows p q h := by
    rw [show signature.narrows p q = (p.may_be_inferred_from q = true) from rfl,
      InferenceTypePart.may_be_inferred_from_iff] at h
    obtain ⟨hp, hq⟩ | ⟨hp, hq | hq⟩ | ⟨hp, hq⟩ | ⟨hp, hq⟩ := h <;> subst hp <;> cases q <;>
      simp [rank, is_concrete_integer, is_concrete_arraylike, is_concrete_port] at hq ⊢

namespace ProcedureBody

variable {body : ProcedureBody} {s s' : BodyTyping} {expr_id : Nat}

section Start

variable {var_id : VariableId} {data : VarData}

theorem proper_leaf {heap : Heap} {t : InferenceType} {p : InferenceTypePart} (ht : t.parts = [p])
    (ha : signature.arity p = 0) (hu : signature.marker p = false)
    (hk : ∀ id num, p ≠ .«instance» id num) (hd : t.is_done = p.is_concrete) : t.Proper heap where
  tree     := ht ▸ .singleton ha
  done     := by simp [ht, hd]
  known    := by
    rw [ht]
    exact List.forall_mem_singleton.mpr (known_of_ne hk)
  unmarked := by
    rw [ht]
    exact List.forall_mem_singleton.mpr hu

theorem initial_expr_type_proper {t : InferenceType} (h : body.Linked)
    (ht : body.initial_expr_type expr_id = some t) : t.Proper body.heap := by
  have hunknown : (⟨false, false, [.unknown]⟩ : InferenceType).Proper body.heap :=
    proper_leaf rfl rfl rfl (by simp) rfl
  have hbool : (⟨false, true, [.bool]⟩ : InferenceType).Proper body.heap :=
    proper_leaf rfl rfl rfl (by simp) rfl
  rw [initial_expr_type] at ht
  cases hp : body.parent expr_id with
  | expression_stmt =>
    rw [hp] at ht
    cases ht
    exact hunknown
  | expression parent_id idx_in_parent =>
    simp only [hp] at ht
    split at ht <;> split at ht <;> cases ht <;> first | exact hbool | exact hunknown
  | test =>
    rw [hp] at ht
    cases ht
    exact hbool
  | «return» =>
    simp only [hp] at ht
    obtain ⟨elements, hreturn, ht⟩ := Option.bind_eq_some_iff.mp ht
    obtain ⟨t', ht', hproper⟩ := determine_known h.poly_vars (h.returned elements hreturn)
    cases ht.symm.trans ht'
    exact hproper
  | new =>
    rw [hp] at ht
    cases ht
    exact proper_leaf rfl rfl rfl (by simp) rfl

-- A variable that is declared, with its type.
theorem initial_var_data_spec (h : body.Linked) (hd : body.initial_var_data var_id = some data) :
    ∃ declaration, body.locals var_id = some declaration ∧
      body.determine_inference_type declaration.parser_type = some data.var_type ∧
      data.used_at = [] ∧ data.linked_var = declaration.linked_var ∧ data.var_type.Proper body.heap := by
  obtain ⟨declaration, hl, hd⟩ := Option.bind_eq_some_iff.mp hd
  obtain ⟨t, ht, hd⟩ := Option.bind_eq_some_iff.mp hd
  obtain ⟨t', ht', hproper⟩ := determine_known h.poly_vars (h.locals var_id declaration hl)
  cases ht.symm.trans ht'
  cases hd
  exact ⟨declaration, hl, ht, rfl, rfl, hproper⟩

-- The type of a port has one argument.
theorem typeFrom_port {elements : ParserType} {port : Parser.ParserTypeVariant} {t : InferenceType}
    (hp : port ∈ [Parser.ParserTypeVariant.input, .output])
    (ht : body.determine_inference_type (port :: elements) = some t) (hproper : t.Proper body.heap) :
    TypeFrom t.parts 1 := by
  obtain ⟨determined, hd, ht⟩ := Option.bind_eq_some_iff.mp ht
  obtain ⟨first, hfirst, hd⟩ := Option.bind_eq_some_iff.mp hd
  obtain ⟨rest, hrest, hd⟩ := Option.bind_eq_some_iff.mp hd
  have htree := hproper.tree
  cases hd
  cases ht
  simp only [List.mem_cons, List.not_mem_nil, or_false] at hp
  obtain hp | hp := hp
  all_goals
    subst hp
    cases hfirst
    exact ⟨_, rest.parts, rfl, by simp, PrefixTerms.Forest.cons_iff.mp htree⟩

-- The types before the visit.
theorem Starts.valid (h : body.Linked) (hs : body.Starts s) : body.Valid s where
  exprs id := initial_expr_type_proper h (hs.exprs id)
  vars var_id data hd := by
    rw [hs.vars] at hd
    obtain ⟨_, _, _, _, _, hproper⟩ := initial_var_data_spec h hd
    exact hproper
  declared var_id := by rw [hs.vars]
  ports var_id data linked_id hd hl := by
    rw [hs.vars] at hd
    obtain ⟨declaration, hlocal, ht, _, hlink, hproper⟩ := initial_var_data_spec h hd
    obtain ⟨hne, linked, port, elements, port', elements', hlinked, htype, htype', hport, hport'⟩ :=
      h.channels var_id declaration linked_id hlocal (hlink ▸ hl)
    obtain ⟨t', ht', hproper'⟩ := determine_known h.poly_vars (h.locals linked_id linked hlinked)
    have ht' : body.determine_inference_type linked.parser_type = some t' := ht'
    refine ⟨hne, typeFrom_port hport (htype ▸ ht) hproper, ⟨t', [], linked.linked_var⟩, ?_,
      typeFrom_port hport' (htype' ▸ ht') hproper'⟩
    rw [hs.vars, initial_var_data, hlinked]
    simp [ht']
  used var_id data hd id hid := by
    rw [hs.vars] at hd
    obtain ⟨_, _, _, hused, _⟩ := initial_var_data_spec h hd
    rw [hused] at hid
    exact absurd hid List.not_mem_nil
  data id expr he := by
    have hdata : s.extra_data id = body.toTypedBody.initial_polymorph_data id expr := by
      rw [hs.data, initial_extra_data, he]
    cases hselect : expr.is_select with
    | true =>
      cases expr with
      | select subject field_name =>
        rw [hdata]
        refine ⟨fun h => Bool.noConfusion h, fun _ h => ?_⟩
        cases h
      | _ => cases hselect
    | false =>
      obtain ⟨d, hd, hbegins⟩ : ∃ d, body.toTypedBody.initial_polymorph_data id expr = some d ∧
          d.Begins body.heap expr := begins_linked h.poly_vars h.heap (h.exprs id expr he) hselect
      rw [hdata, hd]
      refine ⟨fun _ => Option.some_ne_none _, fun data hdata => ?_⟩
      cases hdata
      exact hbegins
  queued id hid := by
    rw [hs.queued] at hid
    exact absurd hid List.not_mem_nil

-- Every typing refines them.
theorem Starts.admits {τ : Typing} (hs : body.Starts s) (hτ : τ.WellTyped body) : body.Admits s τ where
  exprs id := hτ.starts id _ (hs.exprs id)
  vars var_id data hd := hτ.vars var_id data (hs.vars var_id ▸ hd)
  data id expr data he hdata := by
    rw [hs.data] at hdata
    have hobeys := hτ.exprs id _ he
    cases expr with
    | select subject field_name =>
      rw [initial_extra_data, he] at hdata
      cases hdata
    | _ => exact hobeys data hdata

end Start

section Steps

-- A step is about an expression of the procedure.
def TypingStep.Exists (body : ProcedureBody) : TypingStep → Prop
  | .used_at expr_id _ | .progress expr_id => body.exprs expr_id ≠ none

theorem used_at_outcome {var_id : VariableId} (hs : body.Valid s) (hid : body.exprs expr_id ≠ none) :
    body.Progress s (body.step (.used_at expr_id var_id) s) := by
  have hn : body.propagation.Narrows (·.WellTyped body) s { s with
      var_types := Function.update s.var_types var_id
        ((s.var_types var_id).map fun data => { data with used_at := data.used_at ++ [expr_id] }) } := by
    refine narrows_vars hs (fun v => ?_) (fun τ _ hadmits v d hv => ?_)
    case refine_1 =>
      by_cases hi : v = var_id
      case neg =>
        rw [Function.update_of_ne hi]
        exact VarNarrows.refl hs v
      case pos =>
        subst hi
        rw [Function.update_self]
        cases hd : s.var_types v with
        | none      => exact .none
        | some data =>
          refine .some ⟨rfl, .refl _, hs.vars v data hd, fun id hm => ?_⟩
          rw [List.mem_append, List.mem_singleton] at hm
          exact Or.imp_right (fun he => by rwa [he]) hm
    case refine_2 =>
      by_cases hi : v = var_id
      case neg =>
        rw [Function.update_of_ne hi] at hv
        exact hadmits.vars v d hv
      case pos =>
        subst hi
        rw [Function.update_self, Option.map_eq_some_iff] at hv
        obtain ⟨data, hd, he⟩ := hv
        subst he
        exact hadmits.vars v data hd
  exact .ok hn (.inl rfl)

theorem step_propagates (h : body.Linked) :
    body.propagation.Propagates (·.WellTyped body) (TypingStep.Exists body) body.Steady body.step := by
  intro step s hexists hs
  cases step with
  | used_at expr_id var_id => exact used_at_outcome hs hexists
  | progress expr_id       => exact progress_expr_outcome h hs hexists

theorem progress_propagates (h : body.Linked) :
    body.propagation.Propagates (·.WellTyped body) (fun expr_id => body.exprs expr_id ≠ none) body.Steady
      body.progress_expr :=
  fun _ _ hid hs => progress_expr_outcome h hs hid

theorem pop_front_queues :
    body.propagation.Queues (·.WellTyped body) (fun expr_id => body.exprs expr_id ≠ none) pop_front := by
  intro s expr_id s' hs hp
  rw [pop_front] at hp
  cases hq : s.expr_queued with
  | nil =>
    rw [hq] at hp
    cases hp
  | cons id expr_queued =>
    rw [hq] at hp
    cases hp
    have hqueued := hs.queued
    rw [hq] at hqueued
    obtain ⟨hid, hids⟩ := List.forall_mem_cons.mp hqueued
    exact ⟨hid, { hs with queued := hids }, ⟨fun _ _ => .refl _, fun _ data h => ⟨data, h, .refl _⟩⟩,
      fun _ _ h => ⟨h.exprs, h.vars, h.data⟩⟩

end Steps

section Rank

variable {t : Typing} {ids : List Nat} {var_ids : List VariableId}

-- How much is known of all expressions and variables.
def rank (ids : List Nat) (var_ids : List VariableId) (s : BodyTyping) : Nat :=
  (ids.map fun id => TermSignature.total InferenceTypePart.rank (s.expr_types id).parts).sum +
  (var_ids.map fun var_id => ((s.var_types var_id).map fun data =>
    TermSignature.total InferenceTypePart.rank data.var_type.parts).getD 0).sum

def rank_bound (ids : List Nat) (var_ids : List VariableId) (τ : Typing) : Nat :=
  (ids.map fun id => TermSignature.total InferenceTypePart.rank (τ.expr id)).sum +
  (var_ids.map fun var_id => TermSignature.total InferenceTypePart.rank (τ.var var_id)).sum

theorem rank_le_bound {τ : Typing} (h : body.Admits s τ) : rank ids var_ids s ≤ rank_bound ids var_ids τ := by
  refine Nat.add_le_add (List.sum_le_sum fun id _ => ?_) (List.sum_le_sum fun var_id _ => ?_)
  · exact ((h.exprs id).total_le InferenceTypePart.weighs_rank).left
  · cases hd : s.var_types var_id with
    | none      => exact Nat.zero_le _
    | some data => exact ((h.vars var_id data hd).total_le InferenceTypePart.weighs_rank).left

-- The rank of what is refined rises, unless nothing has changed.
theorem rank_rises (hids : ∀ id, body.exprs id ≠ none ↔ id ∈ ids)
    (hvars : ∀ var_id, body.locals var_id ≠ none → var_id ∈ var_ids) (hs : body.Valid s)
    (hs' : body.Valid s') (h : body.Refines s s') :
    rank ids var_ids s ≤ rank ids var_ids s' ∧
    (body.propagation.Progresses s s' → rank ids var_ids s < rank ids var_ids s') := by
  have hexpr : ∀ id ∈ ids, TermSignature.total InferenceTypePart.rank (s.expr_types id).parts ≤
      TermSignature.total InferenceTypePart.rank (s'.expr_types id).parts :=
    fun id hid => ((h.exprs id ((hids id).mpr hid)).total_le InferenceTypePart.weighs_rank).left
  have hvar : ∀ var_id ∈ var_ids, ((s.var_types var_id).map fun data =>
      TermSignature.total InferenceTypePart.rank data.var_type.parts).getD 0 ≤
      ((s'.var_types var_id).map fun data =>
        TermSignature.total InferenceTypePart.rank data.var_type.parts).getD 0 := by
    intro var_id _
    cases hd : s.var_types var_id with
    | none      => exact Nat.zero_le _
    | some data =>
      obtain ⟨data', hd', hr⟩ := h.vars var_id data hd
      rw [hd']
      exact (hr.total_le InferenceTypePart.weighs_rank).left
  have hexprs := List.sum_le_sum hexpr
  have hvars' := List.sum_le_sum hvar
  refine ⟨Nat.add_le_add hexprs hvars', fun hprogress => ?_⟩
  by_contra hlt
  refine hprogress ⟨fun id hid => ?_, fun var_id data' hd' => ?_⟩
  case refine_1 =>
    obtain ⟨hle, heq⟩ := (h.exprs id hid).total_le InferenceTypePart.weighs_rank
    obtain hsame | hless := Nat.eq_or_lt_of_le hle
    · rw [heq hsame]
      exact .refl _
    · have hsum := List.sum_lt_sum _ _ hexpr ⟨id, (hids id).mp hid, hless⟩
      exact absurd (Nat.add_lt_add_of_lt_of_le hsum hvars') hlt
  case refine_2 =>
    obtain ⟨data, hd⟩ : ∃ data, s.var_types var_id = some data := by
      have hdeclared := hs.declared var_id
      rw [← hs'.declared var_id, hd', Option.map_some, Option.map_eq_some_iff] at hdeclared
      obtain ⟨data, hd, _⟩ := hdeclared
      exact ⟨data, hd⟩
    obtain ⟨data'', hd'', hr⟩ := h.vars var_id data hd
    cases hd'.symm.trans hd''
    refine ⟨data, hd, ?_⟩
    obtain ⟨hle, heq⟩ := hr.total_le InferenceTypePart.weighs_rank
    obtain hsame | hless := Nat.eq_or_lt_of_le hle
    · rw [heq hsame]
      exact .refl _
    · have hlocal : body.locals var_id ≠ none := by
        intro hnone
        have hdeclared := hs.declared var_id
        rw [hd, initial_var_data, hnone] at hdeclared
        cases hdeclared
      have hsum := List.sum_lt_sum _ _ hvar ⟨var_id, hvars var_id hlocal, by simpa [hd, hd'] using hless⟩
      exact absurd (Nat.add_lt_add_of_le_of_lt hexprs hsum) hlt

-- A step makes progress, or the queue is as long as before.
theorem ranked {τ : Typing} (hids : ∀ id, body.exprs id ≠ none ↔ id ∈ ids)
    (hvars : ∀ var_id, body.locals var_id ≠ none → var_id ∈ var_ids) :
    body.propagation.Ranked τ body.Steady pop_front (rank ids var_ids)
      (fun s => s.expr_queued.length) (rank_bound ids var_ids τ) where
  bounded _ _ h := rank_le_bound h
  rises _ _     := rank_rises hids hvars
  pops s i s' h := by
    rw [pop_front] at h
    cases hq : s.expr_queued with
    | nil =>
      rw [hq] at h
      cases h
    | cons id expr_queued =>
      rw [hq] at h
      cases h
      exact ⟨rfl, Nat.lt_succ_self _⟩
  does s s' h   := h.symm.imp_right fun he => Nat.le_of_eq (congrArg List.length he)

end Rank

section Runs

variable {steps : List TypingStep} {fuel : Nat} {r : Except InferenceStop BodyTyping}

theorem infer_types_outcome (h : body.Linked) (hs : body.Starts s)
    (hsteps : ∀ step ∈ steps, TypingStep.Exists body step) (hr : body.infer_types steps fuel s = some r) :
    body.propagation.Outcome (·.WellTyped body) id (fun s' => s'.expr_queued = []) s r := by
  rw [infer_types] at hr
  have hvisit := (step_propagates h).run (hs.valid h) hsteps
  generalize steps.foldlM (fun s i => body.step i s) s = visited at hvisit hr
  cases hvisit with
  | conflict he hn =>
    cases hr
    exact .conflict he hn
  | stop he =>
    cases hr
    exact .stop he
  | ok hn _ =>
    have hdrain := (progress_propagates h).drain pop_front_queues hn.valid hr
    refine .after hn (hdrain.mono (fun _ hτ _ => hτ) fun s' _ hp => ?_)
    rw [pop_front] at hp
    cases hq : s'.expr_queued with
    | nil => rfl
    | cons =>
      simp only [hq] at hp
      cases hp

-- The types with which the visit starts.
def initial_typing (body : ProcedureBody) : BodyTyping where
  expr_types id := (body.initial_expr_type id).getD ⟨false, false, [.unknown]⟩
  extra_data    := body.initial_extra_data
  expr_queued   := []
  var_types     := body.initial_var_data

theorem starts_initial_typing (h : ∀ id, body.initial_expr_type id ≠ none) :
    body.Starts body.initial_typing where
  exprs id := by
    obtain ⟨t, ht⟩ := Option.ne_none_iff_exists'.mp (h id)
    simp only [initial_typing, ht, Option.getD_some]
  data _   := rfl
  vars _   := rfl
  queued   := rfl

end Runs

section Example

-- `x = identity(1)`, where `x` is a `u8`.
def identity_call : ProcedureBody where
  heap        := ⟨[⟨some 0, "identity", ["T"],
    .function [[.polymorphicArgument 0 0]] [⟨"value", [.polymorphicArgument 0 0]⟩] false⟩]⟩
  poly_vars   := []
  return_type := none
  exprs
    | 0 => some (.assignment .set 1 2)
    | 1 => some (.variable 0)
    | 2 => some (.polymorphic (.call 0 [[.inferred]] [3]))
    | 3 => some (.plain_literal .integer)
    | _ => none
  parent
    | 1 => .expression 0 0
    | 2 => .expression 0 1
    | 3 => .expression 2 0
    | _ => .expression_stmt
  locals
    | 0 => some ⟨"x", [.uint8], none⟩
    | _ => none

def identity_visit : List TypingStep :=
  [.used_at 1 0, .progress 1, .progress 3, .progress 2, .progress 0]

def identity_typing : Typing where
  expr
    | 0 => [.void]
    | 1 | 2 | 3 => [.uint8]
    | _ => [.unknown]
  var _  := [.uint8]
  args _ := [[.uint8]]

theorem identity_call_exprs {id : Nat} {expr : TypedExpression} (h : identity_call.exprs id = some expr) :
    id = 0 ∧ expr = .assignment .set 1 2 ∨ id = 1 ∧ expr = .variable 0 ∨
    id = 2 ∧ expr = .polymorphic (.call 0 [[.inferred]] [3]) ∨ id = 3 ∧ expr = .plain_literal .integer := by
  simp only [identity_call] at h
  split at h <;> cases h <;> simp

theorem identity_call_initial (id : Nat) :
    identity_call.initial_expr_type id = some ⟨false, false, [.unknown]⟩ := by
  have hparent : identity_call.parent id = .expression_stmt ∨ id = 1 ∨ id = 2 ∨ id = 3 := by
    simp only [identity_call]
    split <;> simp
  obtain h | h | h | h := hparent
  · rw [initial_expr_type, h]
  all_goals
    subst h
    rfl

theorem identity_call_var {var_id : VariableId} {data : VarData}
    (h : identity_call.initial_var_data var_id = some data) :
    data = ⟨⟨false, true, [.uint8]⟩, [], none⟩ := by
  obtain ⟨declaration, hl, h⟩ := Option.bind_eq_some_iff.mp h
  simp only [identity_call] at hl
  split at hl <;> cases hl
  cases h
  rfl

theorem identity_call_linked : identity_call.Linked where
  heap := by
    have hdef : ∀ (id : DefinitionId) (definition : Definition),
        identity_call.heap.definitions[id]? = some definition → definition = ⟨some 0, "identity", ["T"],
          .function [[.polymorphicArgument 0 0]] [⟨"value", [.polymorphicArgument 0 0]⟩] false⟩ := by
      intro id definition h
      exact List.mem_singleton.mp (List.mem_of_getElem? h)
    refine ⟨fun id definition h elements hm => ?_, fun id definition h _ elements hm => ?_⟩
    all_goals
      cases hdef id definition h
      simp only [Definition.signature_types, List.map_cons, List.map_nil, List.mem_append,
        List.mem_singleton, or_self] at hm
      subst hm
    · exact ⟨.cons .nil, List.forall_mem_singleton.mpr Nat.zero_lt_one⟩
    · exact .inl ⟨0, 0, List.mem_cons_self⟩
  poly_vars c hc := absurd hc List.not_mem_nil
  distinct id expr h := by
    obtain ⟨hi, he⟩ | ⟨hi, he⟩ | ⟨hi, he⟩ | ⟨hi, he⟩ := identity_call_exprs h <;> subst hi he <;> decide
  children id expr h := by
    obtain ⟨hi, he⟩ | ⟨hi, he⟩ | ⟨hi, he⟩ | ⟨hi, he⟩ := identity_call_exprs h <;> subst hi he <;>
      simp [TypedExpression.children, PolymorphicExpression.expr_args, identity_call]
  parents id parent_id h := by
    simp only [parent_expr, identity_call] at h
    split at h <;> cases h
    rename_i hp
    split at hp <;> cases hp <;> simp [identity_call]
  exprs id expr h := by
    obtain ⟨_, he⟩ | ⟨_, he⟩ | ⟨_, he⟩ | ⟨_, he⟩ := identity_call_exprs h <;> cases he
    refine ⟨_, [⟨"value", [.polymorphicArgument 0 0]⟩], rfl, ⟨rfl, ?_⟩,
      .inr ⟨[.polymorphicArgument 0 0], false, rfl⟩, rfl⟩
    exact List.forall_mem_singleton.mpr ⟨.cons .nil, List.forall_mem_singleton.mpr trivial⟩
  casts id to_type subject h := by
    obtain ⟨_, he⟩ | ⟨_, he⟩ | ⟨_, he⟩ | ⟨_, he⟩ := identity_call_exprs h <;> cases he
  declared id var_id h := by
    obtain ⟨_, he⟩ | ⟨_, he⟩ | ⟨_, he⟩ | ⟨_, he⟩ := identity_call_exprs h <;> cases he
    exact ⟨_, rfl⟩
  locals var_id declaration h := by
    simp only [identity_call] at h
    split at h <;> cases h
    exact ⟨.cons .nil, List.forall_mem_singleton.mpr trivial⟩
  channels var_id declaration linked_id h hl := by
    simp only [identity_call] at h
    split at h <;> cases h
    cases hl
  returned elements h := by cases h
  finite := by
    refine ⟨⟨[0, 1, 2, 3], fun id => ⟨fun h => ?_, fun h => ?_⟩⟩, [0], fun var_id h => ?_⟩
    · obtain ⟨expr, he⟩ := Option.ne_none_iff_exists'.mp h
      obtain ⟨hi, _⟩ | ⟨hi, _⟩ | ⟨hi, _⟩ | ⟨hi, _⟩ := identity_call_exprs he <;> subst hi <;> decide
    · simp only [List.mem_cons, List.not_mem_nil, or_false] at h
      obtain h | h | h | h := h <;> subst h <;> simp [identity_call]
    · simp only [identity_call] at h
      split at h
      · exact List.mem_cons_self
      · exact absurd rfl h

theorem identity_call_starts : identity_call.Starts identity_call.initial_typing :=
  starts_initial_typing fun id => by simp [identity_call_initial]

theorem refines_unknown {t : List InferenceTypePart} (ht : signature.Forest 1 t)
    (hu : signature.Unmarked t) : signature.Refines [.unknown] t := by
  have hfill := TermSignature.Refines.fill ht hu .nil
  rwa [List.append_nil] at hfill

theorem identity_call_steps : ∀ step ∈ identity_visit, TypingStep.Exists identity_call step := by
  simp [identity_visit, TypingStep.Exists, identity_call]

theorem identity_call_runs :
    (identity_call.infer_types identity_visit 10 identity_call.initial_typing).isSome = true := by
  decide +kernel

theorem identity_call_well_typed : identity_typing.WellTyped identity_call where
  exprs id expr h := by
    obtain ⟨hi, he⟩ | ⟨hi, he⟩ | ⟨hi, he⟩ | ⟨hi, he⟩ := identity_call_exprs h <;> subst hi he
    · exact ⟨rfl, trivial, rfl⟩
    · rfl
    · intro data hdata
      cases hdata
      refine ⟨fun i v hv => ?_, fun idx t ht => ?_⟩
      · cases i with
        | zero =>
          cases hv
          exact ⟨[.uint8], rfl, refines_unknown (.cons .nil) (by decide)⟩
        | succ => cases hv
      · have hcovers : signature.Covers (fun k c => (identity_typing.args 2)[k.marker_idx]? = some c)
            [.marker 0, .unknown] [.uint8] :=
          ⟨[.marker 0, .uint8], [(.marker 0, [.uint8])], .same (refines_unknown (.cons .nil) (by decide)),
            rfl, .marked (t := [InferenceTypePart.uint8]) (l := []) rfl (.cons .nil) (by decide) .nil,
            List.forall_mem_singleton.mpr rfl⟩
        cases idx with
        | returned =>
          cases ht
          exact hcovers
        | embedded i =>
          cases i with
          | succ => cases ht
          | zero =>
            cases ht
            exact hcovers
    · exact .narrow rfl .nil
  starts id t h := by
    cases (identity_call_initial id).symm.trans h
    simp only [identity_typing]
    split <;> exact refines_unknown (.cons .nil) (by decide)
  vars var_id data h := by
    rw [identity_call_var h]
    exact .refl _
  linked var_id data linked_id h hl := by
    rw [identity_call_var h] at hl
    cases hl

end Example

section Results

-- A procedure that can be typed gets no type error, and what is inferred is what all its typings have in
-- common.
theorem inference_admits_all_typings {body : ProcedureBody} {s : BodyTyping} {steps : List TypingStep}
    {fuel : Nat} {r : Except InferenceStop BodyTyping} (h : body.Linked) (hs : body.Starts s)
    (hsteps : ∀ step ∈ steps, TypingStep.Exists body step)
    (hr : body.infer_types steps fuel s = some r) (hτ : ∃ τ : Typing, τ.WellTyped body) :
    (∃ s', r = .ok s' ∧ ∀ τ : Typing, τ.WellTyped body → body.Admits s' τ) ∨
    r = .error (.panic .signature_without_marker) ∧
      ∃ id expr, body.exprs id = some (.polymorphic expr) ∧ expr.CallsCreate body.heap := by
  have houtcome := infer_types_outcome h hs hsteps hr
  cases houtcome with
  | ok hn _ => exact .inl ⟨_, rfl, fun τ hτ => hn.admits τ hτ (hs.admits hτ)⟩
  | conflict _ hn =>
    obtain ⟨τ, hτ⟩ := hτ
    exact absurd (hs.admits hτ) (hn τ hτ)
  | stop he => exact .inr ⟨congrArg _ he.left, he.right⟩

theorem identity_call_admits : ∃ r,
    identity_call.infer_types identity_visit 10 identity_call.initial_typing = some r ∧
    ((∃ s', r = .ok s' ∧ ∀ τ : Typing, τ.WellTyped identity_call → identity_call.Admits s' τ) ∨
    r = .error (.panic .signature_without_marker) ∧ ∃ id expr,
      identity_call.exprs id = some (.polymorphic expr) ∧ expr.CallsCreate identity_call.heap) := by
  obtain ⟨r, hr⟩ := Option.isSome_iff_exists.mp identity_call_runs
  exact ⟨r, hr, inference_admits_all_typings identity_call_linked identity_call_starts
    identity_call_steps hr ⟨_, identity_call_well_typed⟩⟩

-- The loop comes to an end for a procedure that can be typed.
theorem inference_halts {body : ProcedureBody} {s : BodyTyping} {steps : List TypingStep}
    (h : body.Linked) (hs : body.Starts s) (hsteps : ∀ step ∈ steps, TypingStep.Exists body step)
    (hτ : ∃ τ : Typing, τ.WellTyped body) : ∃ fuel r, body.infer_types steps fuel s = some r := by
  obtain ⟨τ, hτ⟩ := hτ
  obtain ⟨⟨ids, hids⟩, var_ids, hvars⟩ := h.finite
  have hvisit := (step_propagates h).run (hs.valid h) hsteps
  simp only [infer_types]
  generalize steps.foldlM (fun s i => body.step i s) s = visited at hvisit
  cases hvisit with
  | conflict => exact ⟨0, _, rfl⟩
  | stop     => exact ⟨0, _, rfl⟩
  | ok hn _  =>
    exact (progress_propagates h).halts pop_front_queues (ranked hids hvars) hτ hn.valid
      (hn.admits τ hτ (hs.admits hτ))

theorem identity_call_halts : ∃ fuel r,
    identity_call.infer_types identity_visit fuel identity_call.initial_typing = some r :=
  inference_halts identity_call_linked identity_call_starts identity_call_steps
    ⟨_, identity_call_well_typed⟩

-- If all types are known after one run, then no other run infers anything else, and there is only one
-- typing of the expressions.
theorem complete_types_are_unique {body : ProcedureBody} {s₁ s₂ s₁' s₂' : BodyTyping}
    {steps₁ steps₂ : List TypingStep} {fuel₁ fuel₂ : Nat} (h : body.Linked)
    (hs₁ : body.Starts s₁) (hs₂ : body.Starts s₂)
    (hsteps₁ : ∀ step ∈ steps₁, TypingStep.Exists body step)
    (hsteps₂ : ∀ step ∈ steps₂, TypingStep.Exists body step)
    (hr₁ : body.infer_types steps₁ fuel₁ s₁ = some (.ok s₁'))
    (hr₂ : body.infer_types steps₂ fuel₂ s₂ = some (.ok s₂'))
    (hτ : ∃ τ : Typing, τ.WellTyped body)
    (hdone : ∀ id, body.exprs id ≠ none → (s₁'.expr_types id).is_done = true) :
    ∀ id, body.exprs id ≠ none →
      signature.Refines (s₂'.expr_types id).parts (s₁'.expr_types id).parts ∧
      ∀ τ : Typing, τ.WellTyped body → τ.expr id = (s₁'.expr_types id).parts := by
  intro id hid
  have houtcome₁ := infer_types_outcome h hs₁ hsteps₁ hr₁
  have houtcome₂ := infer_types_outcome h hs₂ hsteps₂ hr₂
  cases houtcome₁ with
  | ok hn₁ _ =>
    cases houtcome₂ with
    | ok hn₂ _ =>
      have hexpr : ∀ τ : Typing, τ.WellTyped body → τ.expr id = (s₁'.expr_types id).parts :=
        fun τ hτ => (hn₁.admits τ hτ (hs₁.admits hτ)).expr_eq hn₁.valid (hdone id hid)
      obtain ⟨τ, hτ⟩ := hτ
      exact ⟨hexpr τ hτ ▸ (hn₂.admits τ hτ (hs₂.admits hτ)).exprs id, hexpr⟩

-- From the outside to the inside and the other way round.
theorem identity_call_unique : ∃ s₁ s₂,
    identity_call.infer_types identity_visit 10 identity_call.initial_typing = some (.ok s₁) ∧
    identity_call.infer_types identity_visit.reverse 10 identity_call.initial_typing = some (.ok s₂) ∧
    ∀ id, identity_call.exprs id ≠ none →
      signature.Refines (s₂.expr_types id).parts (s₁.expr_types id).parts ∧
      ∀ τ : Typing, τ.WellTyped identity_call → τ.expr id = (s₁.expr_types id).parts := by
  have hruns : ∀ steps ∈ [identity_visit, identity_visit.reverse],
      ((identity_call.infer_types steps 10 identity_call.initial_typing).map fun r =>
        r.toOption.any fun s => [0, 1, 2, 3].all fun id => (s.expr_types id).is_done) = some true := by
    decide +kernel
  have hok : ∀ steps ∈ [identity_visit, identity_visit.reverse], ∃ s,
      identity_call.infer_types steps 10 identity_call.initial_typing = some (.ok s) ∧
      ∀ id ∈ [0, 1, 2, 3], (s.expr_types id).is_done = true := by
    intro steps hm
    obtain ⟨r, hr, hs⟩ := Option.map_eq_some_iff.mp (hruns steps hm)
    cases r with
    | error => cases hs
    | ok s  => exact ⟨s, hr, List.all_eq_true.mp hs⟩
  obtain ⟨s₁, hr₁, hdone⟩ := hok _ List.mem_cons_self
  obtain ⟨s₂, hr₂, _⟩ := hok _ (List.mem_cons_of_mem _ List.mem_cons_self)
  have hsteps : ∀ step ∈ identity_visit.reverse, TypingStep.Exists identity_call step :=
    fun step hm => identity_call_steps step (List.mem_reverse.mp hm)
  refine ⟨s₁, s₂, hr₁, hr₂, complete_types_are_unique identity_call_linked identity_call_starts
    identity_call_starts identity_call_steps hsteps hr₁ hr₂ ⟨_, identity_call_well_typed⟩ fun id hid => ?_⟩
  obtain ⟨expr, he⟩ := Option.ne_none_iff_exists'.mp hid
  obtain ⟨hi, _⟩ | ⟨hi, _⟩ | ⟨hi, _⟩ | ⟨hi, _⟩ := identity_call_exprs he <;> subst hi <;>
    exact hdone _ (by decide)

end Results
end ProcedureBody
end Reowolf.Types
