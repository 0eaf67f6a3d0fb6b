import Reowolf.Protocol.ExpressionNumbers
import Reowolf.Protocol.PromptControl
import Reowolf.Protocol.TypingTraversal

theorem Except.eq_ok_getD {ε α : Type} {x : Except ε α} {a : α} (h : x.isOk = true) :
    x = .ok (x.toOption.getD a) := by
  cases x with
  | ok    => rfl
  | error => cases h

namespace Reowolf

-- A module that the validation and linking pass accepts. In the arena of the parser every definition
-- and every expression has a number of its own.
structure ValidatedModule where
  ctx                  : LinkCtx
  definitions          : List Definition
  parsed               : Heap
  heap                 : Heap
  distinct_definitions : (definitions.map Definition.this).Nodup
  distinct_expressions : (definitions.flatMap Definition.expression_ids).Nodup
  accepted             : PassValidationLinking.visit_module ctx definitions parsed = .ok heap

section

variable {definition : Definition} {heap : Heap}

theorem ValidatedModule.numbered (m : ValidatedModule) (hd : definition ∈ m.definitions) :
    m.heap.Numbered definition := by
  have haccepted := m.accepted
  rw [PassValidationLinking.visit_module_eq] at haccepted
  exact (visit_module_numbers m.distinct_expressions m.distinct_definitions haccepted).2.2 definition hd

theorem ValidatedModule.expression_ids_nodup (m : ValidatedModule) (hd : definition ∈ m.definitions) :
    definition.expression_ids.Nodup :=
  (List.nodup_flatMap.mp m.distinct_expressions).1 definition hd

theorem BlockOf.Refers.ne_none {body : BlockStatement} {node : ExpressionNode} (h : body.Refers node) :
    node.2 ≠ .none := by
  cases h with
  | operand _ hc =>
    obtain ⟨i, hi, he⟩ := List.mem_mapIdx.mp hc
    subst he
    rintro ⟨⟩
  | @root top stmt _ _ _ hroot =>
    cases stmt with
    | «if» | «while» | «return» | new | expression =>
      cases List.mem_singleton.mp hroot
      rintro ⟨⟩
    | _ => cases hroot

namespace PassTyping

theorem has_initial_type_of {kind : DefinitionKind} {parent : ExpressionParent} (hn : parent ≠ .none)
    (hr : ∀ stmt, parent = .return stmt → kind = .function) : has_initial_type kind parent := by
  cases parent with
  | none => exact absurd rfl hn
  | «return» stmt =>
    cases hr stmt rfl
    rfl
  | _ => rfl

-- The places for the expressions of a numbered procedure are as many as it has expressions.
theorem Ready.of_numbered {S : Type} {inference : S} (h : heap.Numbered definition)
    (hn : definition.expression_ids.Nodup) :
    Ready heap (BlockOf.expressions definition.body)
      { definition_type := definition.kind
        expr_types      := List.replicate (heap.num_expressions_in_body definition.this) none
        inference       := inference
        visited         := [] } where
  free node hm  := by
    have hlt := (h.unique_id.mapsTo ⟨node.2, BlockOf.mem_expressions.mp hm⟩).2
    exact List.getElem?_replicate_of_lt hlt
  nodup         := by
    have hnodes := hn.of_map
    refine hnodes.map_on fun node hm node' hm' he => ?_
    have hr  := BlockOf.mem_expressions.mp hm
    have hr' := BlockOf.mem_expressions.mp hm'
    have hexpr := h.unique_id.injOn ⟨node.2, hr⟩ ⟨node'.2, hr'⟩ he
    have hparent := (h.parent node hr).symm.trans (hexpr ▸ h.parent node' hr')
    exact Prod.ext hexpr hparent
  typed node hm := by
    have hr := BlockOf.mem_expressions.mp hm
    rw [h.parent node hr]
    exact has_initial_type_of hr.ne_none (h.returns node hr)

-- The typing pass visits every expression of a numbered procedure once, unless the inference stops it.
theorem visit_definition_outcome {S ε : Type} {step : InferenceStep → S → Except ε S} {inference : S}
    (h : heap.Numbered definition) (hn : definition.expression_ids.Nodup) :
    Outcome step heap (BlockOf.expressions definition.body)
      { definition_type := definition.kind
        expr_types      := List.replicate (heap.num_expressions_in_body definition.this) none
        inference       := inference
        visited         := [] } (visit_definition step heap definition inference) :=
  (visit_block_stmt_visits definition.body).after infer_visits _ (.of_numbered h hn)

end PassTyping
end

theorem ValidatedModule.expressions_numbered (m : ValidatedModule) {definition : Definition}
    (hd : definition ∈ m.definitions) :
    Set.BijOn (fun expr => (m.heap.names.expressions expr.this).unique_id_in_definition)
      {expr | ∃ parent, definition.body.Refers (expr, parent)}
      (Set.Ico 0 (m.heap.num_expressions_in_body definition.this)) ∧
    (∀ expr parent, definition.body.Refers (expr, parent) →
      (m.heap.names.expressions expr.this).parent = parent) ∧
    ∀ {S ε : Type} (step : InferenceStep → S → Except ε S) (inference : S),
      (∃ s, PassTyping.visit_definition step m.heap definition inference = .ok s ∧ s.visited.Nodup ∧
        ∀ expr, expr ∈ s.visited ↔ ∃ parent, definition.body.Refers (expr, parent)) ∨
      ∃ error inference_step inference', step inference_step inference' = .error error ∧
        PassTyping.visit_definition step m.heap definition inference = .error (.inference error) := by
  have hnumbered := m.numbered hd
  have hn := m.expression_ids_nodup hd
  refine ⟨hnumbered.unique_id, fun expr parent => hnumbered.parent (expr, parent), ?_⟩
  intro S ε step inference
  have houtcome := @PassTyping.visit_definition_outcome _ _ _ _ step inference hnumbered hn
  generalize PassTyping.visit_definition step m.heap definition inference = result at houtcome
  cases houtcome with
  | stopped h => exact .inr ⟨_, _, _, h, rfl⟩
  | ok h =>
    have hvisited := h.visited
    rw [List.nil_append] at hvisited
    refine .inl ⟨_, rfl, ?_, fun expr => ?_⟩
    · rw [hvisited]
      refine .of_map Expression.this ?_
      rwa [List.map_map]
    · rw [hvisited, List.mem_map]
      simp only [← BlockOf.mem_expressions, Prod.exists, exists_and_right, exists_eq_right]

-- `func f(u32 a) -> u32 { if (a < 5) { a = a + 1; } return a; }`.
def Definition.counts_up : Definition where
  this       := 0
  kind       := .function
  parameters := [0]
  body       := ⟨0, [
    .if 1 (.binary 0 .lessThan (.variable 1 "a") (.literal 2 (.integer 5) []))
      ⟨2, [.expression 3 (.assignment 3 .set (.variable 4 "a")
        (.binary 5 .add (.variable 6 "a") (.literal 7 (.integer 1) [])))], 4⟩ none 5,
    .return 6 (.variable 8 "a")], 7⟩

def LinkCtx.counts_up : LinkCtx := ⟨fun _ => .function 1, fun _ _ => false⟩

def Heap.counts_up : Heap := .parsed (.parsed [⟨"a", 0, 0⟩])

def ValidatedModule.counts_up : ValidatedModule where
  ctx                  := .counts_up
  definitions          := [.counts_up]
  parsed               := .counts_up
  heap                 :=
    (PassValidationLinking.visit_module .counts_up [.counts_up] .counts_up).toOption.getD .counts_up
  distinct_definitions := by decide
  distinct_expressions := by decide
  accepted             := Except.eq_ok_getD (by decide +kernel)

-- A pass that infers nothing visits the nine expressions of the procedure.
theorem ValidatedModule.expressions_numbered_counts_up :
    Set.BijOn (fun expr => (counts_up.heap.names.expressions expr.this).unique_id_in_definition)
      {expr | ∃ parent, BlockOf.Refers Definition.counts_up.body (expr, parent)} (Set.Ico 0 9) ∧
    ∃ s : TypingTraversal Unit,
      PassTyping.visit_definition (fun _ _ => (.ok () : Except Empty Unit)) counts_up.heap
        Definition.counts_up () = .ok s ∧
      ∀ expr, expr ∈ s.visited ↔ ∃ parent, BlockOf.Refers Definition.counts_up.body (expr, parent) := by
  have hcount : counts_up.heap.num_expressions_in_body Definition.counts_up.this = 9 := by decide +kernel
  obtain ⟨hbij, _, htyping⟩ :=
    expressions_numbered counts_up (List.mem_singleton_self Definition.counts_up)
  rw [hcount] at hbij
  obtain ⟨s, hs, _, hmem⟩ | ⟨error, _⟩ := htyping (fun _ _ => (.ok () : Except Empty Unit)) ()
  · exact ⟨hbij, s, hs, hmem⟩
  · exact error.elim

end Reowolf
