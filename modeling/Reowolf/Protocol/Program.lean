import Reowolf.Protocol.StructuredControl

namespace Reowolf

-- The links of the heap. The unique ids of variables are not among them.
def Heap.links (heap : Heap) :
    (StatementId → Option StatementId) × (StatementId → Option StatementId) ×
      (StatementId → List LabeledStatement) :=
  (heap.next, heap.target, heap.labels)

-- What giving unique ids to variables leaves as it is.
structure Heap.KeptByIds {β : Type*} (f : Heap → β) : Prop where
  set_unique_id : ∀ (heap : Heap) (id : VariableId) (unique_id : Nat),
    f (heap.set_unique_id id unique_id) = f heap
  first         : ∀ (heap : Heap) (first_unique_id_in_scope : StatementId → Nat),
    f { heap with first_unique_id_in_scope } = f heap
  next          : ∀ (heap : Heap) (next_unique_id_in_scope : StatementId → Nat),
    f { heap with next_unique_id_in_scope } = f heap

theorem Heap.links_kept : Heap.KeptByIds Heap.links :=
  ⟨fun _ _ _ => rfl, fun _ _ => rfl, fun _ _ => rfl⟩

section

variable {β : Type*} {f : Heap → β}

theorem LocalIds.assign_keeps (hf : Heap.KeptByIds f) {before : Nat → Prop} [DecidablePred before]
    {ids : List VariableId} {var_counter : Nat} {heap : Heap} :
    f (LocalIds.assign before ids var_counter heap).heap = f heap := by
  induction ids generalizing var_counter heap
  case nil => rfl
  case cons id ids ih =>
    simp only [LocalIds.assign]
    split
    · rw [ih, hf.set_unique_id]
    · rfl

theorem LocalIds.assign_until_keeps (hf : Heap.KeptByIds f) (ids : LocalIds) (pos : Nat) :
    f (ids.assign_until pos).heap = f ids.heap :=
  LocalIds.assign_keeps hf

theorem LocalIds.assign_all_keeps (hf : Heap.KeptByIds f) (ids : LocalIds) :
    f ids.assign_all.heap = f ids.heap :=
  LocalIds.assign_keeps hf

mutual

theorem visit_stmt_and_assign_local_ids_keeps (hf : Heap.KeptByIds f) : (stmt : Statement) →
    ∀ (pos : Nat) (ids : LocalIds), f (visit_stmt_and_assign_local_ids pos stmt ids).heap = f ids.heap
  | .block body, pos, ids | .while _ _ body _, pos, ids | .synchronous _ body _, pos, ids => by
    simp only [visit_stmt_and_assign_local_ids]
    rw [visit_block_and_assign_local_ids_keeps hf body, LocalIds.assign_until_keeps hf]
  | .if _ _ true_body false_body _, pos, ids => by
    simp only [visit_stmt_and_assign_local_ids]
    rw [visit_false_body_and_assign_local_ids_keeps hf false_body,
      visit_block_and_assign_local_ids_keeps hf true_body, LocalIds.assign_until_keeps hf]
  | .labeled _ _ body, pos, ids => by
    simp only [visit_stmt_and_assign_local_ids]
    exact visit_stmt_and_assign_local_ids_keeps hf body pos ids
  | .memory .., _, _ | .channel .., _, _ | .break .., _, _ | .continue .., _, _ | .return .., _, _
  | .goto .., _, _ | .new .., _, _ | .expression .., _, _ => rfl

theorem visit_block_and_assign_local_ids_keeps (hf : Heap.KeptByIds f) : (body : BlockStatement) →
    ∀ (var_counter : Nat) (heap : Heap),
    f (visit_block_and_assign_local_ids body var_counter heap) = f heap
  | ⟨this, statements, end_block⟩, var_counter, heap => by
    simp only [visit_block_and_assign_local_ids]
    rw [hf.next, LocalIds.assign_all_keeps hf, visit_stmts_and_assign_local_ids_keeps hf statements,
      hf.first]

theorem visit_stmts_and_assign_local_ids_keeps (hf : Heap.KeptByIds f) : (stmts : List Statement) →
    ∀ (pos : Nat) (ids : LocalIds), f (visit_stmts_and_assign_local_ids pos stmts ids).heap = f ids.heap
  | [], _, _ => rfl
  | stmt :: stmts, pos, ids => by
    simp only [visit_stmts_and_assign_local_ids]
    rw [visit_stmts_and_assign_local_ids_keeps hf stmts, visit_stmt_and_assign_local_ids_keeps hf stmt]

theorem visit_false_body_and_assign_local_ids_keeps (hf : Heap.KeptByIds f) :
    (body : Option BlockStatement) → ∀ (pos : Nat) (ids : LocalIds),
    f (visit_false_body_and_assign_local_ids pos body ids).heap = f ids.heap
  | none, _, _ => rfl
  | some body, pos, ids => by
    simp only [visit_false_body_and_assign_local_ids]
    rw [visit_block_and_assign_local_ids_keeps hf body, LocalIds.assign_until_keeps hf]

end

theorem assign_parameter_ids_keeps (hf : Heap.KeptByIds f) {parameters : List VariableId}
    {var_counter : Nat} {heap : Heap} :
    f (assign_parameter_ids parameters var_counter heap) = f heap := by
  induction parameters generalizing var_counter heap
  case nil => rfl
  case cons id parameters ih => rw [assign_parameter_ids, ih, hf.set_unique_id]

theorem visit_definition_and_assign_local_ids_keeps (hf : Heap.KeptByIds f) (definition : Definition)
    (heap : Heap) : f (visit_definition_and_assign_local_ids definition heap) = f heap :=
  (visit_block_and_assign_local_ids_keeps hf _ _ _).trans (assign_parameter_ids_keeps hf)

end

-- What linking a procedure does to the heap.
structure LinkedBody (arena : Arena) (body : BlockStatement) (heap heap' : Heap) : Prop where
  next   : ∀ id ∉ body.ids, heap'.next id = heap.next id
  target : ∀ id ∉ body.ids, heap'.target id = heap.target id
  labels : ∀ id ∉ body.ids, heap'.labels id = heap.labels id
  linked : ∀ final : Heap, (∀ id ∈ body.ids, final.next id = heap'.next id) →
    (∀ id ∈ body.ids, final.target id = heap'.target id) →
    body.Everywhere (LinkedAt arena final) []

theorem LinkedBody.visit_definition {arena : Arena} {ctx : LinkCtx} {definition : Definition}
    {heap heap' : Heap} (hn : definition.body.ids.Nodup)
    (ha : ∀ x ∈ BlockOf.nodes definition.body, arena.get x.1 = some x.2)
    (hnext : ∀ id ∈ definition.body.ids, heap.next id = none)
    (hlabels : ∀ id ∈ definition.body.ids, heap.labels id = [])
    (h : visit_definition ctx definition heap = .ok heap') :
    LinkedBody arena definition.body heap heap' := by
  simp only [Reowolf.visit_definition, Except.bind_eq_ok] at h
  obtain ⟨σ', hv, he⟩ := h
  cases he
  let σ : LinkState := { assign_parameter_ids definition.parameters 0 heap with
    prev_stmt := none,
    names := { (assign_parameter_ids definition.parameters 0 heap).names with next_expr_index := 0 } }
  have hlinks : σ.toHeap.links = heap.links := assign_parameter_ids_keeps Heap.links_kept
  have hlinks' := (visit_definition_and_assign_local_ids_keeps Heap.links_kept definition { σ'.toHeap with
    num_expressions_in_body :=
      Function.update σ'.num_expressions_in_body definition.this σ'.names.next_expr_index })
  simp only [Heap.links, Prod.mk.injEq] at hlinks hlinks'
  have hs : Situated (BlockOf.owners none definition.body) (Traversal.new definition) σ [] := {
    scopes   := rfl
    in_while := rfl
    in_sync  := rfl
    recorded := trivial
    owned    := trivial
    unique   := List.nodup_nil
    once     := hn.sublist (BlockOf.owners_sublist none definition.body) }
  have hp : Placed arena (BlockOf.owners none definition.body) [] σ (BlockOf.nodes definition.body)
      (BlockOf.owners none definition.body) := {
    nodup  := hn
    apart  := List.disjoint_nil_left _
    arena  := ha
    owners := List.Subset.refl _
    fresh  := fun id hi => by rw [hlinks.2.2]; exact hlabels id hi }
  have L := Linking.visit_block_stmt definition.body hs hp hv
  have hprev (id : StatementId) : σ.prev_stmt ≠ some id := by simp [σ]
  exact {
    next id hi   := by rw [hlinks'.1, L.visited.next id hi (hprev id), hlinks.1]
    target id hi := by rw [hlinks'.2.1, L.visited.target id hi, hlinks.2.1]
    labels id hi := by rw [hlinks'.2.2, L.visited.labels id hi, hlinks.2.2]
    linked final hfn hft := by
      apply L.linked
      · intro id hi
        rw [hft id hi, hlinks'.2.1, hfn id hi, hlinks'.1]
        exact ⟨rfl, fun _ => rfl⟩
      · intro id hid
        have hi := L.prev id hid
        rw [hfn id hi, hlinks'.1, L.unset id hid (hprev id), hlinks.1, hnext id hi]
        rfl }

-- The heap as the parser leaves it.
def Heap.parsed (names : Names) : Heap where
  next                     := fun _ => none
  target                   := fun _ => none
  while_in_sync            := fun _ => none
  labels                   := fun _ => []
  first_unique_id_in_scope := fun _ => 0
  next_unique_id_in_scope  := fun _ => 0
  num_expressions_in_body  := fun _ => 0
  names                    := names

-- The procedures of a program that the pass accepts, with the heap that the pass makes of them.
structure AcceptedProgram where
  ctx         : LinkCtx
  definitions : List Definition
  names       : Names
  heap        : Heap
  nodup       : (definitions.flatMap (·.body.ids)).Nodup
  accepted    : visit_module ctx definitions (.parsed names) = .ok heap

def AcceptedProgram.arena (program : AcceptedProgram) : Arena :=
  program.definitions.flatMap (BlockOf.nodes ·.body)

theorem visit_module_linked {arena : Arena} {ctx : LinkCtx} {definitions : List Definition}
    {heap heap' : Heap} (hn : (definitions.flatMap (·.body.ids)).Nodup)
    (ha : ∀ x ∈ definitions.flatMap (BlockOf.nodes ·.body), arena.get x.1 = some x.2)
    (hnext : ∀ id ∈ definitions.flatMap (·.body.ids), heap.next id = none)
    (hlabels : ∀ id ∈ definitions.flatMap (·.body.ids), heap.labels id = [])
    (h : visit_module ctx definitions heap = .ok heap') :
    (∀ id ∉ definitions.flatMap (·.body.ids),
      heap'.next id = heap.next id ∧ heap'.target id = heap.target id) ∧
    ∀ definition ∈ definitions, definition.body.Everywhere (LinkedAt arena heap') [] := by
  induction definitions generalizing heap
  case nil =>
    cases h
    exact ⟨fun _ _ => ⟨rfl, rfl⟩, fun _ hm => by cases hm⟩
  case cons definition definitions ih =>
    simp only [visit_module, Except.bind_eq_ok] at h
    obtain ⟨heap₁, h₁, h₂⟩ := h
    simp only [List.flatMap_cons, List.nodup_append'] at hn
    simp only [List.flatMap_cons, List.mem_append, or_imp, forall_and] at ha hnext hlabels
    have hb := LinkedBody.visit_definition hn.1 ha.1 hnext.1 hlabels.1 h₁
    have hd : ∀ id ∈ definitions.flatMap (·.body.ids), id ∉ definition.body.ids :=
      fun id hi hm => hn.2.2 hm hi
    have hnext₁ : ∀ id ∈ definitions.flatMap (·.body.ids), heap₁.next id = none :=
      fun id hi => (hb.next id (hd id hi)).trans (hnext.2 id hi)
    have hlabels₁ : ∀ id ∈ definitions.flatMap (·.body.ids), heap₁.labels id = [] :=
      fun id hi => (hb.labels id (hd id hi)).trans (hlabels.2 id hi)
    obtain ⟨hframe, hlinked⟩ := ih hn.2.1 ha.2 hnext₁ hlabels₁ h₂
    constructor
    · intro id hi
      simp only [List.flatMap_cons, List.mem_append, not_or] at hi
      obtain ⟨hn₂, ht₂⟩ := hframe id hi.2
      exact ⟨hn₂.trans (hb.next id hi.1), ht₂.trans (hb.target id hi.1)⟩
    · intro definition' hm
      cases List.mem_cons.mp hm
      case inr hm => exact hlinked definition' hm
      case inl hm =>
        subst hm
        exact hb.linked heap' (fun id hi => (hframe id (fun hm => hd id hm hi)).1)
          (fun id hi => (hframe id (fun hm => hd id hm hi)).2)

-- In an accepted program every link is as the structured meaning has it.
theorem AcceptedProgram.linked (program : AcceptedProgram) {definition : Definition}
    (hd : definition ∈ program.definitions) :
    definition.body.Everywhere (LinkedAt program.arena program.heap) [] := by
  have hids : program.arena.ids = program.definitions.flatMap (·.body.ids) := by
    simp only [arena, Arena.ids, List.map_flatMap]
    rfl
  have hget : ∀ x ∈ program.arena, program.arena.get x.1 = some x.2 :=
    fun x hx => Arena.get_of_mem (hids ▸ program.nodup) hx
  exact (visit_module_linked program.nodup hget (fun _ _ => rfl) (fun _ _ => rfl)
    program.accepted).2 definition hd

end Reowolf
