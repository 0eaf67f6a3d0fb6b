import Reowolf.Library.Machine
import Reowolf.Protocol.ExpressionNodes

namespace Reowolf

-- What the typing pass does on its way to the types of variables and expressions.
inductive InferenceStep
  | parameters (definition : Definition)
  | declare (stmt : Statement) -- the variables of a memory or channel statement
  | initial (expr : Expression) (parent : ExpressionParent)
  | polymorph_data (expr : Expression)
  | used_at (expr : Expression) -- the variable of a variable expression
  | progress (expr : Expression)

-- Why the traversal stops: a type error, or a place that the source holds to be unreachable.
inductive TypingFailure (ε : Type)
  | inference (error : ε)
  | unreachable

-- The typing pass in a procedure. An entry of `expr_types` is the expression that it is for. The
-- visits are not recorded by the source.
structure TypingTraversal (S : Type) where
  definition_type : DefinitionKind
  expr_types      : List (Option ExpressionId)
  inference       : S
  visited         : List Expression

namespace PassTyping

section

variable {S ε : Type} (step : InferenceStep → S → Except ε S) (heap : Heap)

def infer (inference_step : InferenceStep) (s : TypingTraversal S) :
    Except (TypingFailure ε) (TypingTraversal S) :=
  match step inference_step s.inference with
  | .ok inference => .ok { s with inference }
  | .error error  => .error (.inference error)

-- Whether what refers to an expression says what its type is at first.
def has_initial_type (definition_type : DefinitionKind) : ExpressionParent → Bool
  | .none     => false
  | .return _ => definition_type = .function
  | .if _ | .while _ | .new _ | .expressionStmt _ | .expression .. => true

def insert_initial_expr_inference_type (expr : Expression) (s : TypingTraversal S) :
    Except (TypingFailure ε) (TypingTraversal S) :=
  let data := heap.names.expressions expr.this
  if ¬has_initial_type s.definition_type data.parent then .error .unreachable
  else
    match s.expr_types[data.unique_id_in_definition]? with
    | none | some (some _) => .error .unreachable
    | some none            =>
      infer step (.initial expr data.parent) { s with
        expr_types := s.expr_types.set data.unique_id_in_definition (some expr.this)
        visited    := s.visited ++ [expr] }

mutual

def visit_expr : Expression → TypingTraversal S → Except (TypingFailure ε) (TypingTraversal S)
  | .assignment this operation left right, s => do
    let expr := Expression.assignment this operation left right
    let s ← insert_initial_expr_inference_type step heap expr s
    let s ← visit_expr left s
    let s ← visit_expr right s
    infer step (.progress expr) s
  | .binding this bound_to bound_from, s => do
    let expr := Expression.binding this bound_to bound_from
    let s ← insert_initial_expr_inference_type step heap expr s
    let s ← visit_expr bound_to s
    let s ← visit_expr bound_from s
    infer step (.progress expr) s
  | .conditional this test true_expression false_expression, s => do
    let expr := Expression.conditional this test true_expression false_expression
    let s ← insert_initial_expr_inference_type step heap expr s
    let s ← visit_expr test s
    let s ← visit_expr true_expression s
    let s ← visit_expr false_expression s
    infer step (.progress expr) s
  | .binary this operation left right, s => do
    let expr := Expression.binary this operation left right
    let s ← insert_initial_expr_inference_type step heap expr s
    let s ← visit_expr left s
    let s ← visit_expr right s
    infer step (.progress expr) s
  | .unary this operation expression, s => do
    let expr := Expression.unary this operation expression
    let s ← insert_initial_expr_inference_type step heap expr s
    let s ← visit_expr expression s
    infer step (.progress expr) s
  | .indexing this subject index, s => do
    let expr := Expression.indexing this subject index
    let s ← insert_initial_expr_inference_type step heap expr s
    let s ← visit_expr subject s
    let s ← visit_expr index s
    infer step (.progress expr) s
  | .slicing this subject from_index to_index, s => do
    let expr := Expression.slicing this subject from_index to_index
    let s ← insert_initial_expr_inference_type step heap expr s
    let s ← visit_expr subject s
    let s ← visit_expr from_index s
    let s ← visit_expr to_index s
    infer step (.progress expr) s
  | .select this subject field_name, s => do
    let expr := Expression.select this subject field_name
    let s ← insert_initial_expr_inference_type step heap expr s
    let s ← visit_expr subject s
    infer step (.progress expr) s
  | .literal this value values, s => do
    let expr := Expression.literal this value values
    let s ← insert_initial_expr_inference_type step heap expr s
    -- Only a struct, a union and an array have values.
    let s ← match value with
      | .struct .. | .enum .. | .union .. => infer step (.polymorph_data expr) s
      | .null | .false | .true | .integer _ | .character _ | .string _ | .array => .ok s
    let s ← visit_exprs values s
    infer step (.progress expr) s
  | .cast this subject, s => do
    let expr := Expression.cast this subject
    let s ← insert_initial_expr_inference_type step heap expr s
    let s ← visit_expr subject s
    infer step (.progress expr) s
  | .call this method arguments definition, s => do
    let expr := Expression.call this method arguments definition
    let s ← insert_initial_expr_inference_type step heap expr s
    let s ← infer step (.polymorph_data expr) s
    let s ← visit_exprs arguments s
    infer step (.progress expr) s
  | .variable this identifier, s => do
    let expr := Expression.variable this identifier
    let s ← insert_initial_expr_inference_type step heap expr s
    let s ← infer step (.used_at expr) s
    infer step (.progress expr) s

def visit_exprs : List Expression → TypingTraversal S → Except (TypingFailure ε) (TypingTraversal S)
  | [], s            => .ok s
  | expr :: exprs, s => do
    let s ← visit_expr expr s
    visit_exprs exprs s

end

mutual

def visit_stmt : Statement → TypingTraversal S → Except (TypingFailure ε) (TypingTraversal S)
  | .block body, s          => visit_block_stmt body s
  | .memory this id, s      => infer step (.declare (.memory this id)) s
  | .channel this from_id to_id, s => infer step (.declare (.channel this from_id to_id)) s
  | .labeled _ _ body, s    => visit_stmt body s
  | .if _ test true_body false_body _, s => do
    let s ← visit_expr step heap test s
    let s ← visit_block_stmt true_body s
    visit_false_body false_body s
  | .while _ test body _, s => do
    let s ← visit_expr step heap test s
    visit_block_stmt body s
  | .synchronous _ body _, s => visit_block_stmt body s
  | .return _ expression, s  => visit_expr step heap expression s
  | .new _ call method arguments definition, s =>
    visit_expr step heap (.call call method arguments definition) s
  | .expression _ expression, s => visit_expr step heap expression s
  | .break .., s | .continue .., s | .goto .., s => .ok s

def visit_block_stmt : BlockStatement → TypingTraversal S → Except (TypingFailure ε) (TypingTraversal S)
  | ⟨_, statements, _⟩, s => visit_stmts statements s

def visit_stmts : List Statement → TypingTraversal S → Except (TypingFailure ε) (TypingTraversal S)
  | [], s            => .ok s
  | stmt :: stmts, s => do
    let s ← visit_stmt stmt s
    visit_stmts stmts s

def visit_false_body :
    Option BlockStatement → TypingTraversal S → Except (TypingFailure ε) (TypingTraversal S)
  | none, s      => .ok s
  | some body, s => visit_block_stmt body s

end

-- `visit_component_definition` and `visit_function_definition`.
def visit_definition (definition : Definition) (inference : S) :
    Except (TypingFailure ε) (TypingTraversal S) := do
  let s : TypingTraversal S := {
    definition_type := definition.kind
    expr_types      := List.replicate (heap.num_expressions_in_body definition.this) none
    inference       := inference
    visited         := [] }
  let s ← infer step (.parameters definition) s
  visit_block_stmt step heap definition.body s

-- The steps between the entry of an expression and the visits of its operands.
def inference_steps (expr : Expression) : List InferenceStep :=
  match expr with
  | .literal _ (.struct ..) _ | .literal _ (.enum ..) _ | .literal _ (.union ..) _ | .call .. =>
    [.polymorph_data expr]
  | .variable ..                                                                      =>
    [.used_at expr]
  | _ => []

def infer_all : List InferenceStep → TypingTraversal S → Except (TypingFailure ε) (TypingTraversal S)
  | [], s                               => .ok s
  | inference_step :: inference_steps, s => do
    let s ← infer step inference_step s
    infer_all inference_steps s

-- The visitors of expressions all do the same: they enter the expression, visit its operands from left
-- to right and then make progress with its type.
theorem visit_expr_eq (expr : Expression) (s : TypingTraversal S) :
    visit_expr step heap expr s = (do
      let s ← insert_initial_expr_inference_type step heap expr s
      let s ← infer_all step (inference_steps expr) s
      let s ← visit_exprs step heap expr.children s
      infer step (.progress expr) s) := by
  cases expr with
  | literal this value values =>
    cases value <;>
      simp only [visit_expr, inference_steps, infer_all, Expression.children, bind_assoc, Except.ok_bind]
  | _ =>
    simp only [visit_expr, inference_steps, infer_all, visit_exprs, Expression.children, bind_assoc,
      Except.ok_bind]

end

variable {S ε : Type}

-- The place of an expression in `expr_types`.
def place (heap : Heap) (node : ExpressionNode) : Nat :=
  (heap.names.expressions node.1.this).unique_id_in_definition

-- Every expression still to be visited has an own free place, and a parent that says its first type.
structure Ready (heap : Heap) (nodes : List ExpressionNode) (s : TypingTraversal S) : Prop where
  free  : ∀ node ∈ nodes, s.expr_types[place heap node]? = some none
  nodup : (nodes.map (place heap)).Nodup
  typed : ∀ node ∈ nodes,
    has_initial_type s.definition_type (heap.names.expressions node.1.this).parent

structure Visited (heap : Heap) (nodes : List ExpressionNode) (s s' : TypingTraversal S) : Prop where
  visited         : s'.visited = s.visited ++ nodes.map Prod.fst
  definition_type : s'.definition_type = s.definition_type
  kept            : ∀ i ∉ nodes.map (place heap), s'.expr_types[i]? = s.expr_types[i]?

-- Either the expressions have been visited, or the inference has stopped the pass.
inductive Outcome (step : InferenceStep → S → Except ε S) (heap : Heap) (nodes : List ExpressionNode)
    (s : TypingTraversal S) : Except (TypingFailure ε) (TypingTraversal S) → Prop
  | ok {s' : TypingTraversal S} (h : Visited heap nodes s s') : Outcome step heap nodes s (.ok s')
  | stopped {error : ε} {inference_step : InferenceStep} {inference : S}
    (h : step inference_step inference = .error error) :
    Outcome step heap nodes s (.error (.inference error))

-- What the visitor of a part of the body does, when the expressions of that part are still to be visited.
def Visits (step : InferenceStep → S → Except ε S) (heap : Heap) (nodes : List ExpressionNode)
    (visit : TypingTraversal S → Except (TypingFailure ε) (TypingTraversal S)) : Prop :=
  ∀ s, Ready heap nodes s → Outcome step heap nodes s (visit s)

section

variable {S ε : Type} {step : InferenceStep → S → Except ε S} {heap : Heap}
variable {nodes nodes₁ nodes₂ : List ExpressionNode} {s s₁ s₂ : TypingTraversal S}
variable {visit visit₁ visit₂ : TypingTraversal S → Except (TypingFailure ε) (TypingTraversal S)}

theorem Ready.left (h : Ready heap (nodes₁ ++ nodes₂) s) : Ready heap nodes₁ s where
  free node hm  := h.free node (List.mem_append_left _ hm)
  nodup         := (List.map_append ▸ h.nodup).of_append_left
  typed node hm := h.typed node (List.mem_append_left _ hm)

-- The visit of one part leaves the places of the next part free.
theorem Ready.right (h : Ready heap (nodes₁ ++ nodes₂) s) (hv : Visited heap nodes₁ s s₁) :
    Ready heap nodes₂ s₁ where
  free node hm  := by
    have hn := h.nodup
    rw [List.map_append, List.nodup_append'] at hn
    rw [hv.kept _ fun hm' => hn.2.2 hm' (List.mem_map_of_mem hm)]
    exact h.free node (List.mem_append_right _ hm)
  nodup         := (List.map_append ▸ h.nodup).of_append_right
  typed node hm := hv.definition_type ▸ h.typed node (List.mem_append_right _ hm)

theorem Visited.trans (h₁ : Visited heap nodes₁ s s₁) (h₂ : Visited heap nodes₂ s₁ s₂) :
    Visited heap (nodes₁ ++ nodes₂) s s₂ where
  visited         := by rw [h₂.visited, h₁.visited, List.append_assoc, List.map_append]
  definition_type := h₂.definition_type.trans h₁.definition_type
  kept i hi       := by
    rw [List.map_append, List.mem_append, not_or] at hi
    exact (h₂.kept i hi.2).trans (h₁.kept i hi.1)

theorem Visits.nil : Visits step heap [] .ok :=
  fun _ _ => .ok ⟨(List.append_nil _).symm, rfl, fun _ _ => rfl⟩

-- One visitor after the other.
theorem Visits.append (h₁ : Visits step heap nodes₁ visit₁) (h₂ : Visits step heap nodes₂ visit₂) :
    Visits step heap (nodes₁ ++ nodes₂) fun s => visit₁ s >>= visit₂ := by
  intro s hs
  have hfirst := h₁ s hs.left
  dsimp only
  generalize visit₁ s = x at hfirst
  cases hfirst with
  | stopped h => exact .stopped h
  | ok hv₁ =>
    have hsecond := h₂ _ (hs.right hv₁)
    rw [Except.ok_bind]
    generalize visit₂ _ = y at hsecond
    cases hsecond with
    | stopped h => exact .stopped h
    | ok hv₂    => exact .ok (hv₁.trans hv₂)

theorem Visits.after (h : Visits step heap nodes visit₂) (h₁ : Visits step heap [] visit₁) :
    Visits step heap nodes fun s => visit₁ s >>= visit₂ :=
  h₁.append h

theorem Visits.before (h : Visits step heap nodes visit₁) (h₂ : Visits step heap [] visit₂) :
    Visits step heap nodes fun s => visit₁ s >>= visit₂ :=
  List.append_nil nodes ▸ h.append h₂

theorem infer_visits {inference_step : InferenceStep} :
    Visits step heap [] (infer step inference_step) := by
  intro s hs
  simp only [infer]
  split
  case h_1 => exact .ok ⟨(List.append_nil _).symm, rfl, fun _ _ => rfl⟩
  case h_2 he => exact .stopped he

theorem infer_all_visits {inference_steps : List InferenceStep} :
    Visits step heap [] (infer_all step inference_steps) := by
  induction inference_steps with
  | nil => exact .nil
  | cons inference_step inference_steps ih => exact ih.after infer_visits

theorem insert_initial_expr_inference_type_visits {expr : Expression} {parent : ExpressionParent} :
    Visits step heap [(expr, parent)] (insert_initial_expr_inference_type step heap expr) := by
  intro s hs
  have hfree  := hs.free _ (List.mem_singleton_self _)
  have htyped := hs.typed _ (List.mem_singleton_self _)
  simp only [place] at hfree
  simp only [insert_initial_expr_inference_type, htyped, hfree, not_true_eq_false, if_false, infer]
  split
  case h_2 he => exact .stopped he
  case h_1 =>
    refine .ok ⟨rfl, rfl, fun i hi => ?_⟩
    exact List.getElem?_set_ne fun he => hi (List.mem_singleton.mpr he.symm)

theorem visit_exprs_visits {expr : Expression} {parent : ExpressionParent} {children : List Expression}
    {idx : Nat} (ih : ∀ child ∈ children, ∀ parent,
      Visits step heap (child.nodes parent) (visit_expr step heap child)) :
    Visits step heap (Expression.listNodes expr parent idx children)
      (visit_exprs step heap children) := by
  induction children generalizing idx with
  | nil => exact .nil
  | cons child children ih' =>
    exact (ih child (.head _) _).append (ih' fun child hm => ih child (.tail _ hm))

-- An expression and everything below it is visited, each part of it once.
theorem visit_expr_visits (expr : Expression) (parent : ExpressionParent) :
    Visits step heap (expr.nodes parent) (visit_expr step heap expr) := by
  induction expr using Expression.children_induction generalizing parent with
  | h expr ih =>
    have hinsert := @insert_initial_expr_inference_type_visits _ _ step heap expr parent
    have hoperands : Visits step heap (Expression.listNodes expr parent 0 expr.children)
        (visit_exprs step heap expr.children) := visit_exprs_visits ih
    intro s hs
    rw [Expression.nodes_eq] at hs ⊢
    rw [visit_expr_eq]
    exact hinsert.append ((hoperands.before infer_visits).after infer_all_visits) s hs

mutual

theorem visit_stmt_visits : (stmt : Statement) →
    Visits step heap stmt.expressions (visit_stmt step heap stmt)
  | .block body => fun s hs => by
    simp only [visit_stmt]
    exact visit_block_stmt_visits body s hs
  | .memory .. | .channel .. => fun s hs => by
    simp only [visit_stmt]
    exact infer_visits s hs
  | .labeled _ _ body => fun s hs => by
    simp only [visit_stmt]
    exact visit_stmt_visits body s hs
  | .if _ test true_body false_body _ => fun s hs => by
    have hbodies := (visit_block_stmt_visits true_body).append (visit_false_body_visits false_body)
    simp only [visit_stmt]
    exact (visit_expr_visits test _).append hbodies s hs
  | .while _ test body _ => fun s hs => by
    simp only [visit_stmt]
    exact (visit_expr_visits test _).append (visit_block_stmt_visits body) s hs
  | .synchronous _ body _ => fun s hs => by
    simp only [visit_stmt]
    exact visit_block_stmt_visits body s hs
  | .return _ expression => fun s hs => by
    simp only [visit_stmt]
    exact visit_expr_visits expression _ s hs
  | .new _ call method arguments definition => fun s hs => by
    simp only [visit_stmt]
    exact visit_expr_visits (.call call method arguments definition) _ s hs
  | .expression _ expression => fun s hs => by
    simp only [visit_stmt]
    exact visit_expr_visits expression _ s hs
  | .break .. | .continue .. | .goto .. => fun s hs => by
    simp only [visit_stmt]
    exact Visits.nil s hs

theorem visit_block_stmt_visits : (body : BlockStatement) →
    Visits step heap (BlockOf.expressions body) (visit_block_stmt step heap body)
  | ⟨_, statements, _⟩ => fun s hs => by
    simp only [visit_block_stmt]
    exact visit_stmts_visits statements s hs

theorem visit_stmts_visits : (stmts : List Statement) →
    Visits step heap (Statement.listExpressions stmts) (visit_stmts step heap stmts)
  | [] => Visits.nil
  | stmt :: stmts => fun s hs => by
    simp only [visit_stmts]
    exact (visit_stmt_visits stmt).append (visit_stmts_visits stmts) s hs

theorem visit_false_body_visits : (body : Option BlockStatement) →
    Visits step heap (BlockOf.optionExpressions body) (visit_false_body step heap body)
  | none      => Visits.nil
  | some body => fun s hs => by
    simp only [visit_false_body]
    exact visit_block_stmt_visits body s hs

end

end

end PassTyping
end Reowolf
